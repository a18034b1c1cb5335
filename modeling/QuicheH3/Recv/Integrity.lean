/-
# Receive integrity

What the machine's invariant says about whole runs of the driver: over any transport, any
sequence of callbacks and any interleaving with the front end, what is placed in a byte queue is
what was read, a read is made with a slot in hand, FIN comes after its chunk, nothing follows
the seal.  `on_conn_close` is the last callback and seals halves whose entries stay, which is
why the close is looked at on its own.

The history speaks of chunks placed, the consumer of chunks it finds.  `Stocked` ties the two: at
every moment of a run, inside a callback too, the queue of a half is the end of what was placed
in it.  The consumer takes chunks off the front, a dropped receiver throws the rest away, and
nothing but a recorded `place` adds one.

Contents
  1  what a history in order says (`RecvIntegrity`), and that the invariant gives it
  2  `on_conn_close` and what comes after it
  3  the queue against the history (`queue_suffix_placed`)
  4  whole runs (`receive_integrity`)
-/
import QuicheH3.Recv.Refine
import QuicheH3.Driver.Close
import QuicheH3.Driver.StepFrame

namespace QuicheH3

open Lib

/-! ## 1. A history in order -/

/-- The receive side of a history is in order. -/
structure RecvIntegrity (tr : List Event) : Prop where
  /-- What is placed in a queue is what was read for it: in order, each once. -/
  exact : ∀ h, placed h tr = returned h tr
  /-- A stream that had one half: everything ever read for the stream. -/
  stream : ∀ id h, .recvOpen id h ∈ tr → (∀ h', .recvOpen id h' ∈ tr → h' = h) →
    placed h tr = returnedFor id tr
  /-- A read is made for a registered half, with a slot of its queue reserved. -/
  slot : Always (fun e pre => ∀ id ans, e = .streamRecv id ans →
    ∃ h, owner id pre = some h ∧ reserved h pre = true) tr
  /-- FIN is published after a read with FIN, whose chunk has been placed. -/
  fin : Always (fun e pre => ∀ h, e = .recvSet h .fin → ∃ id chunk, owner id pre = some h ∧
    lastRead id pre = some (.ok (chunk, true)) ∧ placed h pre = returned h pre) tr
  /-- Nothing is placed in the queue of a half whose cell is set. -/
  closed : Always (fun e pre => ∀ h chunk, e = .place h chunk → ¬ Sealed h pre) tr

/-- Reads of a stream with one half are all for that half. -/
theorem returned_eq_returnedFor {id h : Nat} : ∀ {tr : List Event}, Always RecvOk tr →
    (∀ h', .recvOpen id h' ∈ tr → h' = h) → (∀ id', .recvOpen id' h ∈ tr → id' = id) →
    returned h tr = returnedFor id tr
  | [], _, _, _ => rfl
  | e :: tr, hok, hone, hinj => by
    have ih := returned_eq_returnedFor hok.2 (fun h' hm => hone h' (List.mem_cons_of_mem _ hm))
      (fun id' hm => hinj id' (List.mem_cons_of_mem _ hm))
    cases e with
    | streamRecv id' ans =>
      cases ans with
      | error err => exact ih
      | ok x =>
        obtain ⟨h0, ho, -⟩ := hok.1
        have hm := List.mem_cons_of_mem (Event.streamRecv id' (.ok x)) (recvOpen_of_owner ho)
        -- the owner of the read is `h` exactly when the stream is `id`
        have hiff : owner id' tr = some h ↔ id' = id := by
          constructor
          · intro h'
            rw [ho, Option.some.injEq] at h'
            exact hinj id' (h' ▸ hm)
          · rintro rfl
            rw [ho, hone h0 hm]
        simp only [returned, returnedFor, hiff, ih]
    | _ => exact ih

theorem RecvInv.integrity {v : RecvView} (hv : RecvInv v) : RecvIntegrity v.hist where
  exact := hv.exact
  stream id h ho hone := by
    rw [hv.exact h]
    exact returned_eq_returnedFor hv.ok hone fun id' hm => hv.inj id' id h hm ho
  slot := hv.ok.mono fun e pre hok id ans he => by
    subst he
    exact hok
  fin := hv.ok.mono fun e pre hok h he => by
    subst he
    exact hok
  closed := hv.ok.mono fun e pre hok h chunk he => by
    subst he
    exact hok.2

/-! ## 2. The close -/

/-- Events that add nothing to what the receive side must answer for. -/
def Event.isLate : Event → Prop
  | .streamRecv _ _ | .place _ _ | .recvOpen _ _ | .recvSet _ .fin => False
  | _ => True

theorem isLate_of_isClose (e : Event) (h : e.isClose) : e.isLate := by
  cases e with
  | recvSet h' e =>
    cases e with
    | fin => exact h.elim
    | _ => trivial
  | _ => first | exact h.elim | trivial

/-- Late events keep the integrity of a history. -/
theorem RecvIntegrity.grows {tr tr' : List Event} (hg : Grows Event.isLate tr tr')
    (h : RecvIntegrity tr) : RecvIntegrity tr' := by
  have hplaced : ∀ k, placed k tr' = placed k tr := fun k =>
    Blind.grows (C := Event.isLate) (fun e _ he => by cases e <;> first | rfl | exact he.elim) hg
  have hreturned : ∀ k, returned k tr' = returned k tr := fun k =>
    Blind.grows (C := Event.isLate) (fun e _ he => by cases e <;> first | rfl | exact he.elim) hg
  have hfor : ∀ k, returnedFor k tr' = returnedFor k tr := fun k =>
    Blind.grows (C := Event.isLate) (fun e _ he => by cases e <;> first | rfl | exact he.elim) hg
  have hopen : ∀ id k, .recvOpen id k ∈ tr' ↔ .recvOpen id k ∈ tr := fun id k =>
    hg.mem_iff fun h => h
  refine ⟨fun k => ?_, fun id k ho hone => ?_, ?_, ?_, ?_⟩
  · rw [hplaced, hreturned, h.exact]
  · rw [hplaced, hfor]
    exact h.stream id k ((hopen id k).mp ho) fun k' hk' => hone k' ((hopen id k').mpr hk')
  · refine hg.always (fun e pre he id ans hc => ?_) h.slot
    subst hc
    exact he.elim
  · refine hg.always (fun e pre he k hc => ?_) h.fin
    subst hc
    exact he.elim
  · refine hg.always (fun e pre he k chunk hc => ?_) h.closed
    subst hc
    exact he.elim

namespace World

variable {σ : Type} {T : QuicConn σ} {w w' : World σ}

/-! ## 3. The queue against the history -/

/-- Every byte queue is the end of what was placed in it. -/
def Stocked (w : World σ) : Prop := ∀ h, (w.sh.recvHalves h).bytes <:+ placed h w.trace

/-- Queues that only lose chunks, over a history that places none. -/
theorem Stocked.lose (hw : w.Stocked)
    (hb : ∀ h, (w'.sh.recvHalves h).bytes <:+ (w.sh.recvHalves h).bytes)
    (hp : ∀ h, placed h w'.trace = placed h w.trace) : w'.Stocked := by
  intro h
  rw [hp]
  exact (hb h).trans (hw h)

/-- A chunk enters the queue and the history together. -/
theorem Stocked.place (hw : w.Stocked) (h : Nat) (chunk : Bytes) :
    (w.permitSend h chunk).Stocked := by
  intro i
  by_cases hi : i = h
  · subst hi
    simpa [permitSend, modRecv, Face.modRecv, emit, Face.emit, placed] using
      List.suffix_append_self_iff.mpr (hw i)
  · simpa [permitSend, modRecv, Face.modRecv, emit, Face.emit, placed, hi, Ne.symm hi] using hw i

theorem Stocked.fronts (hw : w.Stocked) (acts : List FrontAct) : (w.fronts acts).Stocked := by
  have hf := Face.fronts_rel acts w.toFace
  exact hw.lose hf.bytes fun h => (blind_placed h).grows (hf.grows.mono notRecv_of_isFront)

theorem dropAnswer_bytes (w : World σ) (ans : Reply) (h : Nat) :
    ((w.dropAnswer ans).sh.recvHalves h).bytes <:+ (w.sh.recvHalves h).bytes := by
  have hs (f : Face) (c : Nat) : (f.dropSendHandoff c).sh.recvHalves = f.sh.recvHalves :=
    (cmdSend_same _ _).1
  cases ans with
  | bidi i c =>
    have hr : ((w.dropAnswer (.bidi i c)).sh.recvHalves) = Function.update w.sh.recvHalves i
        { w.sh.recvHalves i with holder := .gone, bytes := [] } := by
      refine (cmdSend_same _ _).1.trans ?_
      simp only [Face.emit, Face.modRecv, hs]
    rw [hr]
    by_cases hi : h = i
    · subst hi
      simp
    · simp [hi]
  | uni c =>
    change ((w.toFace.dropSendHandoff c).sh.recvHalves h).bytes <:+ _
    rw [hs]
  | _ => exact List.suffix_rfl

theorem stocked_frame : StepFrame fun w w' : World σ => w.Stocked → w'.Stocked where
  refl _ := id
  trans h h' := h' ∘ h
  interleave w hw := hw.fronts (w.ctl.script.headD [])
  qconn _ _ := id
  iterate _ := id
  emit w e he hw := hw.lose (fun _ => List.suffix_rfl) fun h => by
    cases e <;> first | rfl | exact he.elim
  place w h chunk _ hw := hw.place h chunk
  halves _ _ _ _ _ _ _ hr _ _ hw := hw.lose (fun h => (hr h).bytes) fun _ => rfl
  reg _ _ _ := id
  reply _ _ _ := id
  dropAnswer w ans hw := hw.lose (dropAnswer_bytes w ans) fun h =>
    (blind_placed h).grows ((dropAnswer_grows w ans).mono notRecv_of_isFront)
  opens _ _ _ _ _ := id
  pending _ _ _ := id
  parked _ _ _ := id
  acceptFlag _ bidi _ := by cases bidi <;> exact id
  handBidi _ _ _ := id
  handUni _ _ _ := id
  ctl _ _ := id
  probe w e he hw := hw.lose (fun _ => List.suffix_rfl) fun h =>
    blind_placed h e w.trace (notRecv_of_isProbe e he)
  applied _ _ := id
  commands _ _ _ := id
  fronts _ acts hw := hw.fronts acts

/-- **The queue is the end of what was placed**, in every state of every run: what a receiver has
not taken yet are the last chunks of its history, in order. -/
theorem queue_suffix_placed {isServer : Bool} {bidiCap uniCap depth : Nat} {cap : Option Nat}
    {c : σ} {script : List (List FrontAct)}
    (hs : Steps T (withBuffers isServer bidiCap uniCap depth cap c script) w) (h : Nat) :
    (w.sh.recvHalves h).bytes <:+ placed h w.trace :=
  stocked_frame.steps hs (fun _ => List.nil_suffix) h

/-! ## 4. Whole runs -/

/-- The invariant of the receive side, with what admission needs. -/
theorem recvInv_steps (hs : Steps T w w') (hp : PeersOk w.reg) (hw : RecvInv w.rview) :
    RecvInv w'.rview := by
  induction hs with
  | refl => exact hw
  | tail hs h ih => exact ih.moves (recvMoves_step h (peersOk_steps hs hp))

theorem peersOk_withBuffers (isServer : Bool) (bidiCap uniCap depth : Nat) (cap : Option Nat)
    (c : σ) (script : List (List FrontAct)) :
    PeersOk (withBuffers isServer bidiCap uniCap depth cap c script).reg :=
  ⟨fun _ _ h => by simp [withBuffers] at h, fun _ _ h => by simp [withBuffers] at h⟩

theorem recvInv_run (T : QuicConn σ) (isServer : Bool) (bidiCap uniCap depth : Nat)
    (cap : Option Nat) (c : σ) (script : List (List FrontAct)) (ticks : List (Tick σ)) :
    RecvInv ((withBuffers isServer bidiCap uniCap depth cap c script).run T ticks).rview := by
  refine recvInv_steps (run_steps ticks _) (peersOk_withBuffers ..) ?_
  exact .init _ rfl

/-- **Receive integrity.**  For every transport, every run of callbacks with every interleaving
of the front end, and every way the connection ends: the chunks placed in a stream's byte queue
are the non-empty chunks `stream_recv` returned for it, in order, each once; a read is made only
with a slot reserved; FIN is published only after its chunk was placed; nothing is placed after
the cell is set. -/
theorem receive_integrity (T : QuicConn σ) (isServer : Bool) (bidiCap uniCap depth : Nat)
    (cap : Option Nat) (c : σ) (script : List (List FrontAct)) (ticks : List (Tick σ))
    (rest : List FrontAct) :
    RecvIntegrity ((withBuffers isServer bidiCap uniCap depth cap c script).run T ticks).trace ∧
    RecvIntegrity
      ((withBuffers isServer bidiCap uniCap depth cap c script).runClosed T ticks rest).trace := by
  have h := (recvInv_run T isServer bidiCap uniCap depth cap c script ticks).integrity
  exact ⟨h, h.grows (Grows.mono isLate_of_isClose (runClosed_close T _ ticks rest))⟩

end World

end QuicheH3
