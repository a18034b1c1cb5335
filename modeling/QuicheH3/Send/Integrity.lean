/-
# Send integrity (`driver.rs`, `buffer.rs`)

A write leaves through one of three ways: whole, in parts as the transport takes them, or held back
so that the FIN can ride on its last chunk.  Whatever the way and however often it changes, the
bytes the transport has taken, what is held, what is queued and what is still on its way are
together what was written, in that order (`Flowing.flow`).  So what the transport has taken is the
first part of what was written, and a FIN is taken when it is all of it.

The equation ends with the stream's send terminal, which drops what is queued.  It also ends when
the worker forgets the entry, and that can happen to a stream that still sends: a readable report of
a local stream whose receive half has ended announces a PEER stream, and the halves built for it
replace the entry together with the bytes it holds (`heldReplaced_skips`).
-/
import QuicheH3.Life.Operations
import QuicheH3.Life.Undelivered
import QuicheH3.Budget.Outcome
import QuicheH3.Mock

namespace QuicheH3

open Lib

/-! ## 1. Bytes -/

/-- The bytes of an operation. -/
def SendOp.bytes : SendOp → Bytes
  | .write buf _ _ => buf.bytes
  | .finish _ => []

/-- The bytes an entry has: what it holds back, then what is queued. -/
def StreamSendState.bytes (s : StreamSendState) : Bytes :=
  s.held.elim [] WriteBuf.bytes ++ s.sendOps.flatMap SendOp.bytes

/-- What was written on stream `id`: the buffers of its `Send`s, in the order of the commands. -/
def written (id : Nat) (tr : List Event) : Bytes := (submittedOps id tr).flatMap SendOp.bytes

/-- The bytes the transport takes of an offer on stream `id`. -/
def Event.takes (id : Nat) : Event → Option Bytes
  | .streamSend i data _ (.ok n) => if i = id then some (data.take n) else none
  | _ => none

/-- What the transport has accepted for stream `id`. -/
def accepted (id : Nat) (tr : List Event) : Bytes := (picked (Event.takes id) tr).flatten

/-- The transport takes a FIN of stream `id`: it was offered, and all bytes offered with it were
taken. -/
def Event.takesFin (id : Nat) : Event → Bool
  | .streamSend i data fin (.ok n) => i == id && fin && n == data.length
  | _ => false

def FinAccepted (id : Nat) (tr : List Event) : Prop := ∃ e ∈ tr, e.takesFin id = true

instance (id : Nat) (tr : List Event) : Decidable (FinAccepted id tr) :=
  inferInstanceAs (Decidable (∃ e ∈ tr, _))

/-- Nothing is offered after the FIN, and a FIN that is taken has everything written before it. -/
structure SendOk (id : Nat) (e : Event) (pre : List Event) : Prop where
  open_ : e.offersOn id → ¬ FinAccepted id pre
  fin : e.takesFin id = true → Finishing id pre ∧ accepted id (e :: pre) = written id pre

section Bytes

variable {id n : Nat} {e : Event} {tr tr' : List Event} {buf : WriteBuf}

theorem accepted_cons : accepted id (e :: tr) = accepted id tr ++ (e.takes id).getD [] := by
  unfold accepted
  rw [picked_cons, List.flatten_append]
  cases e.takes id <;> simp

theorem finAccepted_cons : FinAccepted id (e :: tr) ↔ e.takesFin id = true ∨ FinAccepted id tr := by
  simp [FinAccepted]

/-- The event is no offer on the stream that was answered with `Ok`. -/
def Event.untaken (id : Nat) : Event → Prop
  | .streamSend i _ _ (.ok _) => i ≠ id
  | _ => True

theorem takes_untaken (h : e.untaken id) : e.takes id = none ∧ e.takesFin id = false := by
  cases e with
  | streamSend i data fin ans =>
    cases ans with
    | error err => exact ⟨rfl, rfl⟩
    | ok n => exact ⟨if_neg h, by simp [Event.takesFin, show i ≠ id from h]⟩
  | _ => exact ⟨rfl, rfl⟩

theorem accepted_untaken (hg : Grows (Event.untaken id) tr tr') :
    accepted id tr' = accepted id tr :=
  congrArg List.flatten ((blind_picked fun _ he => (takes_untaken he).1).grows hg)

theorem finAccepted_untaken (hg : Grows (Event.untaken id) tr tr') :
    FinAccepted id tr' ↔ FinAccepted id tr := by
  obtain ⟨evs, rfl, hE⟩ := hg
  constructor
  · rintro ⟨e, he, hx⟩
    rcases List.mem_append.mp he with he | he
    · rw [(takes_untaken (hE e he)).2] at hx
      cases hx
    · exact ⟨e, he, hx⟩
  · rintro ⟨e, he, hx⟩
    exact ⟨e, List.mem_append_right _ he, hx⟩

/-- What is offered is where the buffer starts. -/
theorem offered_take (hn : n ≤ buf.offered.length) :
    buf.offered.take n ++ (buf.advance n).bytes = buf.bytes := by
  obtain ⟨rest, hrest⟩ := buf.bytes_eq_chunk_append
  have hoff : buf.offered <+: buf.bytes := by
    rw [hrest]
    exact (List.take_prefix _ _).trans (List.prefix_append _ _)
  obtain ⟨more, hmore⟩ := hoff
  rw [WriteBuf.bytes_advance, ← hmore, List.drop_append_of_le_length hn, ← List.append_assoc,
    List.take_append_drop]

theorem length_offered : buf.offered.length = min buf.chunk.length maxWriteChunk := by
  unfold WriteBuf.offered
  rw [List.length_take]
  omega

theorem length_offered_le : buf.offered.length ≤ buf.remaining := by
  obtain ⟨rest, hrest⟩ := buf.bytes_eq_chunk_append
  unfold WriteBuf.remaining
  rw [hrest, length_offered, List.length_append]
  omega

/-- The FIN rides on the offer that empties the buffer. -/
theorem offerFin_iff {fin : Bool} :
    buf.offerFin fin = true ↔ fin = true ∧ buf.offered.length = buf.remaining := by
  unfold WriteBuf.offerFin
  rw [length_offered, Bool.and_eq_true, beq_iff_eq]

theorem advance_empty (hr : (buf.advance n).hasRemaining = false) : (buf.advance n).bytes = [] := by
  by_contra hx
  rw [(buf.advance n).hasRemaining_iff.mpr hx] at hr
  cases hr

/-- An offer that leaves something in the buffer has not taken its FIN. -/
theorem takesFin_flush {fin : Bool} (hm : fin = false ∨ (buf.advance n).hasRemaining = true) :
    (Event.streamSend id buf.offered (buf.offerFin fin) (.ok n)).takesFin id = false := by
  by_contra hx
  simp only [Event.takesFin, beq_self_eq_true, Bool.true_and, Bool.not_eq_false, Bool.and_eq_true,
    beq_iff_eq] at hx
  obtain ⟨hfin, hlen⟩ := offerFin_iff.mp hx.1
  rcases hm with hm | hm
  · rw [hm] at hfin
    cases hfin
  · refine (buf.advance n).hasRemaining_iff.mp hm ?_
    rw [WriteBuf.bytes_advance, hx.2, hlen]
    exact List.drop_length

/-- An offer with the FIN that empties the buffer has taken it. -/
theorem takesFin_flushFin (hn : n ≤ buf.offered.length)
    (hm : (buf.advance n).hasRemaining = false) :
    (Event.streamSend id buf.offered (buf.offerFin true) (.ok n)).takesFin id = true := by
  have hnil := advance_empty hm
  rw [WriteBuf.bytes_advance, List.drop_eq_nil_iff] at hnil
  have hle : buf.offered.length ≤ buf.remaining := length_offered_le
  have hrem : buf.remaining ≤ n := hnil
  have hlen : buf.offered.length = buf.remaining := by omega
  simp only [Event.takesFin, beq_self_eq_true, Bool.true_and, Bool.and_eq_true, beq_iff_eq]
  exact ⟨offerFin_iff.mpr ⟨rfl, hlen⟩, by omega⟩

end Bytes

/-! ## 2. The line -/

namespace Line

/-- The write that is held back. -/
def held (l : Line) : Option WriteBuf := l.send.bind fun s => s.held

/-- The bytes on the line, the next one first. -/
def bytes (l : Line) : Bytes := l.held.elim [] WriteBuf.bytes ++ l.ops.flatMap SendOp.bytes

/-- No status cell of the stream is written. -/
def Unpublished (id : Nat) (tr : List Event) : Prop := ∀ c, CellOf c id tr → ¬ Published c tr

/-- Nothing is lost on the line. -/
structure Flowing (id : Nat) (l : Line) : Prop where
  flow : written id l.hist = accepted id l.hist ++ l.bytes
  held : ∀ buf, l.held = some buf → buf.hasRemaining = true
  entry : ∀ s, l.send = some s → s.Open ∧ (s.finished = true → FinAccepted id l.hist)
  done : FinAccepted id l.hist → Finishing id l.hist ∧ l.ops = [] ∧ l.held = none
  waits : ∀ t, .submit (.finish id t) ∈ l.hist → FinAccepted id l.hist ∨ .finish t ∈ l.ops
  told : ∀ t, .submit (.finish id t) ∈ l.hist →
    (.resolve t (.ok ()) ∈ l.hist ↔ FinAccepted id l.hist)
  ok : Always (SendOk id) l.hist

variable {id n t : Nat} {ok : Bytes → Nat → Prop} {v : Life} {l l' : Line}
  {s s' : StreamSendState}

theorem held_some (hs : l.send = some s) : l.held = s.held := by
  unfold held
  rw [hs]
  rfl

theorem bytes_some (hs : l.send = some s) :
    l.bytes = s.bytes ++ (opsAmong l.cmds).flatMap SendOp.bytes := by
  unfold bytes StreamSendState.bytes
  rw [held_some hs, ops_some hs, List.flatMap_append, List.append_assoc]

theorem Unpublished.anti {tr tr' : List Event} (h : Unpublished id tr') (hs : tr <:+ tr') :
    Unpublished id tr := by
  rintro c hc ⟨e, he⟩
  exact h c (hc.mono hs.subset) ⟨e, hs.subset he⟩

namespace Flowing

theorem finish_iff (hsub : submittedOps id l'.hist = submittedOps id l.hist) :
    .submit (.finish id t) ∈ l'.hist ↔ .submit (.finish id t) ∈ l.hist := by
  rw [← mem_submittedOps_finish, ← mem_submittedOps_finish, hsub]

theorem untaken_of_not_offersOn (e : Event) (h : ¬ e.offersOn id) : e.untaken id := by
  cases e with
  | streamSend i data fin ans =>
    cases ans with
    | error err => trivial
    | ok n => exact h
  | _ => trivial

/-- Where nothing is offered there is nothing to say. -/
theorem sendOk_of_not_offersOn (e : Event) (pre : List Event) (h : ¬ e.offersOn id) :
    SendOk id e pre := by
  refine ⟨fun hx => absurd hx h, fun hx => ?_⟩
  rw [(takes_untaken (untaken_of_not_offersOn e h)).2] at hx
  cases hx

/-- Nothing is taken; the bytes of the line and its `Finish` stay. -/
theorem keep (h : Flowing id l) (hg : Grows (Event.untaken id) l.hist l'.hist)
    (hok : Always (SendOk id) l'.hist) (hsub : submittedOps id l'.hist = submittedOps id l.hist)
    (htold : ∀ t, .submit (.finish id t) ∈ l.hist → .resolve t (.ok ()) ∈ l'.hist →
      .resolve t (.ok ()) ∈ l.hist)
    (hbytes : l'.bytes = l.bytes) (hfin : ∀ t, .finish t ∈ l.ops → .finish t ∈ l'.ops)
    (hdone : l.ops = [] → l.held = none → l'.ops = [] ∧ l'.held = none)
    (hheld : ∀ buf, l'.held = some buf → buf.hasRemaining = true)
    (hent : ∀ s', l'.send = some s' → s'.Open ∧ (s'.finished = true → FinAccepted id l.hist)) :
    Flowing id l' := by
  have hF := finAccepted_untaken hg
  refine ⟨?_, hheld, fun s' hs' => (hent s' hs').imp_right fun hx hf => hF.mpr (hx hf),
    fun hx => ?_, fun t ht => ?_, fun t ht => ?_, hok⟩
  · unfold written
    rw [hsub, accepted_untaken hg, hbytes]
    exact h.flow
  · obtain ⟨hfing, hops, hnone⟩ := h.done (hF.mp hx)
    exact ⟨hfing.mono hg.subset, hdone hops hnone⟩
  · exact (h.waits t ((finish_iff hsub).mp ht)).imp hF.mpr (hfin t)
  · have ht' := (finish_iff hsub).mp ht
    rw [hF, ← h.told t ht']
    exact ⟨htold t ht', fun hx => hg.mem hx⟩

/-- The same, with the line as it is. -/
theorem quiet (h : Flowing id l) (hg : Grows (fun e => ¬ e.offersOn id) l.hist l'.hist)
    (hsub : submittedOps id l'.hist = submittedOps id l.hist)
    (htold : ∀ t, .submit (.finish id t) ∈ l.hist → .resolve t (.ok ()) ∈ l'.hist →
      .resolve t (.ok ()) ∈ l.hist) (hops : l'.ops = l.ops) (hheld : l'.held = l.held)
    (hent : ∀ s', l'.send = some s' → s'.Open ∧ (s'.finished = true → FinAccepted id l.hist)) :
    Flowing id l' := by
  refine h.keep (hg.mono untaken_of_not_offersOn) (hg.always sendOk_of_not_offersOn h.ok) hsub htold
    ?_ (fun t hx => hops ▸ hx) (fun h1 h2 => ⟨hops ▸ h1, hheld ▸ h2⟩)
    (fun buf hx => h.held buf (hheld ▸ hx)) hent
  unfold bytes
  rw [hops, hheld]

/-- While something is on the line no FIN was taken. -/
theorem not_finAccepted (h : Flowing id l) (hw : l.ops ≠ [] ∨ l.held.isSome) :
    ¬ FinAccepted id l.hist := by
  intro hx
  obtain ⟨-, hops, hheld⟩ := h.done hx
  rcases hw with hw | hw
  · exact hw hops
  · rw [hheld] at hw
    cases hw

theorem not_finAccepted_of (h : Flowing id l) (hs : l.send = some s)
    (hw : s.sendOps ≠ [] ∨ s.held.isSome) : ¬ FinAccepted id l.hist := by
  refine h.not_finAccepted (hw.imp (fun hx => ?_) fun hx => ?_)
  · rw [ops_some hs]
    simp [hx]
  · rwa [held_some hs]

/-- An offer that takes no FIN; `evs` are completions of writes. -/
theorem offer (h : Flowing id l) (evs : List Event) (hs : l.send = some s)
    (hs' : l'.send = some s') (hc : l'.cmds = l.cmds) (ho : s'.Open)
    (hfd : s'.finished = s.finished)
    (hw : s.sendOps ≠ [] ∨ s.held.isSome) {data : Bytes} {fin : Bool}
    (hF : (Event.streamSend id data fin (.ok n)).takesFin id = false)
    (hhist : l'.hist = evs ++ .streamSend id data fin (.ok n) :: l.hist)
    (hevs : ∀ e ∈ evs, ∃ t, e = .resolve t (.ok ()) ∧ .submit (.finish id t) ∉ l.hist)
    (hbytes : s.bytes = data.take n ++ s'.bytes)
    (hfin : ∀ t, .finish t ∈ s.sendOps → .finish t ∈ s'.sendOps)
    (hheld : ∀ buf, s'.held = some buf → buf.hasRemaining = true) : Flowing id l' := by
  have hnot := h.not_finAccepted_of hs hw
  have hg : Grows (fun e => ¬ e.offersOn id)
      (.streamSend id data fin (.ok n) :: l.hist) l'.hist := by
    refine ⟨evs, hhist, fun e he => ?_⟩
    obtain ⟨t, rfl, -⟩ := hevs e he
    exact not_false
  have hgu := hg.mono untaken_of_not_offersOn
  have hsub : submittedOps id l'.hist = submittedOps id l.hist := by
    refine submittedOps_unasked ⟨evs ++ [.streamSend id data fin (.ok n)], by simp [hhist], ?_⟩
    intro e he
    rcases List.mem_append.mp he with he | he
    · obtain ⟨t, rfl, -⟩ := hevs e he
      exact nofun
    · cases List.mem_singleton.mp he
      exact nofun
  have hnot' : ¬ FinAccepted id l'.hist := by
    rw [finAccepted_untaken hgu, finAccepted_cons, hF]
    exact fun hx => hnot (hx.resolve_left nofun)
  have hacc : accepted id l'.hist = accepted id l.hist ++ data.take n := by
    rw [accepted_untaken hgu, accepted_cons]
    simp [Event.takes]
  refine ⟨?_, fun buf hb => hheld buf (held_some hs' ▸ hb), fun x hx => ?_,
    fun hx => absurd hx hnot', fun t ht => .inr ?_, fun t ht => ?_, ?_⟩
  · have hflow := h.flow
    rw [bytes_some hs, hbytes, List.append_assoc] at hflow
    unfold written at hflow ⊢
    rw [hsub, hacc, bytes_some hs', hc, List.append_assoc]
    exact hflow
  · cases hs'.symm.trans hx
    exact ⟨ho, fun hf => absurd ((h.entry s hs).2 (hfd ▸ hf)) hnot⟩
  · have hmem := (h.waits t ((finish_iff hsub).mp ht)).resolve_left hnot
    rw [ops_some hs, List.mem_append] at hmem
    rw [ops_some hs', hc, List.mem_append]
    exact hmem.imp_left (hfin t)
  · have ht' := (finish_iff hsub).mp ht
    refine iff_of_false (fun hx => hnot ((h.told t ht').mp ?_)) hnot'
    rw [hhist] at hx
    rcases List.mem_append.mp hx with hx | hx
    · obtain ⟨t', he, hn⟩ := hevs _ hx
      cases he
      exact absurd ht' hn
    · simpa using hx
  · refine hg.always sendOk_of_not_offersOn ⟨⟨fun _ => hnot, ?_⟩, h.ok⟩
    rw [hF]
    exact nofun

/-- The offer that takes the FIN, and all that is left with it. -/
theorem finish (h : Flowing id l) (hord : InOrder id l) (hP : Always (NoLate id) l.hist)
    {data : Bytes} {rest : List SendOp} (hs : l.send = some s) (ho : s.Open)
    (hop : s.sendOps = .finish t :: rest) {fin : Bool}
    (hF : (Event.streamSend id data fin (.ok n)).takesFin id = true)
    (hall : l.held.elim [] WriteBuf.bytes = data.take n) :
    Flowing id { l with
      send := some { s with held := none, sendOps := rest, finished := true }
      hist := .resolve t (.ok ()) :: .streamSend id data fin (.ok n) :: l.hist } := by
  have hops : l.ops = .finish t :: (rest ++ opsAmong l.cmds) := by
    rw [ops_some hs, hop, List.cons_append]
  have halone := hord.finish_alone hP hops
  have hsubm := hord.submitted_finish (t := t) (by rw [hops]; exact List.mem_cons_self)
  have hnot := h.not_finAccepted (.inl (by rw [hops]; simp))
  have hacc : accepted id (.streamSend id data fin (.ok n) :: l.hist) = written id l.hist := by
    rw [h.flow, accepted_cons]
    unfold bytes
    rw [hops, halone, hall]
    simp [Event.takes, SendOp.bytes]
  have hF' : FinAccepted id (.resolve t (.ok ()) :: .streamSend id data fin (.ok n) :: l.hist) :=
    finAccepted_cons.mpr (.inr (finAccepted_cons.mpr (.inl hF)))
  have hsub : submittedOps id (.resolve t (.ok ()) :: .streamSend id data fin (.ok n) :: l.hist) =
      submittedOps id l.hist := submittedOps_unasked (.cons nofun (.one nofun))
  refine ⟨?_, nofun, fun x hx => ?_, fun _ => ⟨⟨t, ?_⟩, halone, rfl⟩, fun _ _ => .inl hF',
    fun t' ht' => ?_, ⟨nofun, nofun⟩, ⟨fun _ => hnot, fun _ => ⟨⟨t, hsubm⟩, hacc⟩⟩, h.ok⟩
  · unfold written
    rw [hsub]
    refine hacc.symm.trans ?_
    rw [accepted_cons (e := .resolve t (.ok ()))]
    have hb : bytes { l with
        send := some { s with held := none, sendOps := rest, finished := true }
        hist := .resolve t (.ok ()) :: .streamSend id data fin (.ok n) :: l.hist } = [] :=
      congrArg (List.flatMap SendOp.bytes) halone
    rw [hb]
    simp [Event.takes]
  · cases hx
    exact ⟨⟨ho.terminal, ho.pendingReset⟩, fun _ => hF'⟩
  · exact List.mem_cons_of_mem _ (List.mem_cons_of_mem _ hsubm)
  · -- it is the `Finish` of the stream
    have hmem := (h.waits t' (by simpa using ht')).resolve_left hnot
    rw [hops, halone] at hmem
    cases List.mem_singleton.mp hmem
    exact iff_of_true List.mem_cons_self hF'

/-- An entry is made where there is none. -/
theorem made (h : Flowing id l) (hs : l.send = none) {c : Nat}
    (hg : Grows (fun e => ¬ e.offersOn id) l.hist l'.hist)
    (hsub : submittedOps id l'.hist = submittedOps id l.hist)
    (htold : ∀ t, .submit (.finish id t) ∈ l.hist → .resolve t (.ok ()) ∈ l'.hist →
      .resolve t (.ok ()) ∈ l.hist) (hs' : l'.send = some (.new c)) (hc : l'.cmds = l.cmds) :
    Flowing id l' := by
  refine h.quiet hg hsub htold ?_ ?_ fun x hx => ?_
  · unfold ops
    rw [queued_none hs, queued_some hs', hc]
    rfl
  · rw [held_some hs']
    unfold Line.held
    rw [hs]
    rfl
  · cases hs'.symm.trans hx
    exact ⟨⟨rfl, rfl⟩, nofun⟩

/-- The write at the front is completed without an offer: it is held back, or was empty. -/
theorem completed (h : Flowing id l) (hord : InOrder id l) (hs : l.send = some s) {buf : WriteBuf}
    {p : Option Nat} {rest : List SendOp} (hop : s.sendOps = .write buf t p :: rest) (ho' : s'.Open)
    (hfd : s'.finished = s.finished) (hrest : s'.sendOps = rest) (hbytes : s'.bytes = s.bytes)
    (hheld : ∀ b, s'.held = some b → b.hasRemaining = true) :
    Flowing id { l with send := some s', hist := .resolve t (.ok ()) :: l.hist } := by
  have hops : l.ops = .write buf t p :: (rest ++ opsAmong l.cmds) := by
    rw [ops_some hs, hop, List.cons_append]
  have hne : .submit (.finish id t) ∉ l.hist :=
    hord.write_ne_finish (by rw [hops]; exact List.mem_cons_self)
  refine h.keep (.one trivial) ⟨⟨nofun, nofun⟩, h.ok⟩
    (submittedOps_unasked (.one nofun)) (fun t' ht' hx => ?_) ?_ (fun t' hx => ?_)
    (fun hx _ => ?_) (fun b hb => hheld b hb) fun x hx => ?_
  · rcases List.mem_cons.mp hx with hx | hx
    · cases hx
      exact absurd ht' hne
    · exact hx
  · rw [bytes_some hs, bytes_some rfl, hbytes]
  · rw [hops] at hx
    rw [ops_some rfl, hrest]
    simpa using hx
  · rw [hops] at hx
    cases hx
  · cases hx
    exact ⟨ho', fun hf => (h.entry s hs).2 (hfd ▸ hf)⟩

/-- Front-end actions: what they write goes to the back. -/
theorem front (h : Flowing id v.line) {cs : List DriverCommand} {tr : List Event}
    (hf : Life.Front id v cs tr) (hP : Always (NoLate id) tr)
    (hset : ∀ t res, .resolve t res ∈ v.hist → ∃ i, Submitted t i v.hist) :
    Flowing id { v.line with cmds := v.line.cmds ++ cs, hist := tr } := by
  have hg : Grows (fun e => ¬ e.offersOn id) v.line.hist tr :=
    hf.grows.mono fun e he => by cases e <;> first | exact not_false | exact he.elim
  have hgu := hg.mono untaken_of_not_offersOn
  have hF := finAccepted_untaken hgu
  have hsub : submittedOps id tr = submittedOps id v.line.hist ++ opsAmong cs :=
    submittedOps_front hf
  have hfinished (hx : FinAccepted id v.line.hist) : opsAmong cs = [] :=
    opsAmong_eq_nil hf hP (h.done hx).1
  refine ⟨?_, h.held, fun s hs => (h.entry s hs).imp_right fun hx hfd => hF.mpr (hx hfd),
    fun hx => ?_, fun t ht => ?_, fun t ht => ?_, hg.always sendOk_of_not_offersOn h.ok⟩
  · have hflow := h.flow
    unfold written bytes at hflow ⊢
    rw [hsub, accepted_untaken hgu, InOrder.front_ops, List.flatMap_append, List.flatMap_append,
      hflow]
    simp only [List.append_assoc]
    rfl
  · obtain ⟨hfing, hops, hheld⟩ := h.done (hF.mp hx)
    refine ⟨hfing.mono hf.grows.subset, ?_, hheld⟩
    rw [InOrder.front_ops, hops, hfinished (hF.mp hx), List.append_nil]
  · rw [InOrder.front_ops, List.mem_append]
    rw [← mem_submittedOps_finish, hsub, List.mem_append] at ht
    rcases ht with ht | ht
    · exact (h.waits t (mem_submittedOps_finish.mp ht)).imp hF.mpr .inl
    · exact .inr (.inr ht)
  · rw [← mem_submittedOps_finish, hsub, List.mem_append] at ht
    have hres : .resolve t (.ok ()) ∈ tr ↔ .resolve t (.ok ()) ∈ v.line.hist :=
      hf.grows.mem_iff not_false
    rcases ht with ht | ht
    · rw [hres, hF]
      exact h.told t (mem_submittedOps_finish.mp ht)
    · -- a new `Finish`: its completion is new, and no FIN was taken
      refine iff_of_false (fun hx => ?_) fun hx => ?_
      · obtain ⟨i, hi⟩ := hset t _ (hres.mp hx)
        exact fresh_opsAmong hf ht i hi
      · rw [hfinished (hF.mp hx)] at ht
        cases ht

/-- **Every step keeps this**, as long as no terminal of the stream is published. -/
theorem move (h : Flowing id l) (hord : InOrder id l) (hm : Move id ok l l')
    (hok : ∀ data n, ok data n → n ≤ data.length)
    (hcell : ∀ s, l.send = some s → CellOf s.status id l.hist)
    (hu : Unpublished id l'.hist) (hP : Always (NoLate id) l'.hist)
    (hset : ∀ t res, .resolve t res ∈ l.hist → ∃ i, Submitted t i l.hist) : Flowing id l' := by
  have hPl := hP.suffix hm.suffix
  cases hm with
  | beside tr hg =>
    refine h.quiet (hg.mono fun e he => ?_) (submittedOps_beside hg) (fun t ht hx => ?_) rfl rfl
      h.entry
    · cases e <;> first | exact not_false | exact he
    · exact hg.old hx fun hn => hn ⟨_, ht, rfl, rfl⟩
  | front v cs tr hv hf =>
    subst hv
    exact h.front hf hP hset
  | skip cmd rest hc hop =>
    refine h.quiet (.refl _ _) rfl (fun _ _ hx => hx) ?_ rfl h.entry
    unfold ops
    rw [hc, opsAmong_cons_none hop]
    rfl
  | queue cmd rest op s hc hop hs ht =>
    refine h.quiet (.refl _ _) rfl (fun _ _ hx => hx) ?_ ?_ fun x hx => ?_
    · rw [ops_some hs, ops_some rfl, hc, opsAmong_cons_some hop, List.append_assoc]
      rfl
    · rw [held_some hs, held_some rfl]
    · cases hx
      exact ⟨⟨ht, (h.entry s hs).1.pendingReset⟩, (h.entry s hs).2⟩
  | refuse cmd rest op s e hc hop hs ht =>
    have hopen := (h.entry s hs).1
    rw [hopen.terminal] at ht
    cases ht
  | make c hs hn =>
    exact h.made hs (.one not_false) (submittedOps_unasked (.one nofun))
      (fun t _ hx => by simpa using hx) rfl rfl
  | opened c hs hn =>
    exact h.made hs (.cons not_false (.one not_false))
      (submittedOps_unasked (.cons nofun (.one nofun)))
      (fun t _ hx => by simpa using hx) rfl rfl
  | retained c e hn =>
    refine absurd ⟨e, List.mem_cons_self⟩ (hu c (.inl ?_))
    exact List.mem_cons_of_mem _ List.mem_cons_self
  | lapse c hs hf =>
    refine h.quiet (.one not_false) (submittedOps_unasked (.one nofun))
      (fun t _ hx => by simpa using hx) ?_ ?_ nofun
    · rw [ops_some hs]
      rfl
    · rw [held_some hs]
      rfl
  | reclaim s hs hf =>
    -- the FIN was taken, so nothing is queued or held
    obtain ⟨-, hops, hheld⟩ := h.done ((h.entry s hs).2 hf)
    have hnil := hops
    rw [ops_some hs, List.append_eq_nil_iff] at hnil
    rw [hnil.1]
    refine h.quiet (.one not_false) (submittedOps_unasked (.one nofun))
      (fun t _ hx => by simpa [cancelled] using hx) (Eq.trans ?_ hops.symm) hheld.symm nofun
    exact hnil.2
  | ended s e reset fin tr hs ho hc =>
    have hgrow : tr <:+ resolved s.sendOps (.error e) tr := Life.suffix_resolved _ _ _
    refine absurd ?_ (hu s.status ((hcell s hs).mono (hc.suffix.trans hgrow).subset))
    cases hc with
    | old hp => exact hp.mono hgrow.subset
    | new hp => exact ⟨e, hgrow.subset List.mem_cons_self⟩
  | served s code hs hp =>
    have hopen := (h.entry s hs).1
    rw [hopen.pendingReset] at hp
    cases hp
  | sendErr s data fin err hs ho hw =>
    have hnot := h.not_finAccepted_of hs hw
    exact h.keep (.one trivial) ⟨⟨fun _ => hnot, nofun⟩, h.ok⟩
      (submittedOps_unasked (.one nofun)) (fun t _ hx => by simpa using hx) rfl
      (fun _ hx => hx) (fun h1 h2 => ⟨h1, h2⟩) h.held h.entry
  | flush s buf fin n hs ho hh hr hn hm =>
    refine h.offer [] hs rfl rfl ⟨ho.terminal, ho.pendingReset⟩ rfl (.inr (by rw [hh]; rfl))
      (takesFin_flush hm) rfl nofun ?_ (fun _ hx => hx) fun b hb => ?_
    · have hleft : (if (buf.advance n).hasRemaining then some (buf.advance n) else none).elim []
          WriteBuf.bytes = (buf.advance n).bytes := by
        split
        · rfl
        · rename_i hx
          exact (advance_empty (by simpa using hx)).symm
      unfold StreamSendState.bytes
      rw [hh, hleft, ← List.append_assoc, offered_take (hok _ _ hn)]
      rfl
    · dsimp only at hb
      split at hb
      · cases hb
        assumption
      · cases hb
  | flushFin s buf n t rest hs ho hh hr hop hn hm =>
    refine h.finish hord hPl hs ho hop (takesFin_flushFin (hok _ _ hn) hm) ?_
    rw [held_some hs, hh]
    have htake := offered_take (hok _ _ hn)
    rw [advance_empty hm, List.append_nil] at htake
    exact htake.symm
  | emptyHeld _ buf hs hh hr | emptyFin _ buf _ _ hs _ hh hr =>
    have hx := h.held buf (by rw [held_some hs, hh])
    rw [hr] at hx
    cases hx
  | loneFin s n t rest hs ho hh hop hn =>
    have hzero : n = 0 := Nat.le_zero.mp (hok _ _ hn)
    have hF : (Event.streamSend id [] true (.ok n)).takesFin id = true := by
      simp [Event.takesFin, hzero]
    have hfl := h.finish hord hPl hs ho hop hF (by rw [held_some hs, hh]; simp)
    rwa [← hh] at hfl
  | hold s buf t p rest hs ho hh hop hr =>
    refine h.completed hord hs hop ⟨ho.terminal, ho.pendingReset⟩ rfl rfl ?_ fun b hb => ?_
    · simp [StreamSendState.bytes, hh, hop, SendOp.bytes]
    · cases hb
      exact decide_eq_true hr
  | offer s buf t p rest n hs ho hh hop hn hm =>
    refine h.offer [] hs rfl rfl ⟨ho.terminal, ho.pendingReset⟩ rfl
      (.inl (by rw [hop]; simp)) (by simp [Event.takesFin]) rfl nofun ?_ (fun t' hx => ?_)
      fun b hb => ?_
    · simp only [StreamSendState.bytes, hh, hop, List.flatMap_cons, SendOp.bytes, Option.elim_none,
        List.nil_append]
      rw [← List.append_assoc, offered_take (hok _ _ hn)]
    · rw [hop] at hx
      simpa using hx
    · cases hh.symm.trans hb
  | accept s buf t p rest n hs ho hh hop hr hn hm =>
    have hmem : .write buf t p ∈ l.ops := by
      rw [ops_some hs, hop]
      exact List.mem_cons_self
    refine h.offer [.resolve t (.ok ())] hs rfl rfl ⟨ho.terminal, ho.pendingReset⟩ rfl
      (.inl (by rw [hop]; simp)) (by simp [Event.takesFin]) rfl (fun e he => ?_) ?_
      (fun t' hx => ?_) fun b hb => ?_
    · cases List.mem_singleton.mp he
      exact ⟨t, rfl, hord.write_ne_finish hmem⟩
    · have htake := offered_take (hok _ _ hn)
      rw [advance_empty hm, List.append_nil] at htake
      simp only [StreamSendState.bytes, hh, hop, List.flatMap_cons, SendOp.bytes, Option.elim_none,
        List.nil_append, htake]
    · rw [hop] at hx
      simpa using hx
    · cases hh.symm.trans hb
  | skipWrite s buf t p rest hs ho hh hop hr =>
    refine h.completed hord hs hop ⟨ho.terminal, ho.pendingReset⟩ rfl rfl ?_ fun b hb => ?_
    · have hnil : buf.bytes = [] := by
        by_contra hx
        rw [buf.hasRemaining_iff.mpr hx] at hr
        cases hr
      simp [StreamSendState.bytes, hh, hop, SendOp.bytes, hnil]
    · cases hh.symm.trans hb

end Flowing

/-- What is kept of the line of a stream: the order, where its entry writes, and the flow until a
terminal is published. -/
structure Intact (id : Nat) (l : Line) : Prop where
  order : InOrder id l
  cell : ∀ s, l.send = some s → CellOf s.status id l.hist
  flowing : Unpublished id l.hist → Flowing id l

theorem Intact.move (h : Intact id l) (hm : Move id ok l l')
    (hok : ∀ data n, ok data n → n ≤ data.length) (hP : Always (NoLate id) l'.hist)
    (hset : Always (fun e pre => ∀ t, e.deal = some (.settled t) → ∃ i, Submitted t i pre)
      l'.hist) : Intact id l' := by
  refine ⟨h.order.move hm, fun s' hs' => ?_, fun hu => ?_⟩
  · rcases hm.status s' hs' with ⟨s, hs, hst⟩ | hnew
    · exact hst ▸ (h.cell s hs).mono hm.suffix.subset
    · exact .inr hnew
  · refine (h.flowing (hu.anti hm.suffix)).move h.order hm hok h.cell hu hP fun t res hr => ?_
    obtain ⟨post, pre, hsplit⟩ := List.append_of_mem hr
    obtain ⟨i, hi⟩ := always_iff.mp (hset.suffix hm.suffix) post _ pre hsplit t rfl
    refine ⟨i, hi.mono ?_⟩
    rw [hsplit]
    exact fun e he => List.mem_append_right _ (List.mem_cons_of_mem _ he)

theorem Intact.init (id : Nat) : Intact id Life.fresh.line where
  order := .init id
  cell := nofun
  flowing _ := by
    refine ⟨rfl, nofun, nofun, fun ⟨e, he, _⟩ => ?_, nofun, nofun, trivial⟩
    cases he

end Line

/-! ## 3. Every run -/

/-- The send side of stream `id` in a history: the claim of the module. -/
structure SendIntegrity (id : Nat) (tr : List Event) : Prop where
  /-- The transport has a first part of what was written. -/
  taken : accepted id tr <+: written id tr
  /-- Nothing is offered after a FIN; a FIN comes when everything written before it was taken. -/
  ok : Always (SendOk id) tr
  once : tr.countP (Event.takesFin id) ≤ 1
  /-- A `Finish` completes with `Ok` exactly when the FIN was taken. -/
  told : ∀ t, .submit (.finish id t) ∈ tr → (.resolve t (.ok ()) ∈ tr ↔ FinAccepted id tr)

theorem takesFin_offersOn {id : Nat} {e : Event} (h : e.takesFin id = true) : e.offersOn id := by
  unfold Event.takesFin at h
  split at h
  · simp only [Bool.and_eq_true, beq_iff_eq] at h
    exact h.1.1
  · cases h

/-- Nothing follows a FIN, so there is one. -/
theorem countP_takesFin_le_one {id : Nat} : ∀ {tr : List Event}, Always (SendOk id) tr →
    tr.countP (Event.takesFin id) ≤ 1
  | [], _ => Nat.zero_le 1
  | e :: tr, h => by
    rw [List.countP_cons]
    by_cases he : e.takesFin id = true
    · have hzero : tr.countP (Event.takesFin id) = 0 :=
        List.countP_eq_zero.mpr fun e' hm hx => h.1.open_ (takesFin_offersOn he) ⟨e', hm, hx⟩
      simp [he, hzero]
    · simpa [he] using countP_takesFin_le_one h.2

theorem Line.Flowing.integrity {id : Nat} {l : Line} (h : l.Flowing id) :
    SendIntegrity id l.hist where
  taken := ⟨l.bytes, h.flow.symm⟩
  ok := h.ok
  once := countP_takesFin_le_one h.ok
  told := h.told

namespace World

variable {σ : Type}

/-- **Send integrity.**  Over every transport that takes no more than it is offered and opens only
ids that QUIC has, for every stream for which nothing is submitted after its `Finish`, and in every
state of every run in which the stream's terminal is not published: what the transport has taken
is a first part of what was written; nothing is offered after a FIN, which is taken at most once and
with everything written before it; and the `Finish` completes with `Ok` exactly when the FIN was
taken.  This holds as long as no scan reports the stream as an unknown one that it is not. -/
theorem send_integrity (T : QuicConn σ) (isServer : Bool) (bidiCap uniCap depth : Nat)
    (cap : Option Nat) (c : σ) (script : List (List FrontAct)) {w : World σ} {id : Nat}
    (hT : ∀ data n, T.Accepts id data n → n ≤ data.length)
    (hw : Steps T (withBuffers isServer bidiCap uniCap depth cap c script) w)
    (hwrap : NoWrap w.trace) (hlate : Always (NoLate id) w.trace)
    (hcell : ∀ c, CellOf c id w.trace → (w.sh.sendHalves c).status = none)
    (hfresh : Always (FreshFor isServer id) w.trace) : SendIntegrity id w.trace := by
  have hsound := sound_steps hw (sound_withBuffers isServer bidiCap uniCap depth cap c script)
  have honce : Always OpenOnce w.trace := hsound.counters.once hwrap
  have hset := settled_submitted (w := w) (steps_books hw 0)
  have hboth : Always (fun e pre =>
      (FreshFor isServer id e pre ∧ NoLate id e pre ∧ OpenOnce e pre) ∧
      ∀ t, e.deal = some (.settled t) → ∃ i, Submitted t i pre) w.trace :=
    always_iff.mpr fun post e pre h => ⟨⟨always_iff.mp hfresh post e pre h,
      always_iff.mp hlate post e pre h, always_iff.mp honce post e pre h⟩,
      always_iff.mp hset post e pre h⟩
  have hI : id = id → Slot isServer id (w.life id) ∧ Born id (w.life id) ∧
      Line.Intact id (w.life id).line := by
    refine life_run (I := fun i v => i = id → Slot isServer i v ∧ Born i v ∧ Line.Intact i v.line)
      isServer bidiCap uniCap depth cap c script (fun i _ => ⟨.init, .init i, .init i⟩)
      (fun i v v' hm hP hv hi => ?_) hw hboth id
    subst hi
    obtain ⟨hslot, hborn, hline⟩ := hv rfl
    have hF : Always (FreshFor isServer i) v'.hist := hP.mono fun _ _ h => h.1.1
    have hmoves := hslot.line hborn (hF.suffix hm.suffix) hm (hP.mono fun _ _ h => h.1.2.2)
    refine ⟨hslot.move hm hF, hborn.move hslot hm, ?_⟩
    refine Line.Moves.induct (fun l l' hl hPl hx => ?_) hmoves hP hline
    exact hx.move hl hT (hPl.mono fun _ _ h => h.1.2.1) (hPl.mono fun _ _ h => h.2)
  refine ((hI rfl).2.2.flowing fun c hc => ?_).integrity
  rintro ⟨e, he⟩
  have hst := (hsound.origin.face.cell c e).mpr he
  rw [hcell c hc] at hst
  cases hst

theorem mockConn_accepts {id n : Nat} {data : Bytes} (h : mockConn.Accepts id data n) :
    n ≤ data.length := by
  obtain ⟨c, fin, hx⟩ := h
  change (c.pushSend id data).1 = .ok n at hx
  unfold MockConn.pushSend at hx
  split at hx
  · cases hx
  · cases hx
    exact Nat.min_le_right _ _

/-- A client writes in two segments while the transport takes one byte at a time, and finishes. -/
def twoSegments : World MockConn :=
  (withBuffers false 4 4 8 none { streamsLeftBidi := 4, sendCapacity := fun _ => some 1 } []).run
    mockConn [.front .openBidi, .processWrites, .front (.takeReply 0),
      .front (.sendData 0 ⟨[[1, 2], [3]], by decide⟩), .front (.sendFinish 0), .processWrites,
      .transport { writableNext := [0], sendCapacity := fun _ => some 1 }, .processWrites,
      .transport { writableNext := [0] }, .processWrites]

theorem twoSegments_intact : SendIntegrity 0 twoSegments.trace ∧
    accepted 0 twoSegments.trace = [1, 2, 3] ∧ FinAccepted 0 twoSegments.trace := by
  have hw : Steps mockConn (withBuffers false 4 4 8 none
    { streamsLeftBidi := 4, sendCapacity := fun _ => some 1 } []) twoSegments := run_steps _ _
  have hcell : ∀ c, CellOf c 0 twoSegments.trace → (twoSegments.sh.sendHalves c).status = none := by
    intro c hc
    have hlt := ((sound_steps hw (sound_withBuffers ..)).origin.face.sendMade 0 c hc).1
    rw [show twoSegments.sh.nextSend = 1 by decide +kernel, Nat.lt_one_iff] at hlt
    subst hlt
    decide +kernel
  refine ⟨?_, by decide +kernel, by decide +kernel⟩
  exact send_integrity mockConn false 4 4 8 none _ [] (fun _ _ => mockConn_accepts) hw
    (by decide +kernel) (by decide +kernel) hcell (by decide +kernel)

/-- A client holds a write back when the peer ends its direction.  The transport reports the stream
once more, the halves of a peer stream are built for it, and the client writes again. -/
def heldReplaced : World MockConn :=
  (withBuffers false 4 4 8 none { streamsLeftBidi := 4, sendCapacity := fun _ => some 0 } []).run
    mockConn [.front .openBidi, .processWrites, .front (.takeReply 0),
      .front (.sendData 0 ⟨[[1, 2]], by decide⟩), .processWrites,
      .transport
        { readableNext := [0]
          recvScript := fun _ => [.ok ([], true)]
          sendCapacity := fun _ => some 0 },
      .processReads, .processWrites,
      .transport { readableNext := [0] }, .processReads, .processWrites,
      .front (.sendData 0 ⟨[[3]], by decide⟩), .processWrites, .waitForData, .processWrites]

/-- Both writes completed with `Ok`, no terminal is published, and the transport was given the
second one only. -/
theorem heldReplaced_skips :
    written 0 heldReplaced.trace = [1, 2, 3] ∧ accepted 0 heldReplaced.trace = [3] ∧
    (heldReplaced.sh.sendHalves 0).status = none ∧ (heldReplaced.sh.sendHalves 1).status = none ∧
    heldReplaced.sh.nextSend = 2 ∧ .resolve 0 (.ok ()) ∈ heldReplaced.trace ∧
    .resolve 1 (.ok ()) ∈ heldReplaced.trace := by
  refine ⟨?_, ?_, ?_, ?_, ?_, ?_, ?_⟩ <;> decide +kernel

end World

end QuicheH3
