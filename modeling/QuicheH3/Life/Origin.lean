/-
# Where halves, commands and completions come from

Everything the driver and the front end refer to was made by the driver: a half a front-end
object refers to was built for its stream, a command on its way is about a stream that has
halves, a completion belongs to the stream it was submitted for.  None of this depends on how
the transport behaves.

`Quiet` is the frame of this module: a piece of worker code that neither makes a half nor
touches a reference, a command or a reply.
-/
import QuicheH3.Driver.Sides

namespace QuicheH3

open Lib

/-! ## 1. Queries -/

/-- The stream has, or had, a half. -/
def Known (id : Nat) (tr : List Event) : Prop :=
  (∃ h, .recvOpen id h ∈ tr) ∨ (∃ c, .handle id c ∈ tr) ∨ ∃ c, .sendOpen id c ∈ tr

/-- The completion `t` was submitted with a command of stream `id`. -/
def Submitted (t id : Nat) (tr : List Event) : Prop :=
  ∃ cmd, .submit cmd ∈ tr ∧ cmd.tok = some t ∧ cmd.streamId = some id

/-- `c` is a status cell of stream `id`. -/
def CellOf (c id : Nat) (tr : List Event) : Prop := .handle id c ∈ tr ∨ .sendOpen id c ∈ tr

/-- The status cell `c` has been written. -/
def Published (c : Nat) (tr : List Event) : Prop := ∃ e, .sendSet c e ∈ tr

theorem Known.mono {id : Nat} {tr tr' : List Event} (h : Known id tr) (hs : tr ⊆ tr') :
    Known id tr' := by
  rcases h with ⟨x, hx⟩ | ⟨x, hx⟩ | ⟨x, hx⟩
  · exact .inl ⟨x, hs hx⟩
  · exact .inr (.inl ⟨x, hs hx⟩)
  · exact .inr (.inr ⟨x, hs hx⟩)

theorem Submitted.mono {t id : Nat} {tr tr' : List Event} (h : Submitted t id tr)
    (hs : tr ⊆ tr') : Submitted t id tr' := by
  obtain ⟨cmd, hm, ht, hid⟩ := h
  exact ⟨cmd, hs hm, ht, hid⟩

theorem CellOf.mono {c id : Nat} {tr tr' : List Event} (h : CellOf c id tr) (hs : tr ⊆ tr') :
    CellOf c id tr' := h.imp (hs ·) (hs ·)

theorem Published.mono {c : Nat} {tr tr' : List Event} (h : Published c tr) (hs : tr ⊆ tr') :
    Published c tr' := by
  obtain ⟨e, he⟩ := h
  exact ⟨e, hs he⟩

/-- The completion of an operation. -/
def SendOp.tok : SendOp → Nat
  | .write _ t _ => t
  | .finish t => t

/-! ## 2. Origin on the face -/

/-- What the front end refers to was made for it. -/
structure FaceOrigin (f : Face) : Prop where
  recvRef : ∀ h, f.recvRef h → .recvOpen (f.sh.recvHalves h).id h ∈ f.trace
  sendRef : ∀ c, f.sendRef c → .handle (f.sh.sendHalves c).id c ∈ f.trace
  recvMade : ∀ id h, .recvOpen id h ∈ f.trace → h < f.sh.nextRecv ∧ (f.sh.recvHalves h).id = id
  sendMade : ∀ id c, CellOf c id f.trace → c < f.sh.nextSend ∧ (f.sh.sendHalves c).id = id
  cell : ∀ c e, (f.sh.sendHalves c).status = some e ↔ .sendSet c e ∈ f.trace
  cellFree : ∀ c, f.sh.nextSend ≤ c → (f.sh.sendHalves c).status = none
  gone : ∀ id h, .recvOpen id h ∈ f.trace → ¬ (f.sh.recvHalves h).Live → .recvDropped h ∈ f.trace
  final : f.Final
  tokLt : ∀ t id, Submitted t id f.trace → t < f.sh.nextTok
  tokInj : ∀ t id id', Submitted t id f.trace → Submitted t id' f.trace → id = id'

/-- Events that make, submit and publish nothing. -/
def Event.quiet : Event → Prop
  | .recvOpen _ _ | .handle _ _ | .sendOpen _ _ | .submit _ | .applied _ | .sendSet _ _ => False
  | _ => True

/-- Nothing is made, referred to, sent or published. -/
structure Quiet (f f' : Face) : Prop where
  recv : ∀ h, (f'.sh.recvHalves h).id = (f.sh.recvHalves h).id ∧
    (f'.sh.recvHalves h).holder = (f.sh.recvHalves h).holder ∧
    (f'.sh.recvHalves h).pc = (f.sh.recvHalves h).pc
  send : f'.sh.sendHalves = f.sh.sendHalves
  nextRecv : f'.sh.nextRecv = f.sh.nextRecv
  nextSend : f'.sh.nextSend = f.sh.nextSend
  nextTok : f'.sh.nextTok = f.sh.nextTok
  acceptBidi : f'.sh.acceptBidi = f.sh.acceptBidi
  acceptUni : f'.sh.acceptUni = f.sh.acceptUni
  replies : ∀ r, f'.sh.replies r = f.sh.replies r ∨ ∃ t, f'.sh.replies r = .failed t
  grows : Grows Event.quiet f.trace f'.trace

namespace Quiet

variable {f f' f'' : Face}

theorem refl (f : Face) : Quiet f f :=
  ⟨fun _ => ⟨rfl, rfl, rfl⟩, rfl, rfl, rfl, rfl, rfl, rfl, fun _ => .inl rfl, .refl _ _⟩

theorem trans (h : Quiet f f') (h' : Quiet f' f'') : Quiet f f'' where
  recv i := ⟨(h'.recv i).1.trans (h.recv i).1, (h'.recv i).2.1.trans (h.recv i).2.1,
    (h'.recv i).2.2.trans (h.recv i).2.2⟩
  send := h'.send.trans h.send
  nextRecv := h'.nextRecv.trans h.nextRecv
  nextSend := h'.nextSend.trans h.nextSend
  nextTok := h'.nextTok.trans h.nextTok
  acceptBidi := h'.acceptBidi.trans h.acceptBidi
  acceptUni := h'.acceptUni.trans h.acceptUni
  replies r := by
    rcases h'.replies r with hr | hr
    · rw [hr]
      exact h.replies r
    · exact .inr hr
  grows := h.grows.trans h'.grows

theorem recvRef (h : Quiet f f') {i : Nat} (hr : f'.recvRef i) : f.recvRef i := by
  rcases hr with hr | hr | hr | hr | ⟨r, c, hr⟩
  · exact .inl (by rwa [(h.recv i).2.1] at hr)
  · exact .inr (.inl (by rwa [(h.recv i).2.2] at hr))
  · exact .inr (.inr (.inl (by rwa [h.acceptBidi] at hr)))
  · exact .inr (.inr (.inr (.inl (by rwa [h.acceptUni] at hr))))
  · rcases h.replies r with he | ⟨t, he⟩
    · exact .inr (.inr (.inr (.inr ⟨r, c, he.symm.trans hr⟩)))
    · rw [he] at hr
      cases hr

theorem sendRef (h : Quiet f f') {c : Nat} (hr : f'.sendRef c) : f.sendRef c := by
  rcases hr with hr | hr | ⟨r, i, hr⟩ | ⟨r, hr⟩
  · exact .inl (by rwa [h.send] at hr)
  · exact .inr (.inl (by rwa [h.acceptBidi] at hr))
  · rcases h.replies r with he | ⟨t, he⟩
    · exact .inr (.inr (.inl ⟨r, i, he.symm.trans hr⟩))
    · rw [he] at hr
      cases hr
  · rcases h.replies r with he | ⟨t, he⟩
    · exact .inr (.inr (.inr ⟨r, he.symm.trans hr⟩))
    · rw [he] at hr
      cases hr

end Quiet

namespace FaceOrigin

variable {f f' : Face}

/-- What a later history says of halves and completions, when it makes and submits nothing. -/
theorem quiet (h : FaceOrigin f) (hq : Quiet f f') : FaceOrigin f' where
  recvRef i hi := by
    rw [(hq.recv i).1]
    exact hq.grows.mem (h.recvRef i (hq.recvRef hi))
  sendRef c hc := by
    rw [hq.send]
    exact hq.grows.mem (h.sendRef c (hq.sendRef hc))
  recvMade id i hi := by
    rw [hq.nextRecv, (hq.recv i).1]
    exact h.recvMade id i (hq.grows.old hi fun h => h)
  sendMade id c hc := by
    rw [hq.nextSend, hq.send]
    exact h.sendMade id c (hc.imp (hq.grows.old · fun h => h) (hq.grows.old · fun h => h))
  cell c e := by
    rw [hq.send, h.cell c e]
    exact ⟨hq.grows.mem, fun hm => hq.grows.old hm fun h => h⟩
  cellFree c hc := by
    rw [hq.send]
    exact h.cellFree c (hq.nextSend ▸ hc)
  gone id i hi hl := by
    refine hq.grows.mem (h.gone id i (hq.grows.old hi fun h => h) fun hl' => hl ?_)
    unfold RecvHalf.Live at hl' ⊢
    rwa [(hq.recv i).2.1]
  final c := by
    rw [hq.send]
    exact h.final c
  tokLt t id := by
    rintro ⟨cmd, hm, ht, hid⟩
    rw [hq.nextTok]
    exact h.tokLt t id ⟨cmd, hq.grows.old hm fun h => h, ht, hid⟩
  tokInj t id id' := by
    rintro ⟨cmd, hm, ht, hid⟩ ⟨cmd', hm', ht', hid'⟩
    exact h.tokInj t id id' ⟨cmd, hq.grows.old hm fun h => h, ht, hid⟩
      ⟨cmd', hq.grows.old hm' fun h => h, ht', hid'⟩

end FaceOrigin

/-- A submission is recorded in `submitted`. -/
theorem mem_submitted {cmd : DriverCommand} {tr : List Event} :
    cmd ∈ submitted tr ↔ .submit cmd ∈ tr := by
  unfold submitted
  rw [List.mem_filterMap]
  constructor
  · rintro ⟨e, he, hc⟩
    cases e <;> simp at hc
    exact hc ▸ he
  · intro h
    exact ⟨_, h, rfl⟩

/-- The commands of one batch have different completions. -/
theorem eq_of_tok {cs : List DriverCommand} (hn : (cs.filterMap DriverCommand.tok).Nodup)
    {a b : DriverCommand} (ha : a ∈ cs) (hb : b ∈ cs) {t : Nat} (hta : a.tok = some t)
    (htb : b.tok = some t) : a = b := by
  by_contra hab
  have hp := List.pairwise_filterMap.mp hn
  have : Std.Symm fun a b : DriverCommand =>
      ∀ x, a.tok = some x → ∀ y, b.tok = some y → x ≠ y :=
    ⟨fun a b h x hx y hy hxy => h y hy x hx hxy.symm⟩
  exact hp.forall ha hb hab t hta t htb rfl

namespace FaceOrigin

variable {f f' : Face}

/-- The front end creates nothing it could refer to. -/
theorem front (h : FaceOrigin f) (hr : FrontRel f f') : FaceOrigin f' := by
  obtain ⟨cs, hcs⟩ := hr.appends
  -- a submission is an old one or one of the batch
  have hsub : ∀ cmd, .submit cmd ∈ f'.trace ↔ cmd ∈ cs ∨ .submit cmd ∈ f.trace := by
    intro cmd
    rw [← mem_submitted, ← mem_submitted, hcs.record, List.mem_append, List.mem_reverse]
  have htok : ∀ {cmd t}, cmd ∈ cs → cmd.tok = some t → f.sh.nextTok ≤ t ∧ t < f'.sh.nextTok :=
    fun hm ht => hcs.tok_lt _ (List.mem_filterMap.mpr ⟨_, hm, ht⟩)
  exact
    { recvRef := fun i hi => by
        rw [hr.id_recv]
        exact hr.grows.mem (h.recvRef i (hr.recvRef i hi))
      sendRef := fun c hc => by
        rw [hr.id_send]
        exact hr.grows.mem (h.sendRef c (hr.sendRef c hc))
      recvMade := fun id i hi => by
        rw [hr.nextRecv, hr.id_recv]
        exact h.recvMade id i (hr.grows.old hi fun h => h)
      sendMade := fun id c hc => by
        rw [hr.nextSend, hr.id_send]
        exact h.sendMade id c (hc.imp (hr.grows.old · fun h => h) (hr.grows.old · fun h => h))
      cell := fun c e => by
        rw [hr.status, h.cell c e]
        exact ⟨hr.grows.mem, fun hm => hr.grows.old hm fun h => h⟩
      cellFree := fun c hc => by
        rw [hr.status]
        exact h.cellFree c (hr.nextSend ▸ hc)
      gone := fun id i hi hl => by
        rcases hr.gone i hl with hl | hd
        · exact hr.grows.mem (h.gone id i (hr.grows.old hi fun h => h) hl)
        · exact hd
      final := hr.final h.final
      tokLt := by
        rintro t id ⟨cmd, hm, ht, hid⟩
        rcases (hsub cmd).mp hm with hm | hm
        · exact (htok hm ht).2
        · exact (h.tokLt t id ⟨cmd, hm, ht, hid⟩).trans_le hr.nextTok
      tokInj := by
        rintro t id id' ⟨cmd, hm, ht, hid⟩ ⟨cmd', hm', ht', hid'⟩
        rcases (hsub cmd).mp hm with hm | hm <;> rcases (hsub cmd').mp hm' with hm' | hm'
        · have he := eq_of_tok hcs.toks hm hm' ht ht'
          rw [he, hid'] at hid
          exact (Option.some.inj hid).symm
        · exact absurd (h.tokLt t id' ⟨cmd', hm', ht', hid'⟩) (not_lt.mpr (htok hm ht).1)
        · exact absurd (h.tokLt t id ⟨cmd, hm, ht, hid⟩) (not_lt.mpr (htok hm' ht').1)
        · exact h.tokInj t id id' ⟨cmd, hm, ht, hid⟩ ⟨cmd', hm', ht', hid'⟩ }

/-- A new receive half that nobody refers to yet. -/
theorem allocRecv (h : FaceOrigin f) (x : RecvHalf) (n : Nat) (hx : x.holder = .handoff)
    (hp : x.pc = .idle) :
    FaceOrigin { f with
      sh.nextRecv := f.sh.nextRecv + 1
      sh.senders := n
      sh.recvHalves := Function.update f.sh.recvHalves f.sh.nextRecv x } := by
  -- the index is new, so no reference and no event is about it
  have hne : ∀ id i, .recvOpen id i ∈ f.trace → i ≠ f.sh.nextRecv := fun id i hi =>
    (h.recvMade id i hi).1.ne
  have hold : ∀ i, i ≠ f.sh.nextRecv →
      Function.update f.sh.recvHalves f.sh.nextRecv x i = f.sh.recvHalves i :=
    fun i hi => Function.update_of_ne hi _ _
  refine
    { recvRef := fun i hi => ?_, sendRef := h.sendRef
      recvMade := fun id i hi => ?_, sendMade := h.sendMade, cell := h.cell
      cellFree := h.cellFree, gone := fun id i hi hl => ?_, final := h.final, tokLt := h.tokLt
      tokInj := h.tokInj }
  · have hr : f.recvRef i := by
      by_cases he : i = f.sh.nextRecv
      · subst he
        rcases hi with hi | hi | hi | hi | hi
        · simp [hx, Holder.Held] at hi
        · simp [hp] at hi
        · exact .inr (.inr (.inl hi))
        · exact .inr (.inr (.inr (.inl hi)))
        · exact .inr (.inr (.inr (.inr hi)))
      · simpa only [Face.recvRef, hold i he] using hi
    have hm := h.recvRef i hr
    change .recvOpen (Function.update f.sh.recvHalves f.sh.nextRecv x i).id i ∈ f.trace
    rw [hold i (hne _ i hm)]
    exact hm
  · change i < f.sh.nextRecv + 1 ∧ (Function.update f.sh.recvHalves f.sh.nextRecv x i).id = id
    rw [hold i (hne id i hi)]
    exact ⟨Nat.lt_succ_of_lt (h.recvMade id i hi).1, (h.recvMade id i hi).2⟩
  · refine h.gone id i hi fun hl' => hl ?_
    change (Function.update f.sh.recvHalves f.sh.nextRecv x i).Live
    rwa [hold i (hne id i hi)]

/-- A new send half that nobody refers to yet. -/
theorem allocSend (h : FaceOrigin f) (x : SendHalf) (n : Nat) (hx : ¬ x.holder.Held)
    (hs : x.status = none) (hl : x.localTerminal = none) :
    FaceOrigin { f with
      sh.nextSend := f.sh.nextSend + 1
      sh.senders := n
      sh.sendHalves := Function.update f.sh.sendHalves f.sh.nextSend x } := by
  have hold : ∀ c, c ≠ f.sh.nextSend →
      Function.update f.sh.sendHalves f.sh.nextSend x c = f.sh.sendHalves c :=
    fun c hc => Function.update_of_ne hc _ _
  have hstatus : ∀ c, (Function.update f.sh.sendHalves f.sh.nextSend x c).status =
      (f.sh.sendHalves c).status := by
    intro c
    by_cases hc : c = f.sh.nextSend
    · subst hc
      rw [Function.update_self, hs, h.cellFree _ le_rfl]
    · rw [hold c hc]
  refine
    { recvRef := h.recvRef, sendRef := fun c hc => ?_, recvMade := h.recvMade
      sendMade := fun id c hc => ?_, cell := fun c e => ?_, cellFree := fun c hc => ?_
      gone := h.gone, final := fun c => ?_, tokLt := h.tokLt, tokInj := h.tokInj }
  · have hr : f.sendRef c := by
      by_cases he : c = f.sh.nextSend
      · subst he
        rcases hc with hc | hc
        · simp [hx] at hc
        · exact .inr hc
      · simpa only [Face.sendRef, hold c he] using hc
    have hm := h.sendRef c hr
    change .handle (Function.update f.sh.sendHalves f.sh.nextSend x c).id c ∈ f.trace
    rw [hold c (h.sendMade _ c (.inl hm)).1.ne]
    exact hm
  · have hm := h.sendMade id c hc
    change c < f.sh.nextSend + 1 ∧ (Function.update f.sh.sendHalves f.sh.nextSend x c).id = id
    rw [hold c hm.1.ne]
    exact ⟨Nat.lt_succ_of_lt hm.1, hm.2⟩
  · exact (iff_of_eq (congrArg (· = some e) (hstatus c))).trans (h.cell c e)
  · exact (hstatus c).trans (h.cellFree c (Nat.le_of_succ_le hc))
  · change (Function.update f.sh.sendHalves f.sh.nextSend x c).Final
    by_cases hc : c = f.sh.nextSend
    · subst hc
      rw [Function.update_self]
      exact fun hx => by simp [hl] at hx
    · rw [hold c hc]
      exact h.final c

/-- An event is recorded; what it says was made has been. -/
theorem record (h : FaceOrigin f) (e : Event)
    (hr : ∀ id i, e = .recvOpen id i →
      (i < f.sh.nextRecv ∧ (f.sh.recvHalves i).id = id) ∧ (f.sh.recvHalves i).Live)
    (hc : ∀ id c, e = .handle id c ∨ e = .sendOpen id c →
      c < f.sh.nextSend ∧ (f.sh.sendHalves c).id = id)
    (hs : ∀ c x, e ≠ .sendSet c x) (hn : ∀ cmd, e ≠ .submit cmd) : FaceOrigin (f.emit e) := by
  have hsub : ∀ {t id}, Submitted t id (e :: f.trace) → Submitted t id f.trace := by
    rintro t id ⟨cmd, hm, ht⟩
    exact ⟨cmd, List.mem_of_ne_of_mem (hn cmd).symm hm, ht⟩
  refine { h with
    recvRef := fun j hj => List.mem_cons_of_mem _ (h.recvRef j hj)
    sendRef := fun d hd => List.mem_cons_of_mem _ (h.sendRef d hd)
    recvMade := fun id j hj => ?_, sendMade := fun id c hd => ?_
    cell := fun c x => ?_, gone := fun id j hj hl => ?_
    tokLt := fun t id ht => h.tokLt t id (hsub ht)
    tokInj := fun t a b ha hb => h.tokInj t a b (hsub ha) (hsub hb) }
  · rcases List.mem_cons.mp hj with hj | hj
    · exact (hr id j hj.symm).1
    · exact h.recvMade id j hj
  · rcases hd with hd | hd <;> rcases List.mem_cons.mp hd with hd | hd
    · exact hc id c (.inl hd.symm)
    · exact h.sendMade id c (.inl hd)
    · exact hc id c (.inr hd.symm)
    · exact h.sendMade id c (.inr hd)
  · change _ ↔ .sendSet c x ∈ e :: f.trace
    rw [List.mem_cons, or_iff_right (hs c x).symm]
    exact h.cell c x
  · rcases List.mem_cons.mp hj with hj | hj
    · exact absurd (hr id j hj.symm).2 hl
    · exact List.mem_cons_of_mem _ (h.gone id j hj hl)

/-- The record of a half that was made. -/
theorem recordRecv (h : FaceOrigin f) {id i : Nat} (hi : i < f.sh.nextRecv)
    (hid : (f.sh.recvHalves i).id = id) (hl : (f.sh.recvHalves i).Live) :
    FaceOrigin (f.emit (.recvOpen id i)) :=
  h.record _ (by rintro _ _ ⟨⟩; exact ⟨⟨hi, hid⟩, hl⟩) (by simp) nofun nofun

theorem recordSend (h : FaceOrigin f) {id c : Nat} {e : Event}
    (he : e = .handle id c ∨ e = .sendOpen id c) (hc : c < f.sh.nextSend)
    (hid : (f.sh.sendHalves c).id = id) : FaceOrigin (f.emit e) := by
  rcases he with rfl | rfl <;>
  · refine h.record _ nofun (fun id' d hd => ?_) nofun nofun
    rcases hd with hd | hd <;> cases hd
    exact ⟨hc, hid⟩

theorem recordApplied (h : FaceOrigin f) (cmd : DriverCommand) :
    FaceOrigin (f.emit (.applied cmd)) := h.record _ nofun (by simp) nofun nofun

/-- One send half changes and an event is recorded with it.  The half keeps its stream and gains
no reference, and its cell tells what the history tells. -/
theorem writeSend (h : FaceOrigin f) {c : Nat} {g : SendHalf → SendHalf} {e : Event}
    (hid : ∀ s, (g s).id = s.id) (href : ∀ s, (g s).holder.Held → s.holder.Held)
    (hfin : ∀ s, s.Final → (g s).Final) (he : e.quiet ∨ ∃ x, e = .sendSet c x)
    (hcell : ∀ x, (g (f.sh.sendHalves c)).status = some x ↔ .sendSet c x ∈ e :: f.trace)
    (hfree : f.sh.nextSend ≤ c → (g (f.sh.sendHalves c)).status = none) :
    FaceOrigin ((f.modSend c g).emit e) := by
  have hg : Grows (fun e => e.quiet ∨ ∃ x, e = .sendSet c x) f.trace (e :: f.trace) := .one he
  have hsub : ∀ {t id}, Submitted t id (e :: f.trace) → Submitted t id f.trace := by
    rintro t id ⟨cmd, hm, ht⟩
    exact ⟨cmd, hg.old hm (by simp [Event.quiet]), ht⟩
  -- what is said of the new halves is said of the old ones and of the one written
  have hall {P : Nat → SendHalf → Prop} (ho : ∀ d ≠ c, P d (f.sh.sendHalves d))
      (hn : P c (g (f.sh.sendHalves c))) (d : Nat) :
      P d (((f.modSend c g).emit e).sh.sendHalves d) := by
    by_cases hd : d = c
    · subst hd
      simpa [Face.emit, Face.modSend] using hn
    · simpa [Face.emit, Face.modSend, hd] using ho d hd
  have hids := hall (P := fun d s => s.id = (f.sh.sendHalves d).id) (fun _ _ => rfl) (hid _)
  refine
    { recvRef := fun j hj => List.mem_cons_of_mem _ (h.recvRef j hj)
      sendRef := fun d hd => ?_
      recvMade := fun id j hj => h.recvMade id j (hg.old hj (by simp [Event.quiet]))
      sendMade := fun id d hd => ?_
      cell := fun d x => ?_, cellFree := fun d => ?_
      gone := fun id j hj hl => List.mem_cons_of_mem _
        (h.gone id j (hg.old hj (by simp [Event.quiet])) hl)
      final := hall (fun d _ => h.final d) (hfin _ (h.final c))
      tokLt := fun t id ht => h.tokLt t id (hsub ht)
      tokInj := fun t a b ha hb => h.tokInj t a b (hsub ha) (hsub hb) }
  · rw [hids]
    refine List.mem_cons_of_mem _ (h.sendRef d (hd.imp_left ?_))
    exact hall (P := fun d s => s.holder.Held → (f.sh.sendHalves d).holder.Held) (fun _ _ hx => hx)
      (href _) d
  · rw [hids]
    exact h.sendMade id d (hd.imp (hg.old · (by simp [Event.quiet]))
      (hg.old · (by simp [Event.quiet])))
  · refine hall (P := fun d s => s.status = some x ↔ .sendSet d x ∈ e :: f.trace) (fun d hd => ?_)
      (hcell x) d
    rw [h.cell d x]
    exact (hg.mem_iff (by simpa [Event.quiet] using hd)).symm
  · exact hall (P := fun d s => f.sh.nextSend ≤ d → s.status = none) (fun d _ => h.cellFree d) hfree
      d

/-- A status cell is written by its first writer. -/
theorem setCell (h : FaceOrigin f) {c : Nat} {e : SendEnd} (hc : c < f.sh.nextSend)
    (hn : (f.sh.sendHalves c).status = none) :
    FaceOrigin ((f.modSend c fun s => { s with status := some e }).emit (.sendSet c e)) := by
  refine h.writeSend (fun _ => rfl) (fun _ hs => hs) (fun _ hs => hs) (.inr ⟨e, rfl⟩) (fun x => ?_)
    fun hx => absurd hx hc.not_ge
  have hno : .sendSet c x ∉ f.trace := fun hm => by
    rw [(h.cell c x).mpr hm] at hn
    cases hn
  simp [hno, eq_comm]

/-- A command enters the channel. -/
theorem submit (h : FaceOrigin f) (cmd : DriverCommand) (dt : Nat)
    (htok : ∀ t, cmd.tok = some t → t = f.sh.nextTok ∧ dt = 1) :
    FaceOrigin { f.cmdSend cmd with sh.nextTok := f.sh.nextTok + dt } := by
  unfold Face.cmdSend
  split
  · exact { h with tokLt := fun t id hs => (h.tokLt t id hs).trans_le (Nat.le_add_right _ _) }
  · -- a new completion is larger than every older one
    have hcases : ∀ t id, Submitted t id (.submit cmd :: f.trace) →
        (cmd.tok = some t ∧ cmd.streamId = some id) ∨ Submitted t id f.trace := by
      rintro t id ⟨cmd', hm, ht, hid⟩
      rcases List.mem_cons.mp hm with hm | hm
      · cases hm
        exact .inl ⟨ht, hid⟩
      · exact .inr ⟨cmd', hm, ht, hid⟩
    exact
      { recvRef := fun j hj => List.mem_cons_of_mem _ (h.recvRef j hj)
        sendRef := fun d hd => List.mem_cons_of_mem _ (h.sendRef d hd)
        recvMade := fun id j hj => h.recvMade id j (by simpa using hj)
        sendMade := fun id d hd => h.sendMade id d (by simpa [CellOf] using hd)
        cell := fun d x => by simpa using h.cell d x
        cellFree := h.cellFree
        gone := fun id j hj hl => List.mem_cons_of_mem _ (h.gone id j (by simpa using hj) hl)
        final := h.final
        tokLt := fun t id hs => by
          rcases hcases t id hs with ⟨ht, -⟩ | hs
          · obtain ⟨rfl, rfl⟩ := htok t ht
            exact Nat.lt_succ_self _
          · exact (h.tokLt t id hs).trans_le (Nat.le_add_right _ _)
        tokInj := fun t a b ha hb => by
          rcases hcases t a ha with ⟨ht, hid⟩ | ha <;> rcases hcases t b hb with ⟨ht', hid'⟩ | hb
          · exact Option.some.inj (hid.symm.trans hid')
          · exact absurd (h.tokLt t b hb) (by rw [(htok t ht).1]; exact lt_irrefl _)
          · exact absurd (h.tokLt t a ha) (by rw [(htok t ht').1]; exact lt_irrefl _)
          · exact h.tokInj t a b ha hb }

/-- The object of a send half ends. -/
theorem endSend (h : FaceOrigin f) (c : Nat) :
    FaceOrigin ((f.modSend c fun s => { s with holder := .gone }).emit (.sendDropped c)) := by
  refine h.writeSend (fun _ => rfl) (fun _ hs => absurd rfl hs.1) (fun _ hs => hs) (.inl trivial)
    (fun x => ?_) (h.cellFree c)
  simpa using h.cell c x

/-- The object of a receive half ends. -/
theorem endRecv (h : FaceOrigin f) (i : Nat) :
    FaceOrigin ((f.modRecv i fun r => { r with holder := .gone, bytes := [] }).emit
      (.recvDropped i)) where
  recvRef j hj := by
    by_cases hji : j = i
    · subst hji
      have := h.recvRef j (.inr (by
        simpa [Face.recvRef, Face.emit, Face.modRecv, Holder.Held] using hj))
      simpa [Face.emit, Face.modRecv] using this
    · have := h.recvRef j (by simpa [Face.recvRef, Face.emit, Face.modRecv, hji] using hj)
      simpa [Face.emit, Face.modRecv, hji] using this
  sendRef d hd := List.mem_cons_of_mem _ (h.sendRef d hd)
  recvMade id j hj := by
    have := h.recvMade id j (by simpa [Face.emit, Face.modRecv] using hj)
    by_cases hji : j = i
    · subst hji
      simpa [Face.emit, Face.modRecv] using this
    · simpa [Face.emit, Face.modRecv, hji] using this
  sendMade id d hd := h.sendMade id d (by simpa [CellOf, Face.emit, Face.modRecv] using hd)
  cell d x := by simpa [Face.emit, Face.modRecv] using h.cell d x
  cellFree := h.cellFree
  gone id j hj hl := by
    by_cases hji : j = i
    · subst hji
      exact List.mem_cons_self
    · have hm := h.gone id j (by simpa [Face.emit, Face.modRecv] using hj)
        (by simpa [Face.emit, Face.modRecv, hji] using hl)
      exact List.mem_cons_of_mem _ hm
  final := h.final
  tokLt t id hs := h.tokLt t id (by simpa [Submitted, Face.emit, Face.modRecv] using hs)
  tokInj t a b ha hb := h.tokInj t a b (by simpa [Submitted, Face.emit, Face.modRecv] using ha)
    (by simpa [Submitted, Face.emit, Face.modRecv] using hb)

/-- Handoffs are put where the front end can take them. -/
theorem refer (h : FaceOrigin f) (s : Shared)
    (hs : s = { f.sh with
      acceptBidi := s.acceptBidi, acceptUni := s.acceptUni, replies := s.replies })
    (hr : ∀ i, Face.recvRef { f with sh := s } i → f.recvRef i ∨
      .recvOpen (f.sh.recvHalves i).id i ∈ f.trace)
    (hc : ∀ c, Face.sendRef { f with sh := s } c → f.sendRef c ∨
      .handle (f.sh.sendHalves c).id c ∈ f.trace) : FaceOrigin { f with sh := s } := by
  have hrecv : s.recvHalves = f.sh.recvHalves := by rw [hs]
  have hsend : s.sendHalves = f.sh.sendHalves := by rw [hs]
  have hnr : s.nextRecv = f.sh.nextRecv := by rw [hs]
  have hns : s.nextSend = f.sh.nextSend := by rw [hs]
  have hnt : s.nextTok = f.sh.nextTok := by rw [hs]
  refine
    { recvRef := fun i hi => ?_, sendRef := fun c hi => ?_
      recvMade := fun id i hi => ?_, sendMade := fun id c hi => ?_
      cell := fun c e => ?_, cellFree := fun c hi => ?_, gone := fun id i hi hl => ?_
      final := fun c => ?_, tokLt := fun t id ht => ?_, tokInj := h.tokInj }
  · change .recvOpen (s.recvHalves i).id i ∈ f.trace
    rw [hrecv]
    exact (hr i hi).elim (h.recvRef i) (fun h => h)
  · change .handle (s.sendHalves c).id c ∈ f.trace
    rw [hsend]
    exact (hc c hi).elim (h.sendRef c) (fun h => h)
  · change i < s.nextRecv ∧ (s.recvHalves i).id = id
    rw [hrecv, hnr]
    exact h.recvMade id i hi
  · change c < s.nextSend ∧ (s.sendHalves c).id = id
    rw [hsend, hns]
    exact h.sendMade id c hi
  · change (s.sendHalves c).status = some e ↔ _
    rw [hsend]
    exact h.cell c e
  · change (s.sendHalves c).status = none
    rw [hsend]
    exact h.cellFree c (hns ▸ hi)
  · change ¬ (s.recvHalves i).Live at hl
    rw [hrecv] at hl
    exact h.gone id i hi hl
  · change (s.sendHalves c).Final
    rw [hsend]
    exact h.final c
  · change t < s.nextTok
    rw [hnt]
    exact h.tokLt t id ht

end FaceOrigin

end QuicheH3
