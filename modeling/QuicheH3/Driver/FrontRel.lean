/-
# What the front end can do to the face

Thirty-one actions, one relation.  `FrontRel f f'` says all that the worker's proofs use of any
sequence of front-end actions leading from `f` to `f'`: cells, ids, permits and allocation
counters stay; commands are only appended, each recorded, each for a stream some live object
refers to, each completion and reply slot a new one; answers are only taken or dropped; a
refused submission carries the terminal its object saw.  `front_rel` proves it action by action
and `fronts_rel` for a whole batch.

The relation is reflexive and transitive, so the other tasks may run for any time between two
instructions of the worker and the worker's invariants need only be checked against `FrontRel`.
The hard part is ownership: a command names a stream, and it has to be shown that an object for
that stream was still there when it was sent (`refd`).

Contents
  1  commands and references
  2  the relation
  3  the primitives: a command sent, a half written to, a reply taken
  4  the actions
-/
import QuicheH3.Lib.Trace
import QuicheH3.Driver.Loop

namespace QuicheH3

open Lib

/-! ## 1. Commands and references -/

/-- The stream a command is about. -/
def DriverCommand.streamId : DriverCommand → Option Nat
  | .send id _ _ _ | .finish id _ | .reset id _ | .stopSending id _ | .recvResume id => some id
  | _ => none

/-- The completion a command carries. -/
def DriverCommand.tok : DriverCommand → Option Nat
  | .send _ _ t _ | .finish _ t => some t
  | _ => none

/-- The reply slot a command carries. -/
def DriverCommand.reply : DriverCommand → Option Nat
  | .openBidi r | .openUni r => some r
  | _ => none

/-- Events only front-end actions emit. -/
def Event.isFront : Event → Prop
  | .submit _ | .sendRefused _ _ | .openRefused _ | .recvDropped _ | .sendDropped _ => True
  | _ => False

/-- The commands a history saw entering the channel, newest first. -/
def submitted (tr : List Event) : List DriverCommand :=
  tr.filterMap fun | .submit c => some c | _ => none

/-- What a receive half keeps under front-end actions. -/
def RecvHalf.core (r : RecvHalf) : Nat × Nat × Bool × Bool × Option RecvEnd :=
  (r.id, r.depth, r.permit, r.txOpen, r.terminal)

/-- The object of the half exists and is not being dropped. -/
def RecvHalf.Live (r : RecvHalf) : Prop := r.holder = .handoff ∨ r.holder = .stream

/-- What a send half keeps under front-end actions. -/
def SendHalf.core (s : SendHalf) : Nat × Option SendEnd := (s.id, s.status)

/-- A half that has a terminal of its own (it was `reset`) takes no `Finish` any more. -/
def SendHalf.Final (s : SendHalf) : Prop := s.localTerminal.isSome → s.finalized = true

/-- The half has an object of its own: a stream, or one inside its `drop`. -/
def Holder.Held (x : Holder) : Prop := x ≠ .gone ∧ x ≠ .handoff

namespace Face

/-- Some front-end object refers to the receive half. -/
def recvRef (f : Face) (h : Nat) : Prop :=
  (f.sh.recvHalves h).holder.Held ∨ (f.sh.recvHalves h).pc ≠ .idle ∨
  (∃ c, (h, c) ∈ f.sh.acceptBidi) ∨ h ∈ f.sh.acceptUni ∨ ∃ r c, f.sh.replies r = .bidi h c

/-- Some front-end object refers to the send half. -/
def sendRef (f : Face) (c : Nat) : Prop :=
  (f.sh.sendHalves c).holder.Held ∨ (∃ h, (h, c) ∈ f.sh.acceptBidi) ∨
  (∃ r h, f.sh.replies r = .bidi h c) ∨ ∃ r, f.sh.replies r = .uni c

/-- Some front-end object refers to a half of stream `id`. -/
def refd (f : Face) (id : Nat) : Prop :=
  (∃ h, f.recvRef h ∧ (f.sh.recvHalves h).id = id) ∨
  ∃ c, f.sendRef c ∧ (f.sh.sendHalves c).id = id

def Final (f : Face) : Prop := ∀ c, (f.sh.sendHalves c).Final

end Face

/-- The answer was given. -/
def Reply.Answered (x : Reply) : Prop := x ≠ .waiting ∧ x ≠ .cancelled

/-- What the front end may do to a reply slot: cancel the wait, take or drop the answer. -/
def ReplyLe (x y : Reply) : Prop :=
  x = y ∨ (x = .waiting ∧ y = .cancelled) ∨ (x.Answered ∧ (y = .taken ∨ y = .cancelled))

theorem ReplyLe.trans {x y z : Reply} (h : ReplyLe x y) (h' : ReplyLe y z) : ReplyLe x z := by
  rcases h with rfl | ⟨rfl, rfl⟩ | ⟨hx, rfl | rfl⟩
  · exact h'
  · rcases h' with rfl | ⟨h', -⟩ | ⟨h', -⟩
    · exact .inr (.inl ⟨rfl, rfl⟩)
    · cases h'
    · exact absurd rfl h'.2
  · rcases h' with rfl | ⟨h', -⟩ | ⟨-, h'⟩
    · exact .inr (.inr ⟨hx, .inl rfl⟩)
    · cases h'
    · exact .inr (.inr ⟨hx, h'⟩)
  · rcases h' with rfl | ⟨h', -⟩ | ⟨h', -⟩
    · exact .inr (.inr ⟨hx, .inr rfl⟩)
    · cases h'
    · exact absurd rfl h'.2

/-! ## 2. The relation -/

/-- The commands `cs` appended between `f` and `f'`. -/
structure Appends (f f' : Face) (cs : List DriverCommand) : Prop where
  queue : f'.sh.cmdRx = f.sh.cmdRx ++ cs
  record : submitted f'.trace = cs.reverse ++ submitted f.trace
  ids : ∀ c ∈ cs, ∀ id, c.streamId = some id → f.refd id
  toks : (cs.filterMap DriverCommand.tok).Nodup
  tok_lt : ∀ t ∈ cs.filterMap DriverCommand.tok, f.sh.nextTok ≤ t ∧ t < f'.sh.nextTok
  replies : (cs.filterMap DriverCommand.reply).Nodup
  reply_mem : ∀ r, r ∈ cs.filterMap DriverCommand.reply ↔
    f.sh.nextReply ≤ r ∧ r < f'.sh.nextReply
  -- nothing enters a closed channel
  closed : f.sh.cmdRxClosed = true → cs = []

/-- What any sequence of front-end actions keeps and adds. -/
structure FrontRel (f f' : Face) : Prop where
  recvCore : ∀ h, (f'.sh.recvHalves h).core = (f.sh.recvHalves h).core
  sendCore : ∀ c, (f'.sh.sendHalves c).core = (f.sh.sendHalves c).core
  nextRecv : f'.sh.nextRecv = f.sh.nextRecv
  nextSend : f'.sh.nextSend = f.sh.nextSend
  closed : f'.sh.cmdRxClosed = f.sh.cmdRxClosed
  connTerminal : f'.sh.connTerminal = f.sh.connTerminal
  recvRef : ∀ h, f'.recvRef h → f.recvRef h
  sendRef : ∀ c, f'.sendRef c → f.sendRef c
  -- a half nobody refers to stays as it is
  recvFrame : ∀ h, ¬ f.recvRef h → f'.sh.recvHalves h = f.sh.recvHalves h
  sendFrame : ∀ c, ¬ f.sendRef c → f'.sh.sendHalves c = f.sh.sendHalves c
  -- nothing enters a byte queue or an accept queue, and what leaves it leaves at its head
  bytes : ∀ h, (f'.sh.recvHalves h).bytes <:+ (f.sh.recvHalves h).bytes
  acceptBidi : f'.sh.acceptBidi <:+ f.sh.acceptBidi
  acceptUni : f'.sh.acceptUni <:+ f.sh.acceptUni
  grows : Grows Event.isFront f.trace f'.trace
  nextTok : f.sh.nextTok ≤ f'.sh.nextTok
  nextReply : f.sh.nextReply ≤ f'.sh.nextReply
  reply : ∀ r < f.sh.nextReply, ReplyLe (f.sh.replies r) (f'.sh.replies r)
  newReply : ∀ r, f.sh.nextReply ≤ r → r < f'.sh.nextReply →
    f'.sh.replies r = .waiting ∨ f'.sh.replies r = .cancelled
  freeReply : (∀ r, f.sh.nextReply ≤ r → f.sh.replies r = .cancelled) →
    ∀ r, f'.sh.nextReply ≤ r → f'.sh.replies r = .cancelled
  appends : ∃ cs, Appends f f' cs
  -- the drop of a receive half is recorded
  gone : ∀ h, ¬ (f'.sh.recvHalves h).Live →
    ¬ (f.sh.recvHalves h).Live ∨ .recvDropped h ∈ f'.trace
  final : f.Final → f'.Final
  -- a refusal carries the terminal its object saw
  refusedSend : ∀ id e, .sendRefused id e ∈ f'.trace → .sendRefused id e ∈ f.trace ∨
    f.sh.cmdRxClosed = true ∧ ∃ c, f.sendRef c ∧ (f.sh.sendHalves c).id = id ∧
      (f.Final → e = (f.sh.sendHalves c).status)
  refusedOpen : ∀ t, .openRefused t ∈ f'.trace → .openRefused t ∈ f.trace ∨
    f.sh.cmdRxClosed = true ∧ t = f.sh.connTerminal

namespace FrontRel

variable {f f' f'' : Face}

theorem id_recv (h : FrontRel f f') (i : Nat) :
    (f'.sh.recvHalves i).id = (f.sh.recvHalves i).id := congrArg Prod.fst (h.recvCore i)

theorem id_send (h : FrontRel f f') (c : Nat) :
    (f'.sh.sendHalves c).id = (f.sh.sendHalves c).id := congrArg Prod.fst (h.sendCore c)

theorem status (h : FrontRel f f') (c : Nat) :
    (f'.sh.sendHalves c).status = (f.sh.sendHalves c).status := congrArg Prod.snd (h.sendCore c)

theorem permit (h : FrontRel f f') (i : Nat) :
    (f'.sh.recvHalves i).permit = (f.sh.recvHalves i).permit :=
  congrArg (fun x => x.2.2.1) (h.recvCore i)

theorem terminal (h : FrontRel f f') (i : Nat) :
    (f'.sh.recvHalves i).terminal = (f.sh.recvHalves i).terminal :=
  congrArg (fun x => x.2.2.2.2) (h.recvCore i)

theorem refd (h : FrontRel f f') {id : Nat} (hr : f'.refd id) : f.refd id := by
  rcases hr with ⟨i, hi, hid⟩ | ⟨c, hc, hid⟩
  · exact .inl ⟨i, h.recvRef i hi, (h.id_recv i).symm.trans hid⟩
  · exact .inr ⟨c, h.sendRef c hc, (h.id_send c).symm.trans hid⟩

theorem refl (f : Face) : FrontRel f f where
  recvCore _ := rfl
  sendCore _ := rfl
  nextRecv := rfl
  nextSend := rfl
  closed := rfl
  connTerminal := rfl
  recvRef _ := id
  sendRef _ := id
  recvFrame _ _ := rfl
  sendFrame _ _ := rfl
  bytes _ := List.suffix_rfl
  acceptBidi := List.suffix_rfl
  acceptUni := List.suffix_rfl
  grows := .refl _ _
  nextTok := le_rfl
  nextReply := le_rfl
  reply _ _ := .inl rfl
  newReply _ h h' := absurd h' (not_lt.mpr h)
  freeReply := id
  appends := ⟨[], by simp, rfl, by simp, by simp, by simp, by simp, by simp, fun _ => rfl⟩
  gone _ := .inl
  final := id
  refusedSend _ _ := .inl
  refusedOpen _ := .inl

theorem appends_trans {cs cs' : List DriverCommand} (r : FrontRel f f')
    (r' : FrontRel f' f'') (h : Appends f f' cs) (h' : Appends f' f'' cs') :
    Appends f f'' (cs ++ cs') where
  queue := by rw [h'.queue, h.queue, List.append_assoc]
  record := by rw [h'.record, h.record, List.reverse_append, List.append_assoc]
  ids c hc id hid := by
    rcases List.mem_append.mp hc with hc | hc
    · exact h.ids c hc id hid
    · exact r.refd (h'.ids c hc id hid)
  toks := by
    rw [List.filterMap_append]
    refine h.toks.append h'.toks fun t ht ht' => ?_
    have := h.tok_lt t ht
    have := h'.tok_lt t ht'
    omega
  tok_lt t ht := by
    rw [List.filterMap_append] at ht
    have := r.nextTok
    have := r'.nextTok
    rcases List.mem_append.mp ht with ht | ht
    · have := h.tok_lt t ht
      omega
    · have := h'.tok_lt t ht
      omega
  replies := by
    rw [List.filterMap_append]
    refine h.replies.append h'.replies fun t ht ht' => ?_
    have := (h.reply_mem t).mp ht
    have := (h'.reply_mem t).mp ht'
    omega
  reply_mem t := by
    have := r.nextReply
    have := r'.nextReply
    rw [List.filterMap_append, List.mem_append, h.reply_mem, h'.reply_mem]
    omega
  closed hc := by rw [h.closed hc, h'.closed (r.closed.trans hc), List.append_nil]

theorem trans (h : FrontRel f f') (h' : FrontRel f' f'') : FrontRel f f'' where
  recvCore i := (h'.recvCore i).trans (h.recvCore i)
  sendCore c := (h'.sendCore c).trans (h.sendCore c)
  nextRecv := h'.nextRecv.trans h.nextRecv
  nextSend := h'.nextSend.trans h.nextSend
  closed := h'.closed.trans h.closed
  connTerminal := h'.connTerminal.trans h.connTerminal
  recvRef i hi := h.recvRef i (h'.recvRef i hi)
  sendRef c hc := h.sendRef c (h'.sendRef c hc)
  recvFrame i hi := (h'.recvFrame i fun hr => hi (h.recvRef i hr)).trans (h.recvFrame i hi)
  sendFrame c hc := (h'.sendFrame c fun hr => hc (h.sendRef c hr)).trans (h.sendFrame c hc)
  bytes i := (h'.bytes i).trans (h.bytes i)
  acceptBidi := h'.acceptBidi.trans h.acceptBidi
  acceptUni := h'.acceptUni.trans h.acceptUni
  grows := h.grows.trans h'.grows
  nextTok := h.nextTok.trans h'.nextTok
  nextReply := h.nextReply.trans h'.nextReply
  reply r hr := (h.reply r hr).trans (h'.reply r (hr.trans_le h.nextReply))
  newReply r hr hr' := by
    by_cases hm : r < f'.sh.nextReply
    · rcases h.newReply r hr hm with hx | hx
      · rcases h'.reply r hm with hy | ⟨-, hy⟩ | ⟨hy, -⟩
        · exact .inl (hy.symm.trans hx)
        · exact .inr hy
        · exact absurd hx hy.1
      · rcases h'.reply r hm with hy | ⟨hy, -⟩ | ⟨hy, -⟩
        · exact .inr (hy.symm.trans hx)
        · exact absurd (hx.symm.trans hy) (by simp)
        · exact absurd hx hy.2
    · exact h'.newReply r (not_lt.mp hm) hr'
  freeReply hf := h'.freeReply (h.freeReply hf)
  appends := by
    obtain ⟨cs, hcs⟩ := h.appends
    obtain ⟨cs', hcs'⟩ := h'.appends
    exact ⟨cs ++ cs', appends_trans h h' hcs hcs'⟩
  gone i hi := by
    rcases h'.gone i hi with hi | hi
    · exact (h.gone i hi).imp_right h'.grows.mem
    · exact .inr hi
  final hf := h'.final (h.final hf)
  refusedSend id e hid := by
    rcases h'.refusedSend id e hid with hid | ⟨hcl, c, hc, hid, hst⟩
    · exact h.refusedSend id e hid
    · exact .inr ⟨h.closed.symm.trans hcl, c, h.sendRef c hc, (h.id_send c).symm.trans hid,
        fun hf => (hst (h.final hf)).trans (h.status c)⟩
  refusedOpen t ho := by
    rcases h'.refusedOpen t ho with ho | ⟨hcl, ht⟩
    · exact h.refusedOpen t ho
    · exact .inr ⟨h.closed.symm.trans hcl, ht.trans h.connTerminal⟩

/-! ## 3. The primitives -/

/-- No command appended, nothing refused. -/
theorem appends_nil (h : f'.sh.cmdRx = f.sh.cmdRx) (ht : submitted f'.trace = submitted f.trace)
    (hn : f'.sh.nextReply = f.sh.nextReply) : ∃ cs, Appends f f' cs :=
  ⟨[], by simp [h], by simp [ht], by simp, by simp, by simp, by simp, by simp [hn], fun _ => rfl⟩

theorem modRecv (f : Face) (h : Nat) (g : RecvHalf → RecvHalf)
    (hcore : (g (f.sh.recvHalves h)).core = (f.sh.recvHalves h).core) (href : f.recvRef h)
    (hbytes : (g (f.sh.recvHalves h)).bytes <:+ (f.sh.recvHalves h).bytes)
    (hlive : ¬ (g (f.sh.recvHalves h)).Live →
      ¬ (f.sh.recvHalves h).Live ∨ .recvDropped h ∈ f.trace) :
    FrontRel f (f.modRecv h g) :=
  { refl f with
    recvCore := fun i => by
      by_cases hi : i = h
      · subst hi
        simpa [Face.modRecv] using hcore
      · simp [Face.modRecv, hi]
    recvRef := fun i hi => by
      by_cases he : i = h
      · exact he ▸ href
      · simpa [Face.recvRef, Face.modRecv, he] using hi
    recvFrame := fun i hi => by
      have he : i ≠ h := fun he => hi (he ▸ href)
      simp [Face.modRecv, he]
    bytes := fun i => by
      by_cases hi : i = h
      · subst hi
        simpa [Face.modRecv] using hbytes
      · simp [Face.modRecv, hi]
    appends := appends_nil rfl rfl rfl
    gone := fun i hi => by
      by_cases he : i = h
      · subst he
        exact hlive (by simpa [Face.modRecv] using hi)
      · exact .inl (by simpa [Face.modRecv, he] using hi) }

theorem modSend (f : Face) (c : Nat) (g : SendHalf → SendHalf)
    (hcore : (g (f.sh.sendHalves c)).core = (f.sh.sendHalves c).core) (href : f.sendRef c)
    (hfin : (f.sh.sendHalves c).Final → (g (f.sh.sendHalves c)).Final) :
    FrontRel f (f.modSend c g) :=
  { refl f with
    sendCore := fun i => by
      by_cases hi : i = c
      · subst hi
        simpa [Face.modSend] using hcore
      · simp [Face.modSend, hi]
    sendRef := fun i hi => by
      by_cases he : i = c
      · exact he ▸ href
      · simpa [Face.sendRef, Face.modSend, he] using hi
    sendFrame := fun i hi => by
      have he : i ≠ c := fun he => hi (he ▸ href)
      simp [Face.modSend, he]
    appends := appends_nil rfl rfl rfl
    final := fun hf i => by
      by_cases hi : i = c
      · subst hi
        simpa [Face.modSend] using hfin (hf i)
      · simpa [Face.modSend, hi] using hf i }

/-- The record of a drop. -/
theorem dropped (f : Face) (e : Event) (he : (∃ h, e = .recvDropped h) ∨ ∃ c, e = .sendDropped c) :
    FrontRel f (f.emit e) :=
  { refl f with
    grows := by
      refine Grows.one ?_
      rcases he with ⟨_, rfl⟩ | ⟨_, rfl⟩ <;> trivial
    appends := by
      refine appends_nil rfl ?_ rfl
      rcases he with ⟨_, rfl⟩ | ⟨_, rfl⟩ <;> rfl
    gone := fun _ => .inl
    refusedSend := fun id e' hid => .inl <| by
      rcases he with ⟨_, rfl⟩ | ⟨_, rfl⟩ <;> simpa [Face.emit] using hid
    refusedOpen := fun t ho => .inl <| by
      rcases he with ⟨_, rfl⟩ | ⟨_, rfl⟩ <;> simpa [Face.emit] using ho }

/-- Counters, flags and stages of the handles; accept queues may only lose elements. -/
theorem plain (f : Face) (s : Shared)
    (hs : s = { f.sh with
      senders := s.senders, openers := s.openers, acceptBidi := s.acceptBidi
      acceptUni := s.acceptUni, acceptBidiOpen := s.acceptBidiOpen
      acceptUniOpen := s.acceptUniOpen, acceptBidiResume := s.acceptBidiResume
      acceptUniResume := s.acceptUniResume, acceptBidiPc := s.acceptBidiPc
      acceptUniPc := s.acceptUniPc, connStage := s.connStage, resident := s.resident })
    (hb : s.acceptBidi <:+ f.sh.acceptBidi) (hu : s.acceptUni <:+ f.sh.acceptUni) :
    FrontRel f { f with sh := s } := by
  have hr : ∀ h, Face.recvRef { f with sh := s } h → f.recvRef h := by
    rintro h (hh | hh | ⟨c, hc⟩ | hh | hh)
    · exact .inl (by rw [hs] at hh; exact hh)
    · exact .inr (.inl (by rw [hs] at hh; exact hh))
    · exact .inr (.inr (.inl ⟨c, hb.subset hc⟩))
    · exact .inr (.inr (.inr (.inl (hu.subset hh))))
    · exact .inr (.inr (.inr (.inr (by rw [hs] at hh; exact hh))))
  have hsr : ∀ c, Face.sendRef { f with sh := s } c → f.sendRef c := by
    rintro c (hh | ⟨h, hc⟩ | hh)
    · exact .inl (by rw [hs] at hh; exact hh)
    · exact .inr (.inl ⟨h, hb.subset hc⟩)
    · exact .inr (.inr (by rw [hs] at hh; exact hh))
  exact
    { recvCore := fun _ => by rw [hs], sendCore := fun _ => by rw [hs]
      nextRecv := by rw [hs], nextSend := by rw [hs], closed := by rw [hs]
      connTerminal := by rw [hs], recvRef := hr, sendRef := hsr, recvFrame := fun _ _ => by rw [hs]
      sendFrame := fun _ _ => by rw [hs], bytes := fun _ => by rw [hs]
      acceptBidi := hb, acceptUni := hu, grows := .refl _ _
      nextTok := by rw [hs], nextReply := by rw [hs], reply := fun _ _ => .inl (by rw [hs])
      newReply := fun _ h h' => absurd h' (by rw [hs]; exact not_lt.mpr h)
      freeReply := fun h => by rw [hs]; exact h
      appends := appends_nil (by rw [hs]) rfl (by rw [hs]), gone := fun _ => by rw [hs]; exact .inl
      final := fun hf c => by rw [hs]; exact hf c
      refusedSend := fun _ _ => .inl, refusedOpen := fun _ => .inl }

/-- A reply slot is settled. -/
theorem setReply (f : Face) (r : Nat) (x : Reply) (hx : ReplyLe (f.sh.replies r) x)
    (hb : ∀ h c, x ≠ .bidi h c) (hu : ∀ c, x ≠ .uni c) : FrontRel f (f.setReply r x) := by
  -- a slot that holds an answer afterwards held it before
  have hkeep {i : Nat} {y : Reply} (hy : y ≠ x) (hi : (f.setReply r x).sh.replies i = y) :
      f.sh.replies i = y := by
    by_cases he : i = r
    · subst he
      exact absurd (by simpa [Face.setReply] using hi.symm) hy
    · simpa [Face.setReply, he] using hi
  exact
    { refl f with
      recvRef := by
        rintro h (hh | hh | hh | hh | ⟨i, c, hi⟩)
        · exact .inl hh
        · exact .inr (.inl hh)
        · exact .inr (.inr (.inl hh))
        · exact .inr (.inr (.inr (.inl hh)))
        · exact .inr (.inr (.inr (.inr ⟨i, c, hkeep (hb h c).symm hi⟩)))
      sendRef := by
        rintro c (hc | hc | ⟨i, h, hi⟩ | ⟨i, hi⟩)
        · exact .inl hc
        · exact .inr (.inl hc)
        · exact .inr (.inr (.inl ⟨i, h, hkeep (hb h c).symm hi⟩))
        · exact .inr (.inr (.inr ⟨i, hkeep (hu c).symm hi⟩))
      reply := fun i _ => by
        by_cases he : i = r
        · subst he
          simpa [Face.setReply] using hx
        · exact .inl (by simp [Face.setReply, he])
      newReply := fun _ h h' => absurd h' (not_lt.mpr h)
      appends := appends_nil rfl rfl rfl
      freeReply := fun hf i hi => by
        by_cases he : i = r
        · subst he
          rcases hx with hx | ⟨hx, -⟩ | ⟨hx, -⟩
          · simpa [Face.setReply, ← hx] using hf i hi
          · exact absurd (hx.symm.trans (hf i hi)) (by simp)
          · exact absurd (hf i hi) hx.2
        · simpa [Face.setReply, he] using hf i hi }

/-- A submission that may carry the next completion. -/
theorem submit (f : Face) (cmd : DriverCommand) (dt : Nat)
    (hid : ∀ id, cmd.streamId = some id → f.refd id)
    (htok : ∀ t, cmd.tok = some t → t = f.sh.nextTok ∧ dt = 1) (hreply : cmd.reply = none) :
    FrontRel f { f.cmdSend cmd with sh.nextTok := f.sh.nextTok + dt } := by
  unfold Face.cmdSend
  split
  · exact
      { refl f with nextTok := Nat.le_add_right _ _, appends := appends_nil rfl rfl rfl }
  · rename_i hcl
    refine
      { refl f with
        nextTok := Nat.le_add_right _ _
        grows := .one (by trivial)
        appends := ⟨[cmd], rfl, rfl, ?_, ?_, ?_, ?_, ?_, fun h => absurd h hcl⟩
        gone := fun _ h => .inl h
        refusedSend := fun _ _ h => .inl (by simpa using h)
        refusedOpen := fun _ h => .inl (by simpa using h) }
    · intro c hc id hci
      rw [List.mem_singleton.mp hc] at hci
      exact hid id hci
    · cases h : cmd.tok <;> simp [h]
    · intro t ht
      obtain ⟨c, hc, hct⟩ := List.mem_filterMap.mp ht
      rw [List.mem_singleton.mp hc] at hct
      have := htok t hct
      dsimp only
      omega
    · simp [hreply]
    · simp [hreply]

theorem cmdSend (f : Face) (cmd : DriverCommand) (hid : ∀ id, cmd.streamId = some id → f.refd id)
    (htok : cmd.tok = none) (hreply : cmd.reply = none) : FrontRel f (f.cmdSend cmd) := by
  have h := submit f cmd 0 hid (by simp [htok]) hreply
  have he : { f.cmdSend cmd with sh.nextTok := f.sh.nextTok + 0 } = f.cmdSend cmd := by
    unfold Face.cmdSend
    split <;> rfl
  exact he ▸ h

theorem cmdSendFinish (f : Face) (id : Nat) (hid : f.refd id) :
    FrontRel f (f.cmdSendFinish id) := by
  have h := submit f (.finish id f.sh.nextTok) 1 (by simp [DriverCommand.streamId, hid])
    (by simp [DriverCommand.tok]) rfl
  have he : { f.cmdSend (.finish id f.sh.nextTok) with sh.nextTok := f.sh.nextTok + 1 } =
      f.cmdSendFinish id := by
    unfold Face.cmdSendFinish Face.cmdSend
    split <;> rfl
  exact he ▸ h

/-- An open request with a new reply slot. -/
theorem openCmd (f : Face) (cmd : DriverCommand) (hid : cmd.streamId = none)
    (htok : cmd.tok = none) (hrep : cmd.reply = some f.sh.nextReply)
    (hcl : f.sh.cmdRxClosed = false) :
    FrontRel f { (f.setReply f.sh.nextReply .waiting).cmdSend cmd with
      sh.nextReply := f.sh.nextReply + 1 } := by
  rw [Face.cmdSend_open (f.setReply f.sh.nextReply .waiting) cmd hcl]
  have hne : ∀ {r x}, x ≠ .waiting →
      Function.update f.sh.replies f.sh.nextReply .waiting r = x → f.sh.replies r = x := by
    intro r x hx he
    by_cases hr : r = f.sh.nextReply
    · exact absurd (by simpa [hr] using he.symm) hx
    · simpa [hr] using he
  refine
    { refl f with
      nextReply := Nat.le_succ _
      recvRef := ?_
      sendRef := ?_
      grows := .one (by trivial)
      reply := fun r hr => .inl (by simp [Face.setReply, hr.ne])
      newReply := fun r h h' => .inl (by
        have hr : r = f.sh.nextReply := by
          dsimp only at h'
          omega
        simp [Face.setReply, hr])
      freeReply := fun hf r hr => by
        have hr : f.sh.nextReply < r := hr
        simpa [Face.setReply, hr.ne'] using hf r hr.le
      appends := ⟨[cmd], rfl, rfl, ?_, ?_, ?_, ?_, ?_, fun h => absurd (hcl.symm.trans h) (by simp)⟩
      gone := fun _ h => .inl h
      refusedSend := fun _ _ h => .inl (by simpa [Face.setReply] using h)
      refusedOpen := fun _ h => .inl (by simpa [Face.setReply] using h) }
  · rintro h (hh | hh | hh | hh | ⟨r, c, hr⟩)
    · exact .inl hh
    · exact .inr (.inl hh)
    · exact .inr (.inr (.inl hh))
    · exact .inr (.inr (.inr (.inl hh)))
    · exact .inr (.inr (.inr (.inr ⟨r, c, hne (by simp) hr⟩)))
  · rintro c (hh | hh | ⟨r, h, hr⟩ | ⟨r, hr⟩)
    · exact .inl hh
    · exact .inr (.inl hh)
    · exact .inr (.inr (.inl ⟨r, h, hne (by simp) hr⟩))
    · exact .inr (.inr (.inr ⟨r, hne (by simp) hr⟩))
  · intro c hc id hci
    rw [List.mem_singleton.mp hc, hid] at hci
    cases hci
  · simp [htok]
  · simp [htok]
  · simp [hrep]
  · intro r
    simp only [List.filterMap_cons, hrep, List.filterMap_nil, List.mem_singleton]
    omega

/-- A refused submission. -/
theorem refuse (f : Face) (e : Event) (hcl : f.sh.cmdRxClosed = true)
    (he : (∃ c, f.sendRef c ∧ (f.Final → (f.sh.sendHalves c).localTerminal = none) ∧
      e = .sendRefused (f.sh.sendHalves c).id (f.sh.sendHalves c).terminalNow) ∨
      e = .openRefused f.sh.connTerminal) : FrontRel f (f.emit e) :=
  { refl f with
    grows := by
      refine Grows.one ?_
      rcases he with ⟨_, -, -, rfl⟩ | rfl <;> trivial
    appends := by
      refine appends_nil rfl ?_ rfl
      rcases he with ⟨_, -, -, rfl⟩ | rfl <;> rfl
    gone := fun _ => .inl
    refusedSend := fun id e' hid => by
      rcases List.mem_cons.mp hid with hid | hid
      · rcases he with ⟨c, hc, hl, rfl⟩ | rfl
        · obtain ⟨rfl, rfl⟩ := Event.sendRefused.inj hid
          refine .inr ⟨hcl, c, hc, rfl, fun hf => ?_⟩
          unfold SendHalf.terminalNow
          rw [hl hf]
        · cases hid
      · exact .inl hid
    refusedOpen := fun t ho => by
      rcases List.mem_cons.mp ho with ho | ho
      · rcases he with ⟨c, hc, hl, rfl⟩ | rfl
        · cases ho
        · exact .inr ⟨hcl, Event.openRefused.inj ho⟩
      · exact .inl ho }

end FrontRel

/-! ## 4. The actions -/

namespace Face

variable (f : Face)

theorem refd_recv {h : Nat} (hr : f.recvRef h) : f.refd (f.sh.recvHalves h).id := .inl ⟨h, hr, rfl⟩

theorem refd_send {c : Nat} (hr : f.sendRef c) : f.refd (f.sh.sendHalves c).id := .inr ⟨c, hr, rfl⟩

theorem recvRef_of_stream {h : Nat} (hh : (f.sh.recvHalves h).holder = .stream) : f.recvRef h :=
  .inl (by rw [hh]; exact ⟨by decide, by decide⟩)

theorem sendRef_of_stream {c : Nat} (hc : (f.sh.sendHalves c).holder = .stream) : f.sendRef c :=
  .inl (by rw [hc]; exact ⟨by decide, by decide⟩)

theorem recvRef_of_pc {h : Nat} {p : ConsumerPc} (hh : (f.sh.recvHalves h).pc = p)
    (hp : p ≠ .idle) : f.recvRef h := .inr (.inl (by rw [hh]; exact hp))

/-- A half whose object stays as it is, with other fields of the object changed. -/
theorem touchRecv_rel (h : Nat) (g : RecvHalf → RecvHalf) (hr : f.recvRef h)
    (hcore : (g (f.sh.recvHalves h)).core = (f.sh.recvHalves h).core)
    (hh : (g (f.sh.recvHalves h)).holder = (f.sh.recvHalves h).holder)
    (hb : (g (f.sh.recvHalves h)).bytes <:+ (f.sh.recvHalves h).bytes) :
    FrontRel f (f.modRecv h g) :=
  .modRecv f h g hcore hr hb fun hl => .inl (by simpa [RecvHalf.Live, hh] using hl)

theorem dropSender_rel : FrontRel f f.dropSender :=
  .plain f _ rfl List.suffix_rfl List.suffix_rfl

/-! A command can be sent before or after the object of the half is changed. -/

theorem cmdSend_modRecv (h : Nat) (g : RecvHalf → RecvHalf) (cmd : DriverCommand) :
    (f.modRecv h g).cmdSend cmd = (f.cmdSend cmd).modRecv h g := by
  cases hc : f.sh.cmdRxClosed <;> simp [cmdSend, modRecv, hc]

theorem cmdSend_modSend (c : Nat) (g : SendHalf → SendHalf) (cmd : DriverCommand) :
    (f.modSend c g).cmdSend cmd = (f.cmdSend cmd).modSend c g := by
  cases hc : f.sh.cmdRxClosed <;> simp [cmdSend, modSend, hc]

theorem cmdSendFinish_modSend (c : Nat) (g : SendHalf → SendHalf) (id : Nat) :
    (f.modSend c g).cmdSendFinish id = (f.cmdSendFinish id).modSend c g := by
  simp only [cmdSendFinish, cmdSend_modSend]
  rfl

theorem recvRef_cmdSend {h : Nat} (hr : f.recvRef h) (cmd : DriverCommand) :
    (f.cmdSend cmd).recvRef h := by
  unfold cmdSend
  split <;> exact hr

theorem sendRef_cmdSendFinish {c : Nat} (hr : f.sendRef c) (id : Nat) :
    (f.cmdSendFinish id).sendRef c := by
  unfold cmdSendFinish cmdSend
  dsimp only
  split <;> exact hr

theorem dropSendHandoff_rel (c : Nat) (hr : f.sendRef c) : FrontRel f (f.dropSendHandoff c) := by
  have h1 : FrontRel f (f.emit (.sendDropped c)) := .dropped f _ (.inr ⟨c, rfl⟩)
  have h2 := FrontRel.cmdSendFinish (f.emit (.sendDropped c)) _ (f.refd_send hr)
  have h3 := FrontRel.modSend _ c (fun s => { s with holder := .gone }) rfl
    (sendRef_cmdSendFinish (f.emit (.sendDropped c)) hr (f.sh.sendHalves c).id) id
  have he : f.dropSendHandoff c =
      (((f.emit (.sendDropped c)).cmdSendFinish (f.sh.sendHalves c).id).modSend c
        fun s => { s with holder := .gone }).dropSender := by
    rw [← cmdSendFinish_modSend]
    rfl
  exact he ▸ ((h1.trans h2).trans h3).trans (dropSender_rel _)

theorem dropRecvHandoff_rel (h : Nat) (hr : f.recvRef h) : FrontRel f (f.dropRecvHandoff h) := by
  have h1 : FrontRel f (f.emit (.recvDropped h)) := .dropped f _ (.inl ⟨h, rfl⟩)
  have h2 := FrontRel.cmdSend (f.emit (.recvDropped h)) (.stopSending (f.sh.recvHalves h).id 0)
    (fun _ hid => Option.some.inj hid ▸ f.refd_recv hr) rfl rfl
  have h3 := FrontRel.modRecv _ h (fun r => { r with holder := .gone, bytes := [] }) rfl
    (recvRef_cmdSend (f.emit (.recvDropped h)) hr (.stopSending (f.sh.recvHalves h).id 0))
    List.nil_suffix fun _ => .inr (h2.grows.mem List.mem_cons_self)
  have he : f.dropRecvHandoff h =
      (((f.emit (.recvDropped h)).cmdSend (.stopSending (f.sh.recvHalves h).id 0)).modRecv h
        fun r => { r with holder := .gone, bytes := [] }).dropSender := by
    rw [← cmdSend_modRecv]
    rfl
  exact he ▸ ((h1.trans h2).trans h3).trans (dropSender_rel _)

theorem dropBidiHandoff_rel (x : Nat × Nat) (hr : f.recvRef x.1) (hs : f.sendRef x.2) :
    FrontRel f (f.dropBidiHandoff x) := by
  refine (f.dropSendHandoff_rel x.2 hs).trans (dropRecvHandoff_rel _ x.1 ?_)
  unfold dropSendHandoff dropSender cmdSendFinish cmdSend
  dsimp only
  split <;> exact hr

theorem recvDequeue_rel (h : Nat) : FrontRel f (f.recvDequeue h) := by
  simp only [recvDequeue]
  split
  · rename_i hg
    exact f.touchRecv_rel h _ (f.recvRef_of_stream hg.1) rfl rfl (List.tail_suffix _)
  · exact .refl f

theorem recvSwapBlocked_rel (h : Nat) : FrontRel f (f.recvSwapBlocked h) := by
  simp only [recvSwapBlocked]
  split
  · rename_i hg
    exact f.touchRecv_rel h _ (f.recvRef_of_pc hg (by decide)) rfl rfl List.suffix_rfl
  · exact .refl f

theorem recvSwapResume_rel (h : Nat) : FrontRel f (f.recvSwapResume h) := by
  simp only [recvSwapResume]
  split
  · rename_i hg
    exact f.touchRecv_rel h _ (f.recvRef_of_pc hg (by decide)) rfl rfl List.suffix_rfl
  · exact .refl f

theorem recvSendResume_rel (h : Nat) : FrontRel f (f.recvSendResume h) := by
  simp only [recvSendResume]
  split
  · rename_i hg
    have hr := f.recvRef_of_pc hg (by decide)
    have h1 := FrontRel.cmdSend f (.recvResume (f.sh.recvHalves h).id)
      (by simpa [DriverCommand.streamId] using f.refd_recv hr) rfl rfl
    rw [cmdSend_modRecv]
    exact h1.trans (touchRecv_rel _ h _ (f.recvRef_cmdSend hr _) rfl rfl List.suffix_rfl)
  · exact .refl f

theorem recvSeeTerminal_rel (h : Nat) : FrontRel f (f.recvSeeTerminal h) := by
  simp only [recvSeeTerminal]
  split
  · rename_i hg
    exact f.touchRecv_rel h _ (f.recvRef_of_stream hg.1) rfl rfl List.suffix_rfl
  · exact .refl f

/-- A `STOP_SENDING` command for the stream of a half the object still refers to. -/
theorem stop_rel (h code : Nat) (hr : f.recvRef h) :
    FrontRel f (f.cmdSend (.stopSending (f.sh.recvHalves h).id code)) :=
  .cmdSend f _ (by simpa [DriverCommand.streamId] using f.refd_recv hr) rfl rfl

theorem recvStopSending_rel (h code : Nat) : FrontRel f (f.recvStopSending h code) := by
  simp only [recvStopSending]
  split
  · rename_i hg
    have hr := f.recvRef_of_stream hg.1
    have h1 := f.touchRecv_rel h (fun r => { r with stopSent := true }) hr rfl rfl
      List.suffix_rfl
    have h2 := stop_rel (f.modRecv h fun r => { r with stopSent := true }) h code
      (recvRef_of_stream _ (by simpa [modRecv] using hg.1))
    rw [h1.id_recv] at h2
    exact h1.trans h2
  · exact .refl f

theorem recvDrop_rel (h : Nat) : FrontRel f (f.recvDrop h) := by
  simp only [recvDrop]
  split
  · rename_i hg
    have hr := f.recvRef_of_stream hg.1
    have h1 : FrontRel f (f.emit (.recvDropped h)) := .dropped f _ (.inl ⟨h, rfl⟩)
    have h2 (x : Holder) : FrontRel f
        ((f.emit (.recvDropped h)).modRecv h fun r => { r with holder := x }) :=
      h1.trans (.modRecv _ h _ rfl hr List.suffix_rfl fun _ => .inr List.mem_cons_self)
    split
    · exact h2 .closing
    · exact h2 .dropping
  · exact .refl f

theorem recvDropStop_rel (h : Nat) : FrontRel f (f.recvDropStop h) := by
  simp only [recvDropStop]
  split
  · rename_i hg
    have hr : f.recvRef h := .inl (by rw [hg]; exact ⟨by decide, by decide⟩)
    have h1 : FrontRel f (f.modRecv h fun r => { r with holder := .closing }) :=
      .modRecv f h _ rfl hr List.suffix_rfl fun _ => .inl (by simp [RecvHalf.Live, hg])
    have h2 := stop_rel (f.modRecv h fun r => { r with holder := .closing }) h 0
      (.inl (by simp [modRecv, Holder.Held]))
    rw [h1.id_recv] at h2
    exact h1.trans h2
  · exact .refl f

theorem recvDropClose_rel (h : Nat) : FrontRel f (f.recvDropClose h) := by
  simp only [recvDropClose]
  split
  · rename_i hg
    have hr : f.recvRef h := .inl (by rw [hg]; exact ⟨by decide, by decide⟩)
    have h1 : FrontRel f (f.modRecv h fun r => { r with holder := .gone, bytes := [] }) :=
      .modRecv f h _ rfl hr List.nil_suffix fun _ => .inl (by simp [RecvHalf.Live, hg])
    exact h1.trans (dropSender_rel _)
  · exact .refl f

theorem sendData_rel (c : Nat) (buf : WriteBuf) : FrontRel f (f.sendData c buf) := by
  simp only [sendData]
  split
  · rename_i hg
    have hr := f.sendRef_of_stream hg.1
    split
    · exact .refl f
    · rename_i next _
      split
      · rename_i hcl
        exact .refuse f _ hcl (.inl ⟨c, hr, fun _ => hg.2, rfl⟩)
      · rename_i hcl
        have hcl : f.sh.cmdRxClosed = false := by simpa using hcl
        have h1 := FrontRel.submit f (.send (f.sh.sendHalves c).id buf f.sh.nextTok
          (some buf.remaining)) 1 (fun _ hid => Option.some.inj hid ▸ f.refd_send hr)
          (by simp [DriverCommand.tok]) rfl
        rw [cmdSend_open f _ hcl] at h1 ⊢
        exact h1.trans (.plain _ _ rfl List.suffix_rfl List.suffix_rfl)
  · exact .refl f

theorem finish_rel (c : Nat) (hr : f.sendRef c) :
    FrontRel f (f.cmdSendFinish (f.sh.sendHalves c).id) := .cmdSendFinish f _ (f.refd_send hr)

theorem sendFinish_rel (c : Nat) : FrontRel f (f.sendFinish c) := by
  simp only [sendFinish]
  split
  · rename_i hg
    have hr := f.sendRef_of_stream hg.1
    have hl : f.Final → (f.sh.sendHalves c).localTerminal = none := by
      intro hf
      by_contra hx
      have hfin := hf c (Option.isSome_iff_ne_none.mpr hx)
      rw [hg.2] at hfin
      cases hfin
    split
    · rename_i hcl
      have h2 := FrontRel.refuse f (.sendRefused (f.sh.sendHalves c).id
        (f.sh.sendHalves c).terminalNow) hcl (.inl ⟨c, hr, hl, rfl⟩)
      exact h2.trans (.modSend (f.emit _) c (fun s => { s with finalized := true }) rfl hr
        fun _ _ => rfl)
    · rw [cmdSendFinish_modSend]
      exact (f.finish_rel c hr).trans (.modSend _ c _ rfl (f.sendRef_cmdSendFinish hr _)
        fun _ _ => rfl)
  · exact .refl f

theorem sendFinishSeen_rel (c : Nat) : FrontRel f (f.sendFinishSeen c) := by
  simp only [sendFinishSeen]
  split
  · rename_i hg
    exact .modSend f c _ rfl (f.sendRef_of_stream hg.1) fun _ _ => rfl
  · exact .refl f

theorem sendReset_rel (c code : Nat) : FrontRel f (f.sendReset c code) := by
  simp only [sendReset]
  split
  · rename_i hg
    have hr := f.sendRef_of_stream hg.1
    have h1 := FrontRel.cmdSend f (.reset (f.sh.sendHalves c).id code)
      (fun _ hid => Option.some.inj hid ▸ f.refd_send hr) rfl rfl
    rw [cmdSend_modSend]
    refine h1.trans (.modSend _ c _ rfl ?_ fun _ _ => rfl)
    unfold cmdSend
    split <;> exact hr
  · exact .refl f

theorem sendDrop_rel (c : Nat) : FrontRel f (f.sendDrop c) := by
  simp only [sendDrop]
  split
  · rename_i hg
    have hr := f.sendRef_of_stream hg
    have h1 (g : SendHalf → SendHalf) (hg : (g (f.sh.sendHalves c)).core = (f.sh.sendHalves c).core)
        (hf : (f.sh.sendHalves c).Final → (g (f.sh.sendHalves c)).Final) :
        FrontRel f ((f.modSend c g).emit (.sendDropped c)) :=
      (FrontRel.modSend f c g hg hr hf).trans (.dropped _ _ (.inr ⟨c, rfl⟩))
    split
    · exact (h1 _ rfl id).trans (dropSender_rel _)
    · exact h1 _ rfl fun _ _ => rfl
  · exact .refl f

theorem sendDropFinish_rel (c : Nat) : FrontRel f (f.sendDropFinish c) := by
  simp only [sendDropFinish]
  split
  · rename_i hg
    have hr : f.sendRef c := .inl (by rw [hg]; exact ⟨by decide, by decide⟩)
    rw [cmdSendFinish_modSend]
    exact ((f.finish_rel c hr).trans (.modSend _ c _ rfl (f.sendRef_cmdSendFinish hr _) id)).trans
      (dropSender_rel _)
  · exact .refl f

theorem openSend_rel (cmd : Nat → DriverCommand) (hid : ∀ r, (cmd r).streamId = none)
    (htok : ∀ r, (cmd r).tok = none) (hrep : ∀ r, (cmd r).reply = some r) :
    FrontRel f (f.openSend cmd) := by
  simp only [openSend]
  split
  · split
    · rename_i hcl
      exact .refuse f _ hcl (.inr rfl)
    · rename_i hcl
      exact .openCmd f _ (hid _) (htok _) (hrep _) (by simpa using hcl)
  · exact .refl f

theorem takeBidi_rel (h c : Nat) (hr : f.recvRef h) (hs : f.sendRef c) :
    FrontRel f ((f.modRecv h fun x => { x with holder := .stream }).modSend c
      fun x => { x with holder := .stream }) := by
  have h1 : FrontRel f (f.modRecv h fun x => { x with holder := .stream }) :=
    .modRecv f h _ rfl hr List.suffix_rfl fun hl => absurd (.inr rfl) hl
  exact h1.trans (.modSend _ c _ rfl hs id)

theorem dropSendHandoff_replies (c : Nat) :
    (f.dropSendHandoff c).sh.replies = f.sh.replies := by
  unfold dropSendHandoff dropSender cmdSendFinish cmdSend
  dsimp only
  split <;> rfl

theorem dropRecvHandoff_replies (h : Nat) :
    (f.dropRecvHandoff h).sh.replies = f.sh.replies := by
  unfold dropRecvHandoff dropSender cmdSend
  dsimp only
  split <;> rfl

theorem dropBidiHandoff_replies (x : Nat × Nat) :
    (f.dropBidiHandoff x).sh.replies = f.sh.replies := by
  rw [dropBidiHandoff, dropRecvHandoff_replies, dropSendHandoff_replies]

theorem dropSendHandoff_accept (c : Nat) :
    (f.dropSendHandoff c).sh.acceptBidi = f.sh.acceptBidi ∧
      (f.dropSendHandoff c).sh.acceptUni = f.sh.acceptUni := by
  unfold dropSendHandoff dropSender cmdSendFinish cmdSend
  dsimp only
  split <;> exact ⟨rfl, rfl⟩

theorem dropRecvHandoff_accept (h : Nat) :
    (f.dropRecvHandoff h).sh.acceptBidi = f.sh.acceptBidi ∧
      (f.dropRecvHandoff h).sh.acceptUni = f.sh.acceptUni := by
  unfold dropRecvHandoff dropSender cmdSend
  dsimp only
  split <;> exact ⟨rfl, rfl⟩

theorem dropBidiHandoff_accept (x : Nat × Nat) :
    (f.dropBidiHandoff x).sh.acceptBidi = f.sh.acceptBidi ∧
      (f.dropBidiHandoff x).sh.acceptUni = f.sh.acceptUni := by
  have h1 := f.dropSendHandoff_accept x.2
  have h2 := (f.dropSendHandoff x.2).dropRecvHandoff_accept x.1
  exact ⟨h2.1.trans h1.1, h2.2.trans h1.2⟩

theorem takeReply_rel (r : Nat) : FrontRel f (f.takeReply r) := by
  have hset (g : Face) (hg : g.sh.replies r = f.sh.replies r) (ha : (f.sh.replies r).Answered) :
      FrontRel g (g.setReply r .taken) :=
    .setReply g r .taken (hg ▸ .inr (.inr ⟨ha, .inl rfl⟩)) (by simp) (by simp)
  unfold takeReply
  split
  · rename_i h c hx
    refine (f.takeBidi_rel h c ?_ ?_).trans (hset _ rfl (by simp [hx, Reply.Answered]))
    · exact .inr (.inr (.inr (.inr ⟨r, c, hx⟩)))
    · exact .inr (.inr (.inl ⟨r, h, hx⟩))
  · rename_i c hx
    refine (FrontRel.modSend f c _ rfl ?_ id).trans (hset _ rfl (by simp [hx, Reply.Answered]))
    exact .inr (.inr (.inr ⟨r, hx⟩))
  · rename_i hx
    exact hset f rfl (by simp [hx, Reply.Answered])
  · exact .refl f

theorem dropReply_rel (r : Nat) : FrontRel f (f.dropReply r) := by
  have hset (g : Face) (hg : g.sh.replies r = f.sh.replies r)
      (ha : f.sh.replies r ≠ .cancelled) : FrontRel g (g.setReply r .cancelled) := by
    refine .setReply g r .cancelled (hg ▸ ?_) (by simp) (by simp)
    by_cases hw : f.sh.replies r = .waiting
    · exact .inr (.inl ⟨hw, rfl⟩)
    · exact .inr (.inr ⟨⟨hw, ha⟩, .inr rfl⟩)
  unfold dropReply
  split
  · rename_i hx
    exact hset f rfl (by simp [hx])
  · rename_i h c hx
    have h1 := f.dropBidiHandoff_rel (h, c) (.inr (.inr (.inr (.inr ⟨r, c, hx⟩))))
      (.inr (.inr (.inl ⟨r, h, hx⟩)))
    exact h1.trans (hset _ (by rw [dropBidiHandoff_replies]) (by simp [hx]))
  · rename_i c hx
    have h1 := f.dropSendHandoff_rel c (.inr (.inr (.inr ⟨r, hx⟩)))
    exact h1.trans (hset _ (by rw [dropSendHandoff_replies]) (by simp [hx]))
  · rename_i hx
    exact hset f rfl (by simp [hx])
  · exact .refl f

theorem acceptBidi_rel : FrontRel f f.acceptBidi := by
  unfold acceptBidi
  split
  · split
    · exact .refl f
    · rename_i h c rest hq
      have hm : (h, c) ∈ f.sh.acceptBidi := hq ▸ List.mem_cons_self
      have h1 := f.takeBidi_rel h c (.inr (.inr (.inl ⟨c, hm⟩))) (.inr (.inl ⟨h, hm⟩))
      refine h1.trans (.plain _ _ rfl ?_ List.suffix_rfl)
      exact hq ▸ List.suffix_cons _ _
  · exact .refl f

theorem acceptUni_rel : FrontRel f f.acceptUni := by
  unfold acceptUni
  split
  · split
    · exact .refl f
    · rename_i h rest hq
      have hm : h ∈ f.sh.acceptUni := hq ▸ List.mem_cons_self
      have h1 : FrontRel f (f.modRecv h fun x => { x with holder := .stream }) :=
        .modRecv f h _ rfl (.inr (.inr (.inr (.inl hm)))) List.suffix_rfl
          fun hl => absurd (.inr rfl) hl
      refine h1.trans (.plain _ _ rfl List.suffix_rfl ?_)
      exact hq ▸ List.suffix_cons _ _
  · exact .refl f

/-- A flag or stage changes, no command is sent. -/
theorem flags_rel (s : Shared) (hs : s = { f.sh with
      senders := s.senders, openers := s.openers, acceptBidi := f.sh.acceptBidi
      acceptUni := f.sh.acceptUni, acceptBidiOpen := s.acceptBidiOpen
      acceptUniOpen := s.acceptUniOpen, acceptBidiResume := s.acceptBidiResume
      acceptUniResume := s.acceptUniResume, acceptBidiPc := s.acceptBidiPc
      acceptUniPc := s.acceptUniPc, connStage := s.connStage, resident := s.resident }) :
    FrontRel f { f with sh := s } :=
  .plain f s (by rw [hs]) (by rw [hs]) (by rw [hs])

/-- A command about no stream. -/
theorem plainCmd_rel (cmd : DriverCommand) (hid : cmd.streamId = none) (htok : cmd.tok = none)
    (hrep : cmd.reply = none) : FrontRel f (f.cmdSend cmd) :=
  .cmdSend f cmd (by simp [hid]) htok hrep

theorem foldl_dropBidi_rel : ∀ (l : List (Nat × Nat)) (f : Face), l ⊆ f.sh.acceptBidi →
    FrontRel f (l.foldl dropBidiHandoff f)
  | [], f, _ => .refl f
  | x :: l, f, hl => by
    have hx : x ∈ f.sh.acceptBidi := hl List.mem_cons_self
    have h1 := f.dropBidiHandoff_rel x (.inr (.inr (.inl ⟨x.2, hx⟩))) (.inr (.inl ⟨x.1, hx⟩))
    refine h1.trans (foldl_dropBidi_rel l (f.dropBidiHandoff x) ?_)
    exact (f.dropBidiHandoff_accept x).1 ▸ fun y hy => hl (List.mem_cons_of_mem _ hy)

theorem foldl_dropUni_rel : ∀ (l : List Nat) (f : Face), l ⊆ f.sh.acceptUni →
    FrontRel f (l.foldl dropRecvHandoff f)
  | [], f, _ => .refl f
  | x :: l, f, hl => by
    have hx : x ∈ f.sh.acceptUni := hl List.mem_cons_self
    refine (f.dropRecvHandoff_rel x (.inr (.inr (.inr (.inl hx))))).trans
      (foldl_dropUni_rel l (f.dropRecvHandoff x) ?_)
    exact (f.dropRecvHandoff_accept x).2 ▸ fun y hy => hl (List.mem_cons_of_mem _ hy)

theorem closeAcceptBidi_rel : FrontRel f f.closeAcceptBidi := by
  unfold closeAcceptBidi
  split
  · exact (foldl_dropBidi_rel f.sh.acceptBidi f (List.Subset.refl _)).trans
      (.plain _ _ rfl List.nil_suffix List.suffix_rfl)
  · exact .refl f

theorem closeAcceptUni_rel : FrontRel f f.closeAcceptUni := by
  unfold closeAcceptUni
  split
  · exact (foldl_dropUni_rel f.sh.acceptUni f (List.Subset.refl _)).trans
      (.plain _ _ rfl List.suffix_rfl List.nil_suffix)
  · exact .refl f

/-- **Every front-end action keeps to the relation.** -/
theorem front_rel (a : FrontAct) : FrontRel f (f.front a) := by
  cases a with
  | recvDequeue h => exact f.recvDequeue_rel h
  | recvSwapBlocked h => exact f.recvSwapBlocked_rel h
  | recvSwapResume h => exact f.recvSwapResume_rel h
  | recvSendResume h => exact f.recvSendResume_rel h
  | recvSeeTerminal h => exact f.recvSeeTerminal_rel h
  | recvStopSending h code => exact f.recvStopSending_rel h code
  | recvDrop h => exact f.recvDrop_rel h
  | recvDropStop h => exact f.recvDropStop_rel h
  | recvDropClose h => exact f.recvDropClose_rel h
  | sendData c buf => exact f.sendData_rel c buf
  | sendFinish c => exact f.sendFinish_rel c
  | sendFinishSeen c => exact f.sendFinishSeen_rel c
  | sendReset c code => exact f.sendReset_rel c code
  | sendDrop c => exact f.sendDrop_rel c
  | sendDropFinish c => exact f.sendDropFinish_rel c
  | acceptBidi => exact f.acceptBidi_rel
  | acceptBidiSwap =>
    simp only [front, acceptBidiSwap]
    split
    · exact f.flags_rel _ rfl
    · exact .refl f
  | acceptBidiSignal =>
    simp only [front, acceptBidiSignal]
    split
    · exact (f.flags_rel { f.sh with acceptBidiPc := .idle } rfl).trans
        (plainCmd_rel _ _ rfl rfl rfl)
    · exact .refl f
  | acceptUni => exact f.acceptUni_rel
  | acceptUniSwap =>
    simp only [front, acceptUniSwap]
    split
    · exact f.flags_rel _ rfl
    · exact .refl f
  | acceptUniSignal =>
    simp only [front, acceptUniSignal]
    split
    · exact (f.flags_rel { f.sh with acceptUniPc := .idle } rfl).trans
        (plainCmd_rel _ _ rfl rfl rfl)
    · exact .refl f
  | openBidi | openUni => exact f.openSend_rel _ (fun _ => rfl) (fun _ => rfl) fun _ => rfl
  | takeReply r => exact f.takeReply_rel r
  | dropReply r => exact f.dropReply_rel r
  | close code reason =>
    simp only [front]
    split
    · exact f.plainCmd_rel _ rfl rfl rfl
    · exact .refl f
  | cloneOpener =>
    simp only [front]
    split
    · exact f.flags_rel _ rfl
    · exact .refl f
  | dropOpener =>
    simp only [front]
    split
    · exact (f.flags_rel { f.sh with openers := f.sh.openers - 1 } rfl).trans (dropSender_rel _)
    · exact .refl f
  | dropConnection =>
    simp only [front, dropConnection]
    split
    · exact (f.flags_rel { f.sh with connStage := .dropping } rfl).trans
        (plainCmd_rel _ _ rfl rfl rfl)
    · exact .refl f
  | closeAcceptBidi => exact f.closeAcceptBidi_rel
  | closeAcceptUni => exact f.closeAcceptUni_rel

/-- **A batch of front-end actions keeps to the relation.** -/
theorem fronts_rel : ∀ (acts : List FrontAct) (f : Face), FrontRel f (acts.foldl front f)
  | [], f => .refl f
  | a :: acts, f => (f.front_rel a).trans (fronts_rel acts (f.front a))

end Face

end QuicheH3
