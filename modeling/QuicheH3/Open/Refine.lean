/-
# The driver makes the moves of the open machine

`oview` is what the open machine sees of a world.  Almost everything the worker does is inner
work, of which the machine only sees the history grow (`Inner`); the rest is the front end, the
application of a command, and the service of a request.

The refinement holds for every step of every run, with the other tasks interleaved, so what
`Open/Order.lean` and `Open/Slots.lean` prove about the machine is about the driver: requests are
served in the order they were applied, and each is answered once.

Contents
  1  inner work, 2 the moves
  3  the steps
  4  local ids: the counters at the start
-/
import QuicheH3.Open.Machine
import QuicheH3.Driver.Sides

namespace QuicheH3

open Lib

theorem isInner_of_isSend (e : Event) (h : e.isSend) : e.isInner := by
  cases e <;> trivial

theorem isInner_of_isRecvReg (e : Event) (h : e.isRecvReg) : e.isInner := by
  cases e <;> trivial

theorem isInner_of_isProbe (e : Event) (h : e.isProbe) : e.isInner := by
  cases e with
  | streamPriority id ok =>
    cases ok
    · trivial
    · exact h.elim
  | _ => trivial

namespace World

variable {σ : Type} {T : QuicConn σ} {w w' w'' : World σ}

/-- What the open machine sees. -/
def oview (w : World σ) : OpenView where
  queue b := w.openOf b
  cmds := w.inbox ++ w.sh.cmdRx
  replies := w.sh.replies
  nextReply := w.sh.nextReply
  nextId b := w.nextIdOf b
  srv := w.isServer
  closed := w.sh.cmdRxClosed
  hist := w.trace

/-! ## 1. Inner work -/

/-- Requests, replies, commands and counters stay. -/
structure Inner (w w' : World σ) : Prop where
  view : w'.oview = { w.oview with hist := w'.trace }
  grows : Grows Event.isInner w.trace w'.trace

namespace Inner

theorem refl (w : World σ) : Inner w w := ⟨rfl, .refl _ _⟩

theorem trans (h : Inner w w') (h' : Inner w' w'') : Inner w w'' := by
  refine ⟨?_, h.grows.trans h'.grows⟩
  rw [h'.view, h.view]

theorem same (h : w'.oview = w.oview) : Inner w w' := by
  have ht : w'.trace = w.trace := congrArg OpenView.hist h
  refine ⟨?_, ht ▸ .refl _ _⟩
  rw [h, ht]
  rfl

theorem emit (w : World σ) (e : Event) (he : e.isInner) : Inner w (w.emit e) :=
  ⟨rfl, .one he⟩

end Inner

theorem SendSide.inner (h : SendSide w w') : Inner w w' := by
  refine ⟨?_, h.grows.mono isInner_of_isSend⟩
  rw [h.eq]
  rfl

theorem RecvSide.inner (h : RecvSide w w') : Inner w w' := by
  refine ⟨?_, h.grows.mono isInner_of_isRecvReg⟩
  rw [h.eq]
  rfl

theorem inner_frame : SideFrame (Inner (σ := σ)) where
  refl := .refl
  trans := .trans
  eraseAdmit _ _ := .same rfl
  erasePending _ _ := .same rfl
  parked _ _ _ := .same rfl
  pending _ _ _ := .same rfl
  shutdown _ _ _ _ _ := ⟨rfl, .one trivial⟩
  markAdmit _ _ _ _ := .same rfl
  dropRecv w id := (recvSides.dropRecvEntry w id).inner
  recvCursors _ _ := .same rfl
  recvDone w _ := .emit w _ trivial
  sendSide := SendSide.inner

theorem buildPeerBidi_inner (w : World σ) (peer : PeerStream) :
    Inner w (w.buildPeerBidi peer).2 := by
  have h1 := (recvSides.buildRecv w peer.id peer.pendingRecvTerminal).inner
  have h2 := h1.trans (sendSides.buildSend _ peer.id peer.pendingSendTerminal).inner
  exact h2.trans (.same rfl)

theorem buildPeerUni_inner (w : World σ) (peer : PeerStream) :
    Inner w (w.buildPeerUni peer).2 := by
  have h1 := (recvSides.buildRecv w peer.id peer.pendingRecvTerminal).inner
  exact h1.trans (.same rfl)

theorem buildOpen_inner (w : World σ) (bidi : Bool) (id : Nat) :
    Inner w (w.buildOpen bidi id).2 := by
  cases bidi with
  | true =>
    have h1 := (recvSides.buildRecv w id none).inner
    exact h1.trans (sendSides.buildSend _ id none).inner
  | false => exact (sendSides.buildSend w id none).inner

theorem noteShutdown_inner (w : World σ) (id : Nat) (bidi : Bool) :
    Inner w (w.noteShutdown id bidi) := inner_frame.noteShutdown (fun w _ => .emit w _ trivial) w bidi

theorem intakeOne_inner (w : World σ) (id : Nat) : Inner w (w.intakeOne id) :=
  inner_frame.intakeOne w (.same rfl) (.same rfl)

theorem placeChunk_inner (w : World σ) (h : Nat) (chunk : Bytes) :
    Inner w (w.placeChunk h chunk) := by
  unfold placeChunk
  split <;> exact ⟨rfl, .one trivial⟩

/-! ## 2. The moves -/

/-- The open machine moves. -/
abbrev OpenMoves (w w' : World σ) : Prop := w.oview.Moves w'.oview

theorem Inner.moves (h : Inner w w') : OpenMoves w w' := by
  unfold OpenMoves
  rw [h.view]
  exact .single (.inner _ _ h.grows)

theorem FrontRel.oview {f : Face} (hr : FrontRel w.toFace f) :
    OpenView.Front w.oview ({ w with toFace := f } : World σ).oview := by
  obtain ⟨cs, hcs⟩ := hr.appends
  refine
    { queue := rfl, nextId := rfl, srv := rfl, closed := hr.closed, grows := hr.grows
      nextReply := hr.nextReply, reply := hr.reply, newReply := hr.newReply
      freeReply := hr.freeReply, appends := ⟨cs, ?_, hcs.record, hcs.replies, hcs.reply_mem⟩ }
  change w.inbox ++ f.sh.cmdRx = w.inbox ++ w.sh.cmdRx ++ cs
  rw [hcs.queue, List.append_assoc]

theorem front_openMoves {f : Face} (hr : FrontRel w.toFace f) :
    OpenMoves w { w with toFace := f } := .single (.front _ _ (FrontRel.oview hr))

theorem setOpenOf_queue (w : World σ) (b : Bool) (q : List Nat) :
    (w.setOpenOf b q).oview = { w.oview with queue := Function.update w.oview.queue b q } := by
  have h1 : ∀ c, (w.setOpenOf b q).openOf c = Function.update w.oview.queue b q c := by
    intro c
    cases b <;> cases c <;> rfl
  simp only [oview, h1]
  cases b <;> rfl

/-- The halves of a new local stream: inner work after the counter has moved. -/
theorem opened_oview (w : World σ) (b : Bool) (rest : List Nat) :
    (w.opened b rest).2.oview = w.oview.serve b rest (w.opened b rest).2.trace ∧
    Grows Event.isInner (.streamPriority (w.nextIdOf b) true :: w.trace)
      (w.opened b rest).2.trace := by
  have h1 := buildOpen_inner (((w.setOpenOf b rest).emit
    (.streamPriority (w.nextIdOf b) true)).advanceNextId b) b (w.nextIdOf b)
  have h2 : (((w.setOpenOf b rest).emit
      (.streamPriority (w.nextIdOf b) true)).advanceNextId b).trace =
      .streamPriority (w.nextIdOf b) true :: w.trace := by
    cases b <;> rfl
  have h3 : ∀ c, (((w.setOpenOf b rest).emit
      (.streamPriority (w.nextIdOf b) true)).advanceNextId b).openOf c =
      Function.update w.oview.queue b rest c := by
    intro c
    cases b <;> cases c <;> rfl
  have h4 : ∀ c, (((w.setOpenOf b rest).emit
      (.streamPriority (w.nextIdOf b) true)).advanceNextId b).nextIdOf c =
      Function.update w.oview.nextId b (wrappingAdd4 (w.nextIdOf b)) c := by
    intro c
    cases b <;> cases c <;> rfl
  refine ⟨?_, h2 ▸ h1.grows⟩
  refine h1.view.trans ?_
  simp only [oview, h3, h4]
  cases b <;> rfl

/-- One command, which asks for no answer, enters the channel after an event of the front end. -/
theorem sendOne_openMoves {f : Face} (cmd : DriverCommand) (e : Event) (hr : cmd.reply = none)
    (he : e.isFront) (hes : submitted (e :: w.trace) = submitted w.trace)
    (hs : f.sh.replies = w.sh.replies) (hn : f.sh.nextReply = w.sh.nextReply)
    (hc : f.sh.cmdRxClosed = w.sh.cmdRxClosed)
    (hf : f.sh.cmdRx = (if w.sh.cmdRxClosed then w.sh.cmdRx else w.sh.cmdRx ++ [cmd]))
    (ht : f.trace = if w.sh.cmdRxClosed then e :: w.trace else .submit cmd :: e :: w.trace) :
    OpenMoves w { w with toFace := f } := by
  have hrep :
      ∀ r, ReplyLe (w.oview.replies r) (({ w with toFace := f } : World σ).oview.replies r) :=
    fun r => .inl (congrFun hs r).symm
  refine .single (.front _ _ ⟨rfl, rfl, rfl, hc, ?_, hn.ge, fun r _ => hrep r,
    fun r h1 h2 => absurd (lt_of_lt_of_eq h2 hn) (not_lt.mpr h1), fun h r hr => ?_, ?_⟩)
  · change Grows _ w.trace f.trace
    rw [ht]
    split
    · exact .one he
    · exact .cons trivial (.one he)
  · change f.sh.replies r = _
    rw [hs]
    exact h r (hn.ge.trans hr)
  · refine ⟨if w.sh.cmdRxClosed then [] else [cmd], ?_, ?_, ?_, fun r => ?_⟩
    · change w.inbox ++ f.sh.cmdRx = w.inbox ++ w.sh.cmdRx ++ _
      rw [hf]
      split <;> simp
    · change submitted f.trace = _ ++ submitted w.trace
      rw [ht, ← hes]
      split <;> rfl
    · split <;> simp [hr]
    · change _ ↔ w.sh.nextReply ≤ r ∧ r < f.sh.nextReply
      rw [hn]
      split <;> simp [hr]

theorem dropSendHandoff_openMoves (w : World σ) (c : Nat) :
    OpenMoves w { w with toFace := w.toFace.dropSendHandoff c } := by
  refine sendOne_openMoves (.finish (w.sh.sendHalves c).id w.sh.nextTok) (.sendDropped c) rfl
    trivial
    rfl ?_ ?_ ?_ ?_ ?_ <;>
  · cases hc : w.sh.cmdRxClosed <;>
      simp [Face.dropSendHandoff, Face.dropSender, Face.cmdSendFinish, Face.cmdSend, Face.emit,
        Face.modSend, hc]

theorem dropRecvHandoff_openMoves (w : World σ) (h : Nat) :
    OpenMoves w { w with toFace := w.toFace.dropRecvHandoff h } := by
  refine sendOne_openMoves (.stopSending (w.sh.recvHalves h).id 0) (.recvDropped h) rfl trivial
    rfl ?_ ?_ ?_ ?_ ?_ <;>
  · cases hc : w.sh.cmdRxClosed <;>
      simp [Face.dropRecvHandoff, Face.dropSender, Face.cmdSend, Face.emit, Face.modRecv, hc]

theorem dropAnswer_openMoves (w : World σ) (ans : Reply) : OpenMoves w (w.dropAnswer ans) := by
  cases ans with
  | bidi h c =>
    have h1 := dropSendHandoff_openMoves w c
    exact h1.trans (dropRecvHandoff_openMoves { w with toFace := w.toFace.dropSendHandoff c } h)
  | uni c => exact dropSendHandoff_openMoves w c
  | _ => exact .refl

theorem undeliver_openMoves (w : World σ) (b : Bool) (id : Nat) (ans : Reply) :
    OpenMoves w (w.undeliver b id ans) := by
  have h1 := dropAnswer_openMoves w ans
  have h2 := (sendSides.dropSendEntry (w.dropAnswer ans) id).inner.trans
    (.emit _ (.streamShutdown id .write h3RequestCancelled) trivial)
  cases b with
  | true =>
    have h3 := h2.trans (recvSides.dropRecvEntry _ id).inner
    exact h1.trans (h3.trans (.emit _ (.streamShutdown id .read h3RequestCancelled) trivial)).moves
  | false => exact h1.trans h2.moves

theorem buildRecv_made (w : World σ) (id : Nat) :
    .recvOpen id (w.buildRecv id none).1 ∈ (w.buildRecv id none).2.trace := List.mem_cons_self

theorem buildSend_made (w : World σ) (id : Nat) (retained : Option SendEnd) :
    .handle id (w.buildSend id retained).1 ∈ (w.buildSend id retained).2.trace := by
  cases retained with
  | some e => exact (sendSides.setSendCell _ _ e).grows.mem List.mem_cons_self
  | none => exact (sendSides.insertSend _ id _).grows.mem List.mem_cons_self

/-- The answer to a served request carries the halves of the stream just opened. -/
theorem opened_made (w : World σ) (b : Bool) (rest : List Nat) :
    Made (w.nextIdOf b) (w.opened b rest).2.trace (w.opened b rest).1 := by
  cases b with
  | true =>
    refine ⟨?_, buildSend_made _ _ none⟩
    exact (sendSides.buildSend _ _ none).grows.mem (buildRecv_made _ _)
  | false => exact buildSend_made _ _ none

/-- A command is taken up. -/
theorem apply_openMoves {cmd : DriverCommand} (hp : w.Popped cmd w') :
    OpenMoves w (w'.applyNow T cmd) := by
  -- the record and the queues of requests first, then inner work
  have hpop : w.oview.Move { w.oview with
      cmds := w'.inbox ++ w'.sh.cmdRx, hist := .applied cmd :: w.trace
      queue := fun b => w.oview.queue b ++ OpenView.requests b cmd } := by
    refine .pop _ cmd _ ?_
    cases hp with
    | inbox h => simp [oview, h]
    | channel h0 h => simp [oview, h0, h]
  have hw : w'.oview = { w.oview with cmds := w'.inbox ++ w'.sh.cmdRx } ∧ w'.trace = w.trace := by
    cases hp <;> exact ⟨rfl, rfl⟩
  -- every command but the two open requests leaves the queues alone
  have hrest : (∀ b, OpenView.requests b cmd = []) →
      Inner (w'.emit (.applied cmd)) (w'.applyNow T cmd) → OpenMoves w (w'.applyNow T cmd) := by
    intro hq hi
    refine Relation.ReflTransGen.head hpop ?_
    have h1 : ({ w.oview with
        cmds := w'.inbox ++ w'.sh.cmdRx, hist := .applied cmd :: w.trace
        queue := fun b => w.oview.queue b ++ OpenView.requests b cmd } : OpenView) =
        (w'.emit (.applied cmd)).oview := by
      have h2 : (w'.emit (.applied cmd)).oview =
          { w'.oview with hist := .applied cmd :: w'.trace } := rfl
      rw [h2, hw.1, hw.2]
      simp only [hq, List.append_nil]
    rw [h1]
    exact hi.moves
  cases cmd with
  | openBidi r =>
    refine Eq.mp (congrArg (Relation.ReflTransGen _ _) ?_) (Relation.ReflTransGen.single hpop)
    have h2 : (w'.applyNow T (.openBidi r)).oview = { w'.oview with
        hist := .applied (.openBidi r) :: w'.trace
        queue := fun b => w'.oview.queue b ++ OpenView.requests b (.openBidi r) } := by
      have h3 : ∀ b, (w'.applyNow T (.openBidi r)).openOf b =
          w'.openOf b ++ OpenView.requests b (.openBidi r) := by
        intro b
        cases b <;> simp [applyNow, openOf, OpenView.requests, emit]
      simp only [oview, h3]
      rfl
    rw [h2, hw.1, hw.2]
  | openUni r =>
    refine Eq.mp (congrArg (Relation.ReflTransGen _ _) ?_) (Relation.ReflTransGen.single hpop)
    have h2 : (w'.applyNow T (.openUni r)).oview = { w'.oview with
        hist := .applied (.openUni r) :: w'.trace
        queue := fun b => w'.oview.queue b ++ OpenView.requests b (.openUni r) } := by
      have h3 : ∀ b, (w'.applyNow T (.openUni r)).openOf b =
          w'.openOf b ++ OpenView.requests b (.openUni r) := by
        intro b
        cases b <;> simp [applyNow, openOf, OpenView.requests, emit]
      simp only [oview, h3]
      rfl
    rw [h2, hw.1, hw.2]
  | send id | finish id => exact hrest (fun _ => rfl) (sendSide_enqueueSendOp _ id _).inner
  | reset id code => exact hrest (fun _ => rfl) (sendSides.ensureSend _ id).inner
  | stopSending id code =>
    refine hrest (fun _ => rfl) (Inner.trans ?_ ((inner_frame.ends id).markRecvDone _))
    exact .emit _ (.streamShutdown id .read code) trivial
  | connectionDropped => exact hrest (fun _ => rfl) (inner_frame.cleanUndeliveredPeerStreams _)
  | recvResume id => exact hrest (fun _ => rfl) (.same rfl)
  | _ => exact hrest (fun _ => rfl) (.refl _)

/-! ## 3. The steps -/

theorem take_inner {b : Bool} {id : Nat} {p : PeerStream} {r : Registry}
    (_ht : Take w.reg b id p r) : Inner w { w with reg := r } := .same rfl

/-- **Every step is a sequence of moves of the open machine.** -/
theorem openMoves_step (hs : Step T w w') : OpenMoves w w' := by
  cases hs with
  | front a => exact front_openMoves (Face.front_rel w.toFace a)
  | probe e he => exact (Inner.emit w e (isInner_of_isProbe e he)).moves
  | readable id =>
    have h1 : Inner w (w.emit (.readableNext id (w.reg.readTracked id))) := .emit _ _ trivial
    exact (h1.trans (intakeOne_inner _ id)).moves
  | readErr id h err hr hp =>
    have h1 : Inner w (w.emit (.streamRecv id (.error err))) := .emit _ _ trivial
    have h2 : Inner (w.emit (.streamRecv id (.error err)))
      ((w.emit (.streamRecv id (.error err))).permitDrop h) := ⟨rfl, .one trivial⟩
    exact (h1.trans h2).moves
  | readOk id h chunk fin hr hp =>
    have h1 : Inner w (w.emit (.streamRecv id (.ok (chunk, fin)))) := .emit _ _ trivial
    exact (h1.trans (placeChunk_inner _ h chunk)).moves
  | park id h acts hr hl w1 hw1 hf =>
    subst hw1
    have h1 : Inner w (w.modRecv h fun r => { r with blocked := true }) := .same rfl
    have h2 := h1.moves.trans (front_openMoves (Face.fronts_rel acts _))
    exact h2.trans (Inner.emit _ (.parkFull h) trivial).moves
  | recvEnd id h e hr hf =>
    exact ((recvSides.setRecvCell w h e).inner.trans ((inner_frame.ends id).markRecvDone _)).moves
  | abandon id h hr hg =>
    have h1 : Inner w (w.emit (.streamShutdown id .read h3NoError)) := .emit _ _ trivial
    exact (h1.trans ((inner_frame.ends id).markRecvDone _)).moves
  | admitBidi b id peer r acts ht hb =>
    have h1 := (take_inner ht).trans (buildPeerBidi_inner { w with reg := r } peer)
    have h2 := h1.moves.trans (front_openMoves (Face.fronts_rel acts _))
    exact h2.trans (Inner.moves ⟨rfl, .one trivial⟩)
  | admitUni b id peer r acts ht hb =>
    have h1 := (take_inner ht).trans (buildPeerUni_inner { w with reg := r } peer)
    have h2 := h1.moves.trans (front_openMoves (Face.fronts_rel acts _))
    exact h2.trans (Inner.moves ⟨rfl, .one trivial⟩)
  | tear b id peer r ht =>
    exact ((take_inner ht).trans (noteShutdown_inner { w with reg := r } _ _)).moves
  | settle id => exact ((inner_frame.ends id).terminalTransition w).moves
  | acceptFlag b x => cases b <;> exact (Inner.same rfl).moves
  | skipOpen b r rest hq hw =>
    refine .single ?_
    rw [setOpenOf_queue]
    exact .skip _ b r rest hq hw
  | failOpen b r rest t hq hw =>
    refine .single ?_
    have h1 := setOpenOf_queue w b rest
    have h2 : (((w.setOpenOf b rest).setReply r (.failed t)).emit (.answer r (some t))).oview =
        { w.oview with
          queue := Function.update w.oview.queue b rest
          replies := Function.update w.oview.replies r (.failed t)
          hist := .answer r (some t) :: w.trace } := by
      have h3 : (((w.setOpenOf b rest).setReply r (.failed t)).emit (.answer r (some t))).oview =
          { (w.setOpenOf b rest).oview with
            replies := Function.update (w.setOpenOf b rest).oview.replies r (.failed t)
            hist := .answer r (some t) :: (w.setOpenOf b rest).oview.hist } := rfl
      rw [h3, h1]
      rfl
    rw [h2]
    exact .fail _ b r rest t hq hw
  | openDeliver b r rest acts hq w1 hw1 hw =>
    obtain ⟨h1, h2⟩ := opened_oview w b rest
    have h3 := FrontRel.oview (Face.fronts_rel acts (w.opened b rest).2.toFace)
    have h4 : OpenView.Front (w.oview.serve b rest (w.opened b rest).2.trace) w1.oview := by
      rw [← h1, hw1]
      exact h3
    exact .single (.deliver _ b r rest _ _ _ hq h2 h4 hw (opened_made w b rest))
  | openUndeliver b r rest acts c hq w1 hw1 hw =>
    obtain ⟨h1, h2⟩ := opened_oview w b rest
    have h3 := FrontRel.oview (Face.fronts_rel acts (w.opened b rest).2.toFace)
    have h4 : OpenView.Front (w.oview.serve b rest (w.opened b rest).2.trace) w1.oview := by
      rw [← h1, hw1]
      exact h3
    exact Relation.ReflTransGen.head (.lapse _ b r rest _ _ hq h2 h4 hw)
      (undeliver_openMoves w1 b _ _)
  | discover id ans hu =>
    have h1 := (Inner.emit w (.writableNext id false) trivial).trans
      (.emit _ (.streamCapacity id ans) trivial)
    exact (h1.trans (.same rfl)).moves
  | popRunnable id rest hp hn =>
    have h1 : Inner w { w with reg.runnableSend := rest } := .same rfl
    exact (h1.trans (.emit _ (.turn id) trivial)).moves
  | flushFin id s buf n t ops c hl hh hr ho hn hm =>
    have h1 : Inner w ((w.emit (.streamSend id buf.offered (buf.offerFin true) (.ok n))).putSend id
      { s with held := none }) := ⟨rfl, .one trivial⟩
    exact (h1.trans (inner_frame.completeFinishOp _ id)).moves
  | emptyFin id s buf t ops hl hh hr ho =>
    exact ((sendSides.putSend w id _).inner.trans (inner_frame.completeFinishOp _ id)).moves
  | loneFin id s n t ops c hl hh ho hn =>
    have h1 : Inner w (w.emit (.streamSend id [] true (.ok n))) := .emit _ _ trivial
    exact (h1.trans (inner_frame.completeFinishOp _ id)).moves
  | hold id s buf t permit ops hl hh ho hr =>
    exact ((sendSides.completeOp w _ _).trans (sendSides.putSend _ id _)).inner.moves
  | accept id s buf t permit ops n c hl hh ho hr hn hm =>
    have h1 : Inner w (w.emit (.streamSend id buf.offered false (.ok n))) := .emit _ _ trivial
    exact (h1.trans ((sendSides.putSend _ id _).trans (sendSides.completeOp _ _ _)).inner).moves
  | skipWrite id s buf t permit ops hl hh ho hr =>
    exact ((sendSides.putSend w id _).trans (sendSides.completeOp _ _ _)).inner.moves
  | sendEnd id s e hl => exact (inner_frame.sendTerminalTransition w id e).moves
  | resetTurn id code s rest hq hs hp =>
    have h0 : Inner w { w with reg.runnableSend := rest } := .same rfl
    have h1 := (h0.trans (.emit _ (.turn id) trivial)).trans
      (sendSides.putSend _ id { s with pendingReset := none }).inner
    exact ((h1.trans (.emit _ (.streamShutdown id .write code) trivial)).trans
      ((inner_frame.ends id).markSendDone _)).moves
  | apply w1 cmd hp => exact apply_openMoves hp
  | resetEntry id code ha => exact (sendSide_resetEntry w id code).inner.moves
  | toInbox cmd rest hc =>
    refine (Inner.same ?_).moves
    simp only [oview, hc, List.append_assoc, List.singleton_append]
    rfl
  | _ => exact Inner.moves ⟨rfl, by first | exact .refl _ _ | exact .one trivial⟩

theorem openMoves_steps (hs : Steps T w w') : OpenMoves w w' := by
  induction hs with
  | refl => exact .refl
  | tail _ hs ih => exact ih.trans (openMoves_step hs)

/-! ## 4. Local ids -/

theorem counters_withBuffers (isServer : Bool) (bidiCap uniCap depth : Nat) (cap : Option Nat)
    (c : σ) (script : List (List FrontAct)) :
    Counters (withBuffers isServer bidiCap uniCap depth cap c script).oview where
  cls b := by
    cases isServer <;> cases b <;>
      simp [oview, nextIdOf, withBuffers, isBidi_eq, serverInitiated_eq]
  loc id h := by cases h
  fresh _ id h := by cases h
  once _ := trivial

theorem isServer_steps (hs : Steps T w w') : w'.isServer = w.isServer :=
  (openMoves_steps hs).fixed.1

end World

end QuicheH3
