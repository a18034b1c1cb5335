/-
# A frame contains every step

`Frame.lean` takes a relation through the code function by function; the invariants of this
development are proved step by step.  The two meet here: a relation that contains the updates a
callback is made of contains every atomic step, and so every sequence of steps.  An invariant that
most steps do not concern is then a handful of obligations, and it holds in the MIDDLE of a
callback as well as between two of them.

The hand-over of a peer stream is the one update that speaks of the stream it moves: what is put
into the accept queue are the halves just made for it.  A result about the accept queues looks at
that step itself, and `PlainFrame` has all the others.
-/
import QuicheH3.Driver.Frame
import QuicheH3.Driver.Steps

namespace QuicheH3

open Lib

namespace World

variable {σ : Type} {T : QuicConn σ}

/-- A peer stream is taken, its halves are made, and they are put into the accept queue of its
class. -/
inductive HandsOver (w : World σ) : World σ → Prop
  | bidi (b : Bool) (id : Nat) (peer : PeerStream) (r : Registry) (acts : List FrontAct)
      (ht : Take w.reg b id peer r) (hb : isBidi peer.id = true) :
      HandsOver w ((({ w with reg := r }.buildPeerBidi peer).2.fronts acts).pushAcceptBidi peer.id
        ({ w with reg := r }.buildPeerBidi peer).1)
  | uni (b : Bool) (id : Nat) (peer : PeerStream) (r : Registry) (acts : List FrontAct)
      (ht : Take w.reg b id peer r) (hb : isBidi peer.id = false) :
      HandsOver w ((({ w with reg := r }.buildPeerUni peer).2.fronts acts).pushAcceptUni peer.id
        ({ w with reg := r }.buildPeerUni peer).1)

/-- A frame that contains every update of a step but the hand-over. -/
structure PlainFrame (R : World σ → World σ → Prop) : Prop extends TakeFrame R where
  ctl : ∀ w c, R w { w with ctl := c }
  probe : ∀ w e, e.isProbe → R w (w.emit e)
  applied : ∀ w cmd, R w (w.emit (.applied cmd))
  commands : ∀ w i q, R w { w with inbox := i, sh.cmdRx := q }
  fronts : ∀ w acts, R w (w.fronts acts)

/-- A frame that contains every update of a step. -/
structure StepFrame (R : World σ → World σ → Prop) : Prop extends AdmitFrame R where
  ctl : ∀ w c, R w { w with ctl := c }
  probe : ∀ w e, e.isProbe → R w (w.emit e)
  applied : ∀ w cmd, R w (w.emit (.applied cmd))
  commands : ∀ w i q, R w { w with inbox := i, sh.cmdRx := q }
  fronts : ∀ w acts, R w (w.fronts acts)

namespace PlainFrame

variable {R : World σ → World σ → Prop} (F : PlainFrame R) (w : World σ)

include F

/-- Budgets are no matter for a single step: a chunk may be placed at any time. -/
theorem permitSend (h : Nat) (chunk : Bytes) : R w (w.permitSend h chunk) := by
  have h1 := F.ctl w { w.ctl with readBudget := 1 }
  have h2 := F.place { w with ctl.readBudget := 1 } h chunk Nat.one_pos
  exact F.trans h1 (F.trans h2 (F.ctl _ w.ctl))

theorem placeChunk (h : Nat) (chunk : Bytes) : R w (w.placeChunk h chunk) := by
  unfold World.placeChunk
  split
  · exact F.permitSend w h chunk
  · exact F.reserve.permitDrop w h

theorem noteShutdown (id : Nat) (bidi : Bool) : R w (w.noteShutdown id bidi) :=
  F.toComposes.noteShutdown (fun w _ => F.emit w _ trivial) w bidi

theorem take {w : World σ} {bidi : Bool} {id : Nat} {peer : PeerStream}
    {r : Registry} (ht : Take w.reg bidi id peer r) : R w { w with reg := r } := by
  cases ht with
  | pending hq ha hr hp =>
    rename_i rest
    exact F.trans (F.pending w bidi rest)
      (F.pendingAdmit _ ((setPendingOf w.reg bidi rest).pendingAdmit.erase id))
  | parked hq ha =>
    rename_i rest
    exact F.trans (F.parked w bidi rest)
      (F.admission _ ((setParkedOf w.reg bidi rest).admission.erase id))

theorem popped {w w' : World σ} {cmd : DriverCommand} (hp : w.Popped cmd w') : R w w' := by
  cases hp with
  | inbox h =>
    rename_i rest
    exact F.commands w rest w.sh.cmdRx
  | channel h0 h =>
    rename_i rest
    exact F.commands w w.inbox rest

theorem applyNow (cmd : DriverCommand) : R w (w.applyNow T cmd) := by
  have h1 := F.applied w cmd
  cases cmd with
  | recvResume id =>
    exact F.trans h1 (F.resume _ _ (.push id))
  | send id | finish id => exact F.trans h1 (F.enqueueSendOp _ id _)
  | reset id code => exact F.trans h1 (F.sends.ensureSend _ id)
  | stopSending id code =>
    exact F.trans h1 (F.trans (F.emit _ (.streamShutdown id .read code) trivial)
      ((F.ends id).markRecvDone _))
  | connectionDropped => exact F.trans h1 (F.cleanUndeliveredPeerStreams _)
  | openBidi | openUni => exact F.trans h1 (F.opens _ _ _ _ _)
  | _ => exact h1

theorem opened (bidi : Bool) (rest : List Nat) : R w (w.opened bidi rest).2 := by
  have h1 := F.trans (F.setOpenOf w bidi rest)
    (F.emit _ (.streamPriority (w.nextIdOf bidi) true) trivial)
  exact F.trans (F.trans h1 (F.advanceNextId _ bidi)) (F.buildOpen _ bidi _)

theorem undeliver (bidi : Bool) (id : Nat) (ans : Reply) : R w (w.undeliver bidi id ans) := by
  have h1 := F.trans (F.dropAnswer w ans) (F.sends.dropSendEntry _ id)
  have h2 := F.trans h1 (F.emit _ (.streamShutdown id .write h3RequestCancelled) trivial)
  unfold World.undeliver
  dsimp only
  split
  · exact F.trans h2 (F.trans (F.recvs.dropRecvEntry _ id)
      (F.emit _ (.streamShutdown id .read h3RequestCancelled) trivial))
  · exact h2

theorem buildPeerBidi (peer : PeerStream) : R w (w.buildPeerBidi peer).2 := by
  have h1 := F.trans (F.recvs.buildRecv w peer.id peer.pendingRecvTerminal)
    (F.sends.buildSend _ peer.id peer.pendingSendTerminal)
  exact F.trans h1 (F.admission _ _)

theorem buildPeerUni (peer : PeerStream) : R w (w.buildPeerUni peer).2 :=
  F.trans (F.recvs.buildRecv w peer.id peer.pendingRecvTerminal) (F.admission _ _)

/-- **Every step** but the hand-over of a stream. -/
theorem step {w w' : World σ} (hs : Step T w w') (hn : ¬ HandsOver w w') : R w w' := by
  cases hs with
  | front a => exact F.fronts w [a]
  | ctl c => exact F.ctl w c
  | probe e he => exact F.probe w e he
  | readable id => exact F.trans (F.emit w _ (by trivial)) (F.intakeOne _ id)
  | requeue id h hr => exact F.requeueReadable w id
  | popResume id h rest hp hr =>
    exact F.trans (F.resume w rest (.pop hp)) (F.trans (F.recvs.modRecv _ h _ fun _ => by rfl)
      (F.emit _ (.drain h) trivial))
  | skipResume id rest hp hr => exact F.resume w rest (.pop hp)
  | popReadable id h rest hp hr =>
    exact F.trans (F.readable w rest (.pop hp)) (F.emit _ (.drain h) trivial)
  | skipReadable id rest hp hr => exact F.readable w rest (.pop hp)
  | drain id h hr => exact F.emit w (.drain h) trivial
  | reserve id h hr hg hf =>
    exact F.trans (F.recvs.modRecv w h _ fun _ => by rfl) (F.emit _ (.reserve h) trivial)
  | setBlocked id h b hr hl => exact F.recvs.modRecv w h _ fun _ => rfl
  | park id h acts hr hl w1 hw hf =>
    subst hw
    exact F.trans (F.recvs.modRecv w h _ fun _ => by rfl)
      (F.trans (F.fronts _ acts) (F.emit _ _ (by trivial)))
  | readErr id h err hr hp => exact F.trans (F.emit w _ (by trivial)) (F.reserve.permitDrop _ h)
  | readOk id h chunk fin hr hp => exact F.trans (F.emit w _ (by trivial)) (F.placeChunk _ h chunk)
  | recvEnd id h e hr hf => exact F.trans (F.recvs.setRecvCell w h e) ((F.ends id).markRecvDone _)
  | abandon id h hr hg => exact F.trans (F.emit w _ (by trivial)) ((F.ends id).markRecvDone _)
  | forgetRecv id h hr hl => exact F.dropRecvMemberships w id
  | stalePending bidi id rest hq hs =>
    exact F.trans (F.pending w bidi rest) (F.pendingAdmit _ _)
  | lostPending bidi id rest hq hp => exact F.pending w bidi rest
  | skipParked bidi id rest hq ha => exact F.parked w bidi rest
  | admitBidi bidi id peer r acts ht hb => exact absurd (.bidi bidi id peer r acts ht hb) hn
  | admitUni bidi id peer r acts ht hb => exact absurd (.uni bidi id peer r acts ht hb) hn
  | repark bidi front id peer r ht => exact F.trans (F.take ht) (F.parkPeer _ bidi front id peer)
  | tear bidi id peer r ht => exact F.trans (F.take ht) (F.noteShutdown _ peer.id _)
  | settle id => exact (F.ends id).terminalTransition w
  | acceptFlag bidi b => exact F.acceptFlag w bidi b
  | skipOpen bidi r rest hq hw => exact F.setOpenOf w bidi rest
  | failOpen bidi r rest t hq hw =>
    exact F.trans (F.setOpenOf w bidi rest) (F.trans (F.reply _ r _) (F.emit _ _ (by trivial)))
  | openDeliver bidi r rest acts hq w1 hw1 hw =>
    subst hw1
    have h1 := F.trans (F.opened w bidi rest) (F.fronts _ acts)
    exact F.trans h1 (F.trans (F.reply _ r _) (F.emit _ _ (by trivial)))
  | openUndeliver bidi r rest acts c hq w1 hw1 hw =>
    subst hw1
    have h1 := F.trans (F.opened w bidi rest) (F.trans (F.fronts _ acts) (F.ctl _ c))
    exact F.trans h1 (F.undeliver _ bidi _ _)
  | discover id ans hu =>
    have h1 := F.trans (F.emit w (.writableNext id false) trivial)
      (F.emit _ (.streamCapacity id ans) trivial)
    have h2 := F.trans h1 (F.pendingAdmit _ (w.reg.pendingAdmit.insert id
      { PeerStream.new id with pendingSendTerminal := stoppedOf ans }))
    exact F.trans h2 (F.pushPending _ id)
  | mergePending id ans peer hs hp => exact F.trans (F.emit w _ (by trivial)) (F.pendingAdmit _ _)
  | mergeParked id ans peer hs ha => exact F.trans (F.emit w _ (by trivial)) (F.admission _ _)
  | capacity | sendErr => exact F.emit w _ (by trivial)
  | markRunnable id hs => exact F.markSendRunnable w id
  | popRunnable id rest hp hn =>
    exact F.trans (F.runnable w rest (.pop hp)) (F.emit _ _ (by trivial))
  | flush id | offer id => exact F.trans (F.emit w _ (by trivial)) (F.sends.putSend _ id _)
  | flushFin id s buf n t ops c hl hh hr ho hn hm =>
    exact F.trans (F.emit w _ (by trivial)) (F.trans (F.sends.putSend _ id _)
      (F.completeFinishOp _ id))
  | emptyHeld id s buf hl hh hr => exact F.sends.putSend w id _
  | emptyFin id s buf t ops hl hh hr ho =>
    exact F.trans (F.sends.putSend w id _) (F.completeFinishOp _ id)
  | loneFin id s n t ops c hl hh ho hn =>
    exact F.trans (F.emit w _ (by trivial)) (F.completeFinishOp _ id)
  | hold id s buf t permit ops hl hh ho hr =>
    exact F.trans (F.sends.completeOp w _ _) (F.sends.putSend _ id _)
  | accept id s buf t permit ops n c hl hh ho hr hn hm =>
    exact F.trans (F.emit w _ (by trivial)) (F.trans (F.sends.putSend _ id _)
      (F.sends.completeOp _ _ _))
  | skipWrite id s buf t permit ops hl hh ho hr =>
    exact F.trans (F.sends.putSend w id _) (F.sends.completeOp _ _ _)
  | sendEnd id s e hl => exact F.sendTerminalTransition w id e
  | resetTurn id code s rest hq hs hp =>
    have h1 := F.trans (F.runnable w rest (.pop hq)) (F.emit _ (.turn id) trivial)
    have h2 := F.trans h1 (F.sends.putSend _ id { s with pendingReset := none })
    exact F.trans h2 (F.trans (F.emit _ _ (by trivial)) ((F.ends id).markSendDone _))
  | apply w1 cmd hp => exact F.trans (F.popped hp) (F.applyNow w1 cmd)
  | resetEntry id code ha => exact F.resetEntry w id code
  | toInbox cmd rest hc => exact F.commands w _ rest

end PlainFrame

namespace StepFrame

variable {R : World σ → World σ → Prop} (F : StepFrame R)

include F

theorem toPlain : PlainFrame R := { F with }

/-- **Every step.** -/
theorem step {w w' : World σ} (hs : Step T w w') : R w w' := by
  by_cases hn : HandsOver w w'
  · cases hn with
    | bidi b id peer r acts ht hb =>
      have h1 := F.trans (F.toPlain.take ht) (F.toPlain.buildPeerBidi _ peer)
      exact F.trans h1 (F.trans (F.fronts _ acts) (F.handBidi _ peer.id _))
    | uni b id peer r acts ht hb =>
      have h1 := F.trans (F.toPlain.take ht) (F.toPlain.buildPeerUni _ peer)
      exact F.trans h1 (F.trans (F.fronts _ acts) (F.handUni _ peer.id _))
  · exact F.toPlain.step hs hn

theorem steps {w w' : World σ} (hs : Steps T w w') : R w w' := by
  induction hs with
  | refl => exact F.refl w
  | tail _ hstep ih => exact F.trans ih (F.step hstep)

end StepFrame

end World

end QuicheH3
