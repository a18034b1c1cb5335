/-
# One pass over the stages for every frame

A result about the flags of the worker, about its budgets or about the accept queues has to get
past some sixty functions that do not concern it.  All of them are put together from a dozen
kinds of update.  `Frame R` says that a relation between worlds is reflexive, transitive and
contains these updates, and this module shows, function by function, that such a relation
contains every stage.  A frame property is then a dozen obligations, and so is an invariant:
`R w w'` may well be `Inv w → Inv w'`.

Opening moves the queues of requests and admission those of undelivered streams, and some
results are about just these.  The updates they need on top are in `OpenFrame` and `AdmitFrame`;
the other stages never ask for them.

The send side, the receive side, the end of a direction and the drain of a stream have frames of
their own, which ask for less (`Driver/Sides.lean`, `Driver/Pump.lean`).  A `Frame` is an instance
of each of them (`sends`, `recvs`, `ends`, `pump`), and what is left here are the stages.

Contents
  1  the two sides, and the end of a direction, 2 transport calls
  3  the read pump, 4 opening, 5 the send stage, 6 the writable scan, 7 commands, 8 admission
  9  whole callbacks
-/
import QuicheH3.Driver.Pump

namespace QuicheH3

open Lib

/-- What the stages do to the registries, one container at a time. -/
inductive Registry.Update (r : Registry) : Registry → Prop
  | recv (m : Map Nat) : r.Update { r with recv := m }
  | send (m : Map StreamSendState) : r.Update { r with send := m }
  | runnable {q : OnceQueue Nat} (hq : r.runnableSend.Use q) : r.Update { r with runnableSend := q }
  | readable {q : OnceQueue Nat} (hq : r.pendingReadable.Use q) :
    r.Update { r with pendingReadable := q }
  | resume {q : OnceQueue Nat} (hq : r.pendingResume.Use q) : r.Update { r with pendingResume := q }
  | admission (m : Map AdmitState) : r.Update { r with admission := m }
  | pendingAdmit (m : Map PeerStream) : r.Update { r with pendingAdmit := m }
  | pushPending (id : Nat) : r.Update (r.pushPendingAdmit id)

namespace World

variable {σ : Type} {T : QuicConn σ}

/-- A relation between worlds that contains what the stages are made of. -/
structure Frame (R : World σ → World σ → Prop) : Prop extends Composes R where
  interleave : ∀ w, R w w.interleave
  qconn : ∀ w c, R w { w with ctl.qconn := c }
  iterate : ∀ w, R w { w with ctl.needsIteration := true }
  emit : ∀ w e, e.isStage → R w (w.emit e)
  /-- A chunk is placed only while there is read budget, and costs one unit of it. -/
  place : ∀ w h chunk, 0 < w.ctl.readBudget →
    R w { w.permitSend h chunk with ctl.readBudget := w.ctl.readBudget - 1 }
  /-- The worker makes halves and writes to them, but takes none from its object. -/
  halves : ∀ w rh nr sh ns re se, (∀ h, (w.sh.recvHalves h).Yields (rh h)) →
    (∀ c, (sh c).holder.Held → (w.sh.sendHalves c).holder.Held) → w.sh.senders ≤ se →
    R w { w with sh := { w.sh with
      recvHalves := rh, nextRecv := nr, sendHalves := sh, nextSend := ns, resident := re
      senders := se } }
  reg : ∀ w r, w.reg.Update r → R w { w with reg := r }

/-- A frame that also contains what opening does to the requests and their answers. -/
structure OpenFrame (R : World σ → World σ → Prop) : Prop extends Frame R where
  reply : ∀ w r x, R w (w.setReply r x)
  dropAnswer : ∀ w ans, R w (w.dropAnswer ans)
  opens : ∀ w ob ou nb nu, R w { w with
    openBidi := ob, openUni := ou, nextBidiId := nb, nextUniId := nu }

namespace Frame

variable {R : World σ → World σ → Prop} (F : Frame R) (w : World σ)

include F

/-! ## 1. The two sides, and the end of a direction -/

theorem sends : SendFrame R where
  toComposes := F.toComposes
  sendEvent w e he := F.emit w e (isStage_of_isSend e he)
  sendHalves w sh ns re se hs hse :=
    F.halves w w.sh.recvHalves w.sh.nextRecv sh ns re se (fun _ => .refl _) hs hse
  sendMap w m := F.reg w _ (.send m)

theorem recvs : RecvFrame R where
  toComposes := F.toComposes
  recvEvent w e he := F.emit w e (isStage_of_isRecvReg e he)
  modRecv w h g hg := by
    obtain ⟨hh, hb⟩ := Prod.mk.inj (hg (w.sh.recvHalves h))
    refine F.halves w _ _ _ _ _ _ (RecvHalf.yields_update ⟨fun h => hh ▸ h, ?_⟩) (fun _ h => h)
      (Nat.le_refl _)
    rw [hb]
  newRecv w _ := F.halves w _ _ _ _ _ _
    (RecvHalf.yields_update ⟨fun h => absurd rfl h.2, List.nil_suffix⟩) (fun _ h => h)
    (Nat.le_succ _)
  recvMap w m := F.reg w _ (.recv m)

theorem readable (q : OnceQueue Nat) (hq : w.reg.pendingReadable.Use q) :
    R w { w with reg.pendingReadable := q } := F.reg w _ (.readable hq)

theorem resume (q : OnceQueue Nat) (hq : w.reg.pendingResume.Use q) :
    R w { w with reg.pendingResume := q } := F.reg w _ (.resume hq)

theorem runnable (q : OnceQueue Nat) (hq : w.reg.runnableSend.Use q) :
    R w { w with reg.runnableSend := q } := F.reg w _ (.runnable hq)

theorem admission (m : Map AdmitState) : R w { w with reg.admission := m } :=
  F.reg w _ (.admission m)

theorem pendingAdmit (m : Map PeerStream) : R w { w with reg.pendingAdmit := m } :=
  F.reg w _ (.pendingAdmit m)

theorem pushPending (id : Nat) : R w { w with reg := w.reg.pushPendingAdmit id } :=
  F.reg w _ (.pushPending id)

theorem dropRecvMemberships (id : Nat) : R w { w with reg := w.reg.dropRecvMemberships id } :=
  F.trans (F.readable w _ (.drop id)) (F.resume _ _ (.drop id))

theorem dropSendMembership (id : Nat) :
    R w { w with reg := w.reg.dropSendMembership id } := F.runnable w _ (.drop id)

theorem markSendRunnable (id : Nat) :
    R w { w with reg := w.reg.markSendRunnable id } := F.runnable w _ (.push id)

theorem requeueReadable (id : Nat) :
    R w { w with reg := w.reg.requeueReadable id } := F.readable w _ (.push id)

theorem ends (id : Nat) : EndFrame R id where
  toComposes := F.toComposes
  eraseAdmit w := F.admission w _
  markAdmit w _ _ := F.admission w _
  dropRecv w := F.recvs.dropRecvEntry w id
  dropSend w := F.sends.dropSendEntry w id
  recvCursors w := F.dropRecvMemberships w id
  sendCursor w := F.dropSendMembership w id
  recvDone w := F.emit w _ trivial
  sendDone w := F.emit w _ trivial
  finished w _ _ := F.sends.putSend w id _

theorem sendTerminalTransition (id : Nat) (e : SendEnd) : R w (w.sendTerminalTransition id e) :=
  F.sends.sendTerminalTransition w (F.ends id).toDoneFrame e

/-! ## 2. Transport calls -/

theorem call (c : σ) (e : Event) (he : e.isStage) :
    R w ({ w with ctl.qconn := c }.emit e) := F.trans (F.qconn w c) (F.emit _ e he)

theorem streamShutdown (id : Nat) (dir : Shutdown) (code : Nat) :
    R w (w.streamShutdown T id dir code) := F.call w _ _ trivial

theorem shutdownPeerDirections (id : Nat) (bidi : Bool) :
    R w (w.shutdownPeerDirections T id bidi) :=
  F.toComposes.shutdownPeerDirections (fun w => F.streamShutdown w id) w bidi

/-! ## 3. The read pump -/

theorem reserve : ReserveFrame R where
  toHalfFrame := F.recvs.toHalfFrame
  interleave := F.interleave
  emit := F.emit

theorem pump (id : Nat) : PumpFrame R id :=
  { F.reserve, F.ends id with
    call := F.call
    place := F.place
    requeueAndIterate := fun w => F.trans (F.requeueReadable w id) (F.iterate _) }

theorem drainResumedLoop : ∀ (n : Nat) (w : World σ),
    R w (drainResumedLoop T n w)
  | 0, w => F.refl w
  | n + 1, w => by
    unfold World.drainResumedLoop
    split
    · exact F.refl w
    · rename_i id rest hp
      have h1 : R w { w with reg.pendingResume := rest } := F.resume w _ (.pop hp)
      dsimp only
      split
      · exact F.trans h1 (drainResumedLoop n _)
      · rename_i h hr
        have h2 := F.trans h1 (F.trans (F.reserve.storeResume _ id false) (F.emit _ (.drain h) trivial))
        have h3 := F.trans h2 (F.trans (F.reserve.storeBlocked _ id false) ((F.pump id).drainStream (T := T) _))
        exact F.trans h3 (drainResumedLoop n _)

theorem drainResumed : R w (w.drainResumed T) :=
  F.drainResumedLoop recvResumeBudget w

theorem phase1Loop : ∀ (n : Nat) (w : World σ), R w (phase1Loop T n w)
  | 0, w => F.refl w
  | n + 1, w => by
    unfold World.phase1Loop
    split
    · split
      · exact F.iterate w
      · exact F.refl w
    · split
      · exact F.refl w
      · rename_i id rest hp
        have h1 : R w { w with reg.pendingReadable := rest } := F.readable w _ (.pop hp)
        dsimp only
        split
        · exact F.trans h1 (phase1Loop n _)
        · rename_i h hr
          have h2 := F.trans h1 (F.trans (F.emit _ (.drain h) trivial)
            ((F.pump id).drainStream (T := T) _))
          exact F.trans h2 (phase1Loop n _)

theorem phase1RegisteredDrain : R w (w.phase1RegisteredDrain T) :=
  F.phase1Loop readableBudget w

theorem intakeOne (id : Nat) : R w (w.intakeOne id) :=
  F.toComposes.intakeOne w (F.requeueReadable w id)
    (F.trans (F.pendingAdmit w (w.reg.pendingAdmit.insert id (.new id))) (F.pushPending _ id))

theorem intakeLoop : ∀ (n : Nat) (w : World σ), R w (intakeLoop T n w)
  | 0, w => F.iterate w
  | n + 1, w => by
    unfold World.intakeLoop
    split
    · exact F.qconn w _
    · rename_i id c hc
      have h1 := F.call w c (.readableNext id (w.reg.readTracked id)) trivial
      exact F.trans h1 (F.trans (F.intakeOne _ id) (intakeLoop n _))

theorem intakeReadable : R w (w.intakeReadable T) :=
  F.intakeLoop discoveryBudget w

/-! ## 4. Opening -/

theorem buildOpen (bidi : Bool) (id : Nat) : R w (w.buildOpen bidi id).2 := by
  cases bidi with
  | true => exact F.trans (F.recvs.buildRecv w id none) (F.sends.buildSend _ id none)
  | false => exact F.sends.buildSend w id none

theorem cleanupUndeliverableOpen (id : Nat) (bidi : Bool) :
    R w (w.cleanupUndeliverableOpen T id bidi) := by
  have h1 := F.trans (F.sends.dropSendEntry w id)
    (F.streamShutdown (T := T) _ id .write h3RequestCancelled)
  cases bidi with
  | true => exact F.trans h1 (F.trans (F.recvs.dropRecvEntry _ id) (F.streamShutdown _ id _ _))
  | false => exact h1

end Frame

namespace OpenFrame

variable {R : World σ → World σ → Prop} (F : OpenFrame R) (w : World σ)

include F

theorem setOpenOf (bidi : Bool) (q : List Nat) : R w (w.setOpenOf bidi q) := by
  cases bidi <;> exact F.opens w _ _ _ _

theorem advanceNextId (bidi : Bool) : R w (w.advanceNextId bidi) := by
  cases bidi <;> exact F.opens w _ _ _ _

theorem replyErr (r : Nat) (t : ConnTerminal) : R w (w.replyErr r t) := by
  unfold World.replyErr
  dsimp only
  split
  · exact F.trans (F.interleave w) (F.trans (F.reply _ r _) (F.emit _ _ trivial))
  · exact F.interleave w

theorem deliver (bidi : Bool) (r id : Nat) (ans : Reply) : R w (w.deliver T bidi r id ans) := by
  unfold World.deliver
  dsimp only
  split
  · exact F.trans (F.interleave w) (F.trans (F.reply _ r ans) (F.emit _ _ trivial))
  · exact F.trans (F.interleave w)
      (F.trans (F.dropAnswer _ ans) (F.cleanupUndeliverableOpen _ id bidi))

theorem materialize (bidi : Bool) (r : Nat) : R w (w.materialize T bidi r) := by
  have h1 : R w (w.streamPriority T (w.nextIdOf bidi) 127 true).2 := F.call w _ _ trivial
  unfold World.materialize
  dsimp only
  rcases hw1 : w.streamPriority T (w.nextIdOf bidi) 127 true with ⟨ok, w1⟩
  rw [hw1] at h1
  cases ok with
  | false => exact F.trans h1 (F.replyErr w1 r _)
  | true =>
    have h2 := F.trans h1 (F.trans (F.advanceNextId w1 bidi)
      (F.buildOpen _ bidi (w.nextIdOf bidi)))
    exact F.trans h2 (F.deliver _ bidi r _ _)

theorem openLoop (bidi : Bool) : ∀ (n : Nat) (w : World σ),
    R w (openLoop T bidi n w)
  | 0, w => by
    unfold World.openLoop
    split
    · exact F.iterate w
    · exact F.refl w
  | n + 1, w => by
    unfold World.openLoop
    split
    · exact F.refl w
    · rename_i r rest hq
      have h1 := F.trans (F.setOpenOf w bidi rest) (F.interleave _)
      dsimp only
      split
      · exact F.trans h1 (openLoop bidi n _)
      · split
        · exact F.trans h1 (F.setOpenOf _ bidi _)
        · have h2 := F.trans h1 (F.interleave _)
          split
          · exact F.trans h2 (F.trans (F.replyErr _ r _) (openLoop bidi n _))
          · exact F.trans h2 (F.trans (F.materialize (T := T) _ bidi r) (openLoop bidi n _))

theorem stageOpen : R w (w.stageOpen T) :=
  F.trans (F.openLoop true openBudget w) (F.openLoop false openBudget _)

end OpenFrame

namespace Frame

variable {R : World σ → World σ → Prop} (F : Frame R) (w : World σ)

include F

/-! ## 5. The send stage -/

theorem enqueueSendOp (id : Nat) (op : SendOp) : R w (w.enqueueSendOp id op) :=
  F.sends.enqueueSendOp w (fun w => F.markSendRunnable w id) op

theorem resetEntry (id code : Nat) : R w (w.resetEntry id code) :=
  F.sends.resetEntry w (fun w => F.markSendRunnable w id) code

theorem applyReset (id code : Nat) : R w (w.applyReset id code) :=
  F.trans (F.sends.ensureSend w id) (F.trans (F.interleave _) (F.resetEntry _ id code))

/-- A send terminal met by a turn. -/
theorem sealSend (id : Nat) (e : SendEnd) : R w (w.interleave.sendTerminalTransition id e) :=
  F.trans (F.interleave w) (F.sendTerminalTransition _ id e)

theorem rearmSend (id : Nat) : R w (w.rearmSend T id).2 := by
  have h1 : R w (w.streamWritable T id rearmThreshold).2 := F.call w _ _ trivial
  unfold World.rearmSend
  rcases hw1 : w.streamWritable T id rearmThreshold with ⟨ans, w1⟩
  rw [hw1] at h1
  split
  · rename_i heq
    cases heq
    exact F.trans h1 (F.sealSend w1 id _)
  · rename_i heq
    cases heq
    exact h1

theorem classifySendErr (id : Nat) (err : QuicheError) : R w (w.classifySendErr T id err).2 := by
  unfold World.classifySendErr
  split
  · exact F.sealSend w id _
  · exact F.rearmSend w id
  · split
    · exact F.sealSend w id _
    · exact F.dropSendMembership w id
  · exact F.sealSend w id _
  · exact F.sealSend w id _

theorem sendFromBuf (id : Nat) (fin : Bool) (buf : WriteBuf) :
    R w (sendFromBuf buf (offer T id fin buf.remaining) w).2.2 := by
  have h1 : R w (offer T id fin buf.remaining buf.chunk w).2 := F.call w _ _ trivial
  unfold QuicheH3.sendFromBuf
  split
  · rcases hw1 : offer T id fin buf.remaining buf.chunk w with ⟨ans, w1⟩
    rw [hw1] at h1
    cases ans <;> exact h1
  · exact F.refl w

theorem flushHeldOnce (id : Nat) (fin : Bool) : R w (w.flushHeldOnce T id fin).2 := by
  unfold World.flushHeldOnce
  split
  · exact F.refl w
  · rename_i s hs
    split
    · exact F.refl w
    · rename_i buf hh
      have h1 := F.sendFromBuf (T := T) w id fin buf
      dsimp only
      rcases hw1 : QuicheH3.sendFromBuf buf (offer T id fin buf.remaining) w with ⟨ans, buf', w1⟩
      rw [hw1] at h1
      cases ans with
      | ok written =>
        dsimp only
        split
        · have h2 := F.trans h1 (F.sends.putSend w1 id { s with held := some buf' })
          split
          · exact h2
          · have h3 := F.trans h2 (F.rearmSend (T := T) _ id)
            rcases hw2 : (w1.putSend id { s with held := some buf' }).rearmSend T id with ⟨o, w2⟩
            rw [hw2] at h3
            cases o <;> exact h3
        · exact F.trans h1 (F.sends.putSend w1 id _)
      | error err =>
        have h2 := F.trans h1 (F.classifySendErr (T := T) w1 id err)
        dsimp only
        rcases hw2 : w1.classifySendErr T id err with ⟨o, w2⟩
        rw [hw2] at h2
        cases o <;> exact h2

theorem writeTurn (id : Nat) : R w (w.writeTurn T id).2 := by
  unfold World.writeTurn
  split
  · exact F.refl w
  · rename_i s hs
    split
    · rename_i buf done permit ops ho
      have h1 : R w (w.streamCapacity T id).2 := F.call w _ _ trivial
      rcases hw1 : w.streamCapacity T id with ⟨ans, w1⟩
      rw [hw1] at h1
      cases ans with
      | error err => exact F.trans h1 (F.classifySendErr w1 id err)
      | ok cap =>
        dsimp only
        split
        · exact F.trans h1 (F.trans (F.sends.completeOp w1 _ _) (F.sends.putSend _ id _))
        · have h2 := F.trans h1 (F.sendFromBuf (T := T) w1 id false buf)
          rcases hw2 : QuicheH3.sendFromBuf buf (offer T id false buf.remaining) w1 with
            ⟨ans, buf', w2⟩
          rw [hw2] at h2
          cases ans with
          | error err => exact F.trans h2 (F.classifySendErr w2 id err)
          | ok written =>
            dsimp only
            split
            · have h3 := F.trans h2 (F.sends.putSend w2 id
                { s with sendOps := .write buf' done permit :: ops })
              split
              · exact h3
              · exact F.trans h3 (F.rearmSend _ id)
            · have h3 := F.trans h2 (F.sends.putSend w2 id { s with sendOps := ops })
              exact F.trans h3 (F.sends.completeOp _ (.write buf' done permit) (.ok ()))
    · exact F.refl w

theorem serviceWriteTurn (id : Nat) : R w (w.serviceWriteTurn T id).2 := by
  unfold World.serviceWriteTurn
  split
  · exact F.refl w
  · split
    · have h1 := F.flushHeldOnce (T := T) w id false
      rcases hw1 : w.flushHeldOnce T id false with ⟨o, w1⟩
      rw [hw1] at h1
      cases o with
      | complete => exact F.trans h1 (F.writeTurn w1 id)
      | _ => exact h1
    · exact F.writeTurn w id

theorem completeFinishOp (id : Nat) : R w (w.completeFinishOp id) :=
  F.sends.completeFinishOp w (F.ends id)

theorem serviceFinishTurn (id : Nat) : R w (w.serviceFinishTurn T id).2 := by
  unfold World.serviceFinishTurn
  split
  · exact F.refl w
  · split
    · have h1 := F.flushHeldOnce (T := T) w id true
      rcases hw1 : w.flushHeldOnce T id true with ⟨o, w1⟩
      rw [hw1] at h1
      cases o with
      | complete => exact F.trans h1 (F.completeFinishOp w1 id)
      | _ => exact h1
    · have h1 : R w (w.streamSend T id [] true).2 := F.call w _ _ trivial
      rcases hw1 : w.streamSend T id [] true with ⟨ans, w1⟩
      rw [hw1] at h1
      cases ans with
      | ok n => exact F.trans h1 (F.completeFinishOp w1 id)
      | error err => exact F.trans h1 (F.classifySendErr w1 id err)

theorem serviceSendTurn (id : Nat) : R w (w.serviceSendTurn T id).2 := by
  unfold World.serviceSendTurn
  split
  · exact F.refl w
  · rename_i s hs
    split
    · rename_i code hp
      have h1 := F.trans (F.sends.putSend w id { s with pendingReset := none })
        (F.streamShutdown (T := T) _ id .write code)
      exact F.trans h1 ((F.ends id).markSendDone _)
    · split
      · exact F.refl w
      · split
        · split
          · have h1 := F.flushHeldOnce (T := T) w id false
            rcases hw1 : w.flushHeldOnce T id false with ⟨o, w1⟩
            rw [hw1] at h1
            cases o <;> exact h1
          · exact F.refl w
        · exact F.serviceWriteTurn w id
        · exact F.serviceFinishTurn w id

theorem sendLoop : ∀ (n : Nat) (w : World σ), R w (sendLoop T n w)
  | 0, w => by
    unfold World.sendLoop
    split
    · exact F.iterate w
    · exact F.refl w
  | n + 1, w => by
    unfold World.sendLoop
    split
    · exact F.refl w
    · rename_i id rest hp
      have h0 : R w { w with reg.runnableSend := rest } := F.runnable w _ (.pop hp)
      have h1 := F.trans h0 (F.emit _ (.turn id) trivial)
      have h2 := F.serviceSendTurn (T := T) ({ w with reg.runnableSend := rest }.emit (.turn id)) id
      dsimp only
      split
      · rename_i w1 hx
        rw [hx] at h2
        have h3 := F.trans h2 (F.trans (F.markSendRunnable w1 id) (F.iterate _))
        exact F.trans h1 (F.trans h3 (sendLoop n _))
      · rename_i w1 _ hx
        rw [hx] at h2
        exact F.trans h1 (F.trans h2 (sendLoop n w1))

theorem stageSend : R w (w.stageSend T) := F.sendLoop writeBudget w

/-! ## 6. The writable scan -/

theorem writableRegistered (id : Nat) : R w (w.writableRegistered T id) := by
  have h1 : R w (w.streamCapacity T id).2 := F.call w _ _ trivial
  unfold World.writableRegistered
  rcases hw1 : w.streamCapacity T id with ⟨ans, w1⟩
  rw [hw1] at h1
  dsimp only
  split
  · exact h1
  · split
    · split
      · exact h1
      · exact F.trans h1 (F.sealSend w1 id _)
    · split
      · exact F.trans h1 (F.markSendRunnable w1 id)
      · exact h1

theorem writableDiscover (id : Nat) : R w (w.writableDiscover T id) := by
  have h1 : R w (w.streamCapacity T id).2 := F.call w _ _ trivial
  unfold World.writableDiscover
  rcases hw1 : w.streamCapacity T id with ⟨ans, w1⟩
  rw [hw1] at h1
  dsimp only
  split
  · exact F.trans h1 (F.pendingAdmit w1 _)
  · split
    · exact F.trans h1 (F.admission w1 _)
    · have h2 := F.trans h1 (F.pendingAdmit w1 (w1.reg.pendingAdmit.insert id
        { PeerStream.new id with pendingSendTerminal := stoppedOf ans }))
      exact F.trans h2 (F.trans (F.pushPending _ id) (F.iterate _))

theorem writableOne (id : Nat) : R w (w.writableOne T id) := by
  unfold World.writableOne
  split
  · exact F.writableRegistered w id
  · split
    · exact F.refl w
    · split
      · exact F.refl w
      · exact F.writableDiscover w id

theorem writableLoop : ∀ (n : Nat) (w : World σ), R w (writableLoop T n w)
  | 0, w => F.iterate w
  | n + 1, w => by
    unfold World.writableLoop
    split
    · exact F.qconn w _
    · rename_i id c hc
      have h1 := F.call w c (.writableNext id (w.reg.writeTracked id)) trivial
      exact F.trans h1 (F.trans (F.writableOne _ id) (writableLoop n _))

theorem stageWritable : R w (w.stageWritable T) :=
  F.writableLoop writableBudget w

end Frame

/-! ## 7. Commands -/

/-- Commands whose application is more than stage work: they stage a close, set a resume bit or
clean the queues of undelivered streams. -/
def DriverCommand.isSpecial : DriverCommand → Bool
  | .close _ _ | .acceptBidiResume | .acceptUniResume | .connectionDropped => true
  | _ => false

namespace OpenFrame

variable {R : World σ → World σ → Prop} (F : OpenFrame R) (w : World σ)

include F

theorem applyCommand (cmd : DriverCommand)
    (hs : DriverCommand.isSpecial cmd = false) (he : R w (w.emit (.applied cmd))) :
    R w (w.applyCommand T cmd) := by
  refine F.trans he ?_
  cases cmd with
  | openBidi | openUni => exact F.opens _ _ _ _ _
  | send id | finish id => exact F.enqueueSendOp _ id _
  | reset id code => exact F.applyReset _ id code
  | stopSending id code => exact F.trans (F.streamShutdown _ id _ _) ((F.ends id).markRecvDone _)
  | recvResume id => exact F.resume _ _ (.push id)
  | _ => cases hs

end OpenFrame

namespace Frame

variable {R : World σ → World σ → Prop} (F : Frame R) (w : World σ)

include F

/-- The loop of stage (a), for a relation that also contains the steps of its own. -/
theorem applyLoop (hpop : ∀ w cmd, w.nextCommand.1 = some cmd →
      R w (w.nextCommand.2.applyCommand T cmd)) (hinbox : ∀ w, w.inbox = [] →
      R w w.nextCommand.2) : ∀ (n : Nat) (w : World σ), R w (applyLoop T n w)
  | 0, w => by
    unfold World.applyLoop
    split
    · exact F.iterate w
    · exact F.refl w
  | n + 1, w => by
    unfold World.applyLoop
    split
    · rename_i w1 hx
      have hw1 : w1 = w.nextCommand.2 := by rw [hx]
      have h0 : w.inbox = [] := by
        unfold nextCommand at hx
        split at hx
        · cases hx
        · assumption
      rw [hw1]
      exact hinbox w h0
    · rename_i cmd w1 hx
      have h1 := hpop w cmd (by rw [hx])
      rw [hx] at h1
      exact F.trans h1 (applyLoop hpop hinbox n _)

end Frame

/-! ## 8. Admission -/

/-- A frame that also contains what admission does to the queues of undelivered streams. -/
structure TakeFrame (R : World σ → World σ → Prop) : Prop extends OpenFrame R where
  pending : ∀ w bidi q, R w { w with reg := setPendingOf w.reg bidi q }
  parked : ∀ w bidi q, R w { w with reg := setParkedOf w.reg bidi q }
  acceptFlag : ∀ w bidi b, R w (w.setAcceptResume bidi b)

/-- A frame that also contains the hand-over of a stream. -/
structure AdmitFrame (R : World σ → World σ → Prop) : Prop extends TakeFrame R where
  handBidi : ∀ w id x, R w (w.pushAcceptBidi id x)
  handUni : ∀ w id h, R w (w.pushAcceptUni id h)

namespace TakeFrame

variable {R : World σ → World σ → Prop} (F : TakeFrame R) (w : World σ)

include F

theorem parkPeer (bidi front : Bool) (id : Nat) (peer : PeerStream) :
    R w (w.parkPeer bidi front id peer) := by
  refine F.trans (F.admission w (w.reg.admission.insert id (.parked peer))) ?_
  exact F.parked _ bidi _

theorem cleanParked (id : Nat) : R w (w.cleanParked T id) := by
  unfold World.cleanParked
  split
  · exact F.trans (F.shutdownPeerDirections (T := T) w id _) (F.admission _ _)
  · exact F.refl w

theorem cleanPending (id : Nat) : R w (w.cleanPending T id) := by
  unfold World.cleanPending
  split
  · exact F.trans (F.pendingAdmit w (w.reg.pendingAdmit.erase id)) (F.shutdownPeerDirections _ id _)
  · exact F.refl w

theorem cleanUndeliveredPeerStreams : R w (w.cleanUndeliveredPeerStreams T) := by
  have h1 := F.trans (F.parked w true []) (F.parked _ false [])
  have h2 := F.trans h1 (F.foldl _ (F.cleanParked (T := T)) (w.reg.parkedBidi ++ w.reg.parkedUni) _)
  have h3 := F.trans h2 (F.trans (F.pending _ true []) (F.pending _ false []))
  exact F.trans h3 (F.foldl _ (F.cleanPending (T := T)) _ _)

end TakeFrame

namespace AdmitFrame

variable {R : World σ → World σ → Prop} (F : AdmitFrame R) (w : World σ)

include F

theorem registerBidi (peer : PeerStream) : R w (w.registerBidi peer) := by
  have h1 := F.trans (F.recvs.buildRecv w peer.id peer.pendingRecvTerminal)
    (F.sends.buildSend _ peer.id peer.pendingSendTerminal)
  have h2 := F.trans h1 (F.admission _ ((((w.buildRecv peer.id peer.pendingRecvTerminal).2.buildSend
    peer.id peer.pendingSendTerminal).2.reg.admission).insert peer.id
      (.registered peer.pendingSendTerminal.isSome peer.pendingRecvTerminal.isSome)))
  exact F.trans h2 (F.trans (F.interleave _) (F.handBidi _ _ _))

theorem registerUni (peer : PeerStream) : R w (w.registerUni peer) := by
  have h1 := F.recvs.buildRecv w peer.id peer.pendingRecvTerminal
  have h2 := F.trans h1 (F.admission _ ((w.buildRecv peer.id
    peer.pendingRecvTerminal).2.reg.admission.insert
    peer.id (.registered true peer.pendingRecvTerminal.isSome)))
  exact F.trans h2 (F.trans (F.interleave _) (F.handUni _ _ _))

theorem admitOne (peer : PeerStream) : R w (w.admitOne T peer).2 := by
  have h1 := F.interleave w
  have h2 := F.trans h1 (F.interleave _)
  have htear (w1 : World σ) (b : Bool) (h : R w w1) :
      R w (w1.shutdownPeerDirections T peer.id b) := F.trans h (F.shutdownPeerDirections w1 _ b)
  unfold World.admitOne
  dsimp only
  split
  · split
    · exact htear _ true h1
    · split
      · exact h1
      · split
        · exact htear _ true h2
        · exact F.trans h2 (F.trans (F.registerBidi _ peer) ((F.pump peer.id).admitFinish (T := T) _))
  · split
    · exact htear _ false h1
    · split
      · exact h1
      · split
        · exact htear _ false h2
        · exact F.trans h2 (F.trans (F.registerUni _ peer) ((F.pump peer.id).admitFinish (T := T) _))

theorem phase2Loop : ∀ (fuel budget : Nat) (b u p : Bool) (w : World σ),
    R w (phase2Loop T fuel budget b u p w)
  | 0, _, _, _, _, w => F.refl w
  | fuel + 1, budget, b, u, p, w => by
    unfold World.phase2Loop
    split
    · exact F.refl w
    · dsimp only
      split
      · generalize (if (!b && !w.reg.pendingAdmitBidi.isEmpty) &&
          (!u && !w.reg.pendingAdmitUni.isEmpty) then p
          else !b && !w.reg.pendingAdmitBidi.isEmpty) = bidi
        split
        · exact F.refl w
        · rename_i id rest hq
          have h1 := F.pending w bidi rest
          have h2 := F.trans h1
            (F.pendingAdmit _ ((setPendingOf w.reg bidi rest).pendingAdmit.erase id))
          split
          · exact F.trans h2 (phase2Loop fuel _ _ _ _ _)
          · split
            · exact F.trans h1 (phase2Loop fuel _ _ _ _ _)
            · rename_i peer hp
              have h3 := F.trans h2 (F.admitOne (T := T) _ peer)
              split
              · rename_i w1 hx
                rw [hx] at h3
                exact F.trans h3 (phase2Loop fuel _ _ _ _ w1)
              · rename_i peer1 w1 hx
                rw [hx] at h3
                exact F.trans h3 (F.trans (F.parkPeer w1 bidi false id peer1)
                  (phase2Loop fuel _ _ _ _ _))
              · rename_i w1 hx
                rw [hx] at h3
                exact F.trans h3 (phase2Loop fuel _ _ _ _ w1)
      · exact F.refl w

theorem phase2Admission : R w (w.phase2Admission T) :=
  F.phase2Loop _ _ _ _ _ w

theorem promoteLoop (bidi : Bool) : ∀ (n : Nat) (w : World σ),
    R w (promoteLoop T bidi n w)
  | 0, w => F.refl w
  | n + 1, w => by
    unfold World.promoteLoop
    split
    · exact F.refl w
    · rename_i id rest hq
      have h1 := F.parked w bidi rest
      dsimp only
      split
      · rename_i peer hp
        have h2 := F.trans (F.trans h1 (F.admission _
          ((setParkedOf w.reg bidi rest).admission.erase id)))
          (F.admitOne (T := T) _ peer)
        split
        · rename_i w1 hx
          rw [hx] at h2
          exact F.trans h2 (promoteLoop bidi n w1)
        · rename_i peer1 w1 hx
          rw [hx] at h2
          exact F.trans h2 (F.parkPeer w1 bidi true id peer1)
        · rename_i w1 hx
          rw [hx] at h2
          exact h2
      · exact F.trans h1 (promoteLoop bidi n _)

theorem promoteParked (bidi : Bool) : R w (w.promoteParked T bidi) := by
  unfold World.promoteParked
  dsimp only
  split
  · refine F.trans ?_ (F.promoteLoop bidi promoteBudget _)
    exact F.trans (F.interleave w) (F.trans (F.interleave _) (F.acceptFlag _ bidi false))
  · exact F.interleave w

theorem runReadPump : R w (w.runReadPump T) := by
  have h1 := F.trans (F.intakeReadable (T := T) w) (F.drainResumed (T := T) _)
  have h2 := F.trans h1 (F.phase1RegisteredDrain (T := T) _)
  have h3 := F.trans h2 (F.phase2Admission (T := T) _)
  exact F.trans h3 (F.trans (F.promoteParked _ true) (F.promoteParked _ false))

/-- A larger preorder is a frame too. -/
theorem mono {R' : World σ → World σ → Prop} (hle : ∀ {w w'}, R w w' → R' w w')
    (htrans : ∀ {w w' w''}, R' w w' → R' w' w'' → R' w w'') : AdmitFrame R' where
  refl w := hle (F.refl w)
  trans := htrans
  interleave w := hle (F.interleave w)
  qconn w c := hle (F.qconn w c)
  iterate w := hle (F.iterate w)
  emit w e he := hle (F.emit w e he)
  place w h chunk hb := hle (F.place w h chunk hb)
  halves w rh nr sh ns re se hr hs hn := hle (F.halves w rh nr sh ns re se hr hs hn)
  reply w r x := hle (F.reply w r x)
  dropAnswer w ans := hle (F.dropAnswer w ans)
  reg w r hr := hle (F.reg w r hr)
  opens w ob ou nb nu := hle (F.opens w ob ou nb nu)
  pending w bidi q := hle (F.pending w bidi q)
  parked w bidi q := hle (F.parked w bidi q)
  acceptFlag w bidi b := hle (F.acceptFlag w bidi b)
  handBidi w id x := hle (F.handBidi w id x)
  handUni w id h := hle (F.handUni w id h)

/-- The commands that are more than stage work, all but `Close`. -/
theorem applyCommand (cmd : DriverCommand)
    (hc : ∀ code reason, cmd ≠ .close code reason) (he : R w (w.emit (.applied cmd))) :
    R w (w.applyCommand T cmd) := by
  cases cmd with
  | close code reason => exact absurd rfl (hc code reason)
  | acceptBidiResume =>
    exact F.trans he (F.trans (F.interleave _) (F.acceptFlag _ true true))
  | acceptUniResume =>
    exact F.trans he (F.trans (F.interleave _) (F.acceptFlag _ false true))
  | connectionDropped => exact F.trans he (F.cleanUndeliveredPeerStreams _)
  | _ => exact F.toOpenFrame.applyCommand w _ rfl he

end AdmitFrame

/-! ## 9. Whole callbacks -/

/-- A frame that contains every update of a callback, and the front end's own steps. -/
structure RunFrame (R : World σ → World σ → Prop) : Prop extends AdmitFrame R where
  ctl : ∀ w c, R w { w with ctl := c }
  record : ∀ w e, R w (w.emit e)
  commands : ∀ w i q, R w { w with inbox := i, sh.cmdRx := q }
  front : ∀ w a, R w (w.front a)

namespace RunFrame

variable {R : World σ → World σ → Prop} (F : RunFrame R) (w : World σ)

include F

theorem nextCommand : R w w.nextCommand.2 := by
  unfold World.nextCommand
  split
  · exact F.commands w _ w.sh.cmdRx
  · dsimp only
    split
    · exact F.trans (F.interleave w) (F.commands _ w.inbox _)
    · exact F.interleave w

theorem applyCommand (cmd : DriverCommand) : R w (w.applyCommand T cmd) := by
  cases cmd with
  | close code reason =>
    refine F.trans (F.record w (.applied (.close code reason))) ?_
    unfold World.applyCommand
    dsimp only
    split
    · exact F.ctl _ _
    · exact F.refl _
  | _ => exact F.toAdmitFrame.applyCommand w _ (fun _ _ h => nomatch h) (F.record w _)

theorem applyInbox : R w (w.applyInbox T) :=
  F.applyLoop (fun w cmd _ => F.trans (F.nextCommand w) (F.applyCommand _ cmd))
    (fun w _ => F.nextCommand w) cmdBudget w

theorem callClose (code : Nat) (reason : Bytes) (msg : String) :
    R w (w.callClose T code reason msg) := by
  have h1 := F.trans (F.ctl w { w.ctl with
    qconn := (T.close w.ctl.qconn true code reason).2, explicitCloseAttempted := true })
    (F.record _ (.connClose code reason (T.close w.ctl.qconn true code reason).1))
  unfold World.callClose
  dsimp only
  split <;> exact F.trans h1 (F.ctl _ _)

theorem applyCloseBarrier : R w (w.applyCloseBarrier T) := by
  unfold World.applyCloseBarrier
  split
  · exact F.refl w
  · split
    · exact F.trans (F.ctl w _) (F.callClose _ _ _ _)
    · split
      · exact F.callClose w _ _ _
      · exact F.refl w

theorem doProcessReads : R w (w.doProcessReads T) :=
  F.trans (F.ctl w _) (F.runReadPump _)

theorem doProcessWrites : R w (w.doProcessWrites T) := by
  have h0 : R w w.startIteration := by
    unfold World.startIteration
    split
    · exact F.refl w
    · exact F.ctl w _
  have h1 := F.trans h0 (F.applyInbox (T := T) _)
  have h2 : R w (if !w.ctl.readsRanThisIter then
      (w.startIteration.applyInbox T).runReadPump T else w.startIteration.applyInbox T) := by
    split
    · exact F.trans h1 (F.runReadPump _)
    · exact h1
  have h3 := F.trans h2 (F.trans (F.stageOpen (T := T) _) (F.stageWritable (T := T) _))
  have h4 := F.trans h3 (F.stageSend (T := T) _)
  refine F.trans h4 ?_
  refine F.trans ?_ (F.applyCloseBarrier _)
  exact F.trans (F.ctl _ _) (F.trans (F.interleave _) (F.ctl _ _))

theorem waitForData : R w w.waitForData := by
  unfold World.waitForData
  split
  · exact F.refl w
  · exact F.interleave w
  · dsimp only
    split
    · exact F.trans (F.interleave w) (F.commands _ _ _)
    · split
      · exact F.trans (F.interleave w) (F.ctl _ _)
      · split
        · refine F.trans (F.interleave w) ?_
          unfold markQuiescentHeldWritesRunnable
          have hm : ∀ (l : List Nat) (w : World σ),
              R w { w with reg := l.foldl Registry.markSendRunnable w.reg } := by
            intro l
            induction l with
            | nil => exact F.refl
            | cons id l ih => exact fun w => F.trans (F.markSendRunnable w id) (ih _)
          dsimp only
          split
          · exact F.trans (hm _ _) (F.iterate _)
          · exact hm _ _
        · exact F.interleave w

theorem tick (t : Tick σ) : R w (w.tick T t) := by
  cases t with
  | processReads => exact F.doProcessReads w
  | processWrites => exact F.doProcessWrites w
  | waitForData => exact F.waitForData w
  | transport c => exact F.qconn w c
  | front a => exact F.front w a

end RunFrame

theorem cmdSend_grows (f : Face) (cmd : DriverCommand) :
    Grows Event.isFront f.trace (f.cmdSend cmd).trace := by
  unfold Face.cmdSend
  split
  · exact .refl _ _
  · exact .one trivial

theorem dropSendHandoff_grows (f : Face) (c : Nat) :
    Grows Event.isFront f.trace (f.dropSendHandoff c).trace := by
  have h1 : Grows Event.isFront f.trace
      ((f.modSend c fun s => { s with holder := .gone }).emit (.sendDropped c)).trace :=
    .one trivial
  exact h1.trans (cmdSend_grows _ _)

theorem dropRecvHandoff_grows (f : Face) (h : Nat) :
    Grows Event.isFront f.trace (f.dropRecvHandoff h).trace := by
  have h1 : Grows Event.isFront f.trace
      ((f.modRecv h fun r => { r with holder := .gone, bytes := [] }).emit
        (.recvDropped h)).trace :=
    .one trivial
  exact h1.trans (cmdSend_grows _ _)

/-- An undelivered answer is dropped by the front end's own drop glue. -/
theorem dropAnswer_grows (w : World σ) (ans : Reply) :
    Grows Event.isFront w.trace (w.dropAnswer ans).trace := by
  cases ans with
  | bidi h c => exact (dropSendHandoff_grows w.toFace c).trans (dropRecvHandoff_grows _ h)
  | uni c => exact dropSendHandoff_grows w.toFace c
  | _ => exact .refl _ _

/-- The history only grows. -/
theorem suffix_frame : RunFrame fun w w' : World σ => w.trace <:+ w'.trace where
  refl _ := List.suffix_rfl
  trans h h' := h.trans h'
  interleave w := (Face.fronts_rel (w.ctl.script.headD []) w.toFace).grows.suffix
  qconn _ _ := List.suffix_rfl
  iterate _ := List.suffix_rfl
  emit _ _ _ := List.suffix_cons _ _
  place _ _ _ _ := List.suffix_cons _ _
  halves _ _ _ _ _ _ _ _ _ _ := List.suffix_rfl
  reg _ _ _ := List.suffix_rfl
  reply _ _ _ := List.suffix_rfl
  dropAnswer w ans := (dropAnswer_grows w ans).suffix
  opens _ _ _ _ _ := List.suffix_rfl
  pending _ _ _ := List.suffix_rfl
  parked _ _ _ := List.suffix_rfl
  acceptFlag _ bidi _ := by cases bidi <;> exact List.suffix_rfl
  handBidi _ _ _ := List.suffix_cons _ _
  handUni _ _ _ := List.suffix_cons _ _
  ctl _ _ := List.suffix_rfl
  record _ _ := List.suffix_cons _ _
  commands _ _ _ := List.suffix_rfl
  front w a := (w.toFace.front_rel a).grows.suffix

end World

end QuicheH3
