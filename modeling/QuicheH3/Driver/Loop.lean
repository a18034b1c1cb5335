/-
# The callbacks (`driver.rs`, `impl ApplicationOverQuic`)

Stage (a) applies commands, then come the read pump, the open stage, the writable scan, the
send stage and the close barrier.  `on_conn_close` is the last callback of a connection.  A run
is any sequence of callbacks, changes of the transport between callbacks, and front-end
actions; it may end with the close.
-/
import QuicheH3.Driver.Send

namespace QuicheH3

open Lib

namespace World

variable {σ : Type} (T : QuicConn σ)

/-! ## 1. Stage (a) -/

/-- One command of `apply_inbox`. -/
def applyCommand (w : World σ) (cmd : DriverCommand) : World σ :=
  let w := w.emit (.applied cmd)
  match cmd with
  | .recvResume id => { w with reg := w.reg.enqueueResume id }
  | .acceptBidiResume => w.interleave.setAcceptResume true true
  | .acceptUniResume => w.interleave.setAcceptResume false true
  | .send id buf done permit => w.enqueueSendOp id (.write buf done permit)
  | .finish id done => w.enqueueSendOp id (.finish done)
  | .reset id code => w.applyReset id code
  | .stopSending id code => (w.streamShutdown T id .read code).markRecvDone id
  | .close code reason =>
    if w.ctl.pendingClose.isNone && !w.ctl.explicitCloseAttempted then
      { w with ctl.pendingClose := some (code, reason) }
    else w
  | .connectionDropped => w.cleanUndeliveredPeerStreams T
  | .openBidi reply => { w with openBidi := w.openBidi ++ [reply] }
  | .openUni reply => { w with openUni := w.openUni ++ [reply] }

/-- The next command: `inbox` first, then `cmd_rx.try_recv()`. -/
def nextCommand (w : World σ) : Option DriverCommand × World σ :=
  match w.inbox with
  | cmd :: rest => (some cmd, { w with inbox := rest })
  | [] =>
    let w := w.interleave
    match w.sh.cmdRx with
    | cmd :: rest => (some cmd, { w with sh.cmdRx := rest })
    | [] => (none, w)

def applyLoop : Nat → World σ → World σ
  | 0, w => if w.inbox ≠ [] then { w with ctl.needsIteration := true } else w
  | n + 1, w =>
    match w.nextCommand with
    | (none, w) => w
    | (some cmd, w) => applyLoop n (w.applyCommand T cmd)

/-- `apply_inbox`. -/
def applyInbox (w : World σ) : World σ := applyLoop T cmdBudget w

/-! ## 2. The close barrier -/

/-- The answer of `qconn.close` and what the barrier records of it. -/
def callClose (w : World σ) (code : Nat) (reason : Bytes) (msg : String) : World σ :=
  let ans := T.close w.ctl.qconn true code reason
  let w := { w with ctl.qconn := ans.2, ctl.explicitCloseAttempted := true }.emit
    (.connClose code reason ans.1)
  match ans.1 with
  | .ok () => { w with ctl.localClose := some (code, reason), ctl.gracefulCloseIssued := true }
  | .error .done => { w with ctl.gracefulCloseIssued := true }
  | .error _ => { w with ctl.closeBug := some msg }

/-- `apply_close_barrier`.  The callback fails exactly when it records a `close_bug`. -/
def applyCloseBarrier (w : World σ) : World σ :=
  if w.ctl.explicitCloseAttempted then w
  else
    match w.ctl.pendingClose with
    | some (code, reason) =>
      { w with ctl.pendingClose := none }.callClose T code reason
        "explicit qconn.close returned an unexpected error"
    | none =>
      if w.ctl.lastHandleTeardown && (T.peerError w.ctl.qconn).isNone &&
          (T.localError w.ctl.qconn).isNone && !T.isTimedOut w.ctl.qconn &&
          w.ctl.localClose.isNone then
        w.callClose T h3NoError [] "last-handle qconn.close returned an unexpected error"
      else w

/-! ## 3. The acting callbacks -/

/-- `run_read_pump`. -/
def runReadPump (w : World σ) : World σ :=
  ((((((w.intakeReadable T).drainResumed T).phase1RegisteredDrain T).phase2Admission
    T).promoteParked T true).promoteParked T false)

/-- `do_process_reads`. -/
def doProcessReads (w : World σ) : World σ :=
  { w with
    ctl.needsIteration := false
    ctl.readBudget := readBudgetMax
    ctl.readsRanThisIter := true }.runReadPump T

/-- `has_runnable_remainder`. -/
def hasRunnableRemainder (r : Registry) (sh : Shared) : Bool :=
  !r.pendingResume.queue.isEmpty || !r.pendingReadable.queue.isEmpty ||
  (!r.pendingAdmitBidi.isEmpty && (r.parkedBidi.isEmpty || sh.acceptBidiResume)) ||
  (!r.pendingAdmitUni.isEmpty && (r.parkedUni.isEmpty || sh.acceptUniResume)) ||
  !r.runnableSend.queue.isEmpty ||
  (!r.parkedBidi.isEmpty && sh.acceptBidiResume) ||
  (!r.parkedUni.isEmpty && sh.acceptUniResume)

/-- The iteration start of `do_process_writes` on the no-packet path. -/
def startIteration (w : World σ) : World σ :=
  if w.ctl.readsRanThisIter then w
  else { w with ctl.needsIteration := false, ctl.readBudget := readBudgetMax }

/-- The end of `do_process_writes`: what is left over, and the close barrier. -/
def endIteration (w : World σ) : World σ :=
  let w := { w with ctl.readsRanThisIter := false }.interleave
  { w with
    ctl.needsIteration := w.ctl.needsIteration || hasRunnableRemainder w.reg w.sh
  }.applyCloseBarrier T

/-- `do_process_writes`. -/
def doProcessWrites (w : World σ) : World σ :=
  let noPacket := !w.ctl.readsRanThisIter
  let w := w.startIteration.applyInbox T
  let w := if noPacket then w.runReadPump T else w
  (((w.stageOpen T).stageWritable T).stageSend T).endIteration T

/-! ## 4. `wait_for_data` -/

/-- What `wait_for_data` does: stay pending, yield once, or block on the channel. -/
inductive WaitDecision
  | pending
  | yield
  | recv
  deriving DecidableEq

/-- `wait_decision`. -/
def waitDecision (w : World σ) : WaitDecision :=
  if w.ctl.gracefulCloseIssued then .pending
  else if !w.inbox.isEmpty || w.ctl.needsIteration then .yield
  else .recv

/-- A held write with nothing behind it. -/
def StreamSendState.quiescentHeld (s : StreamSendState) : Bool :=
  s.terminal.isNone && s.held.isSome && s.sendOps.isEmpty

/-- The ids `mark_quiescent_held_writes_runnable` collects. -/
def quiescentHeldIds (r : Registry) : List Nat :=
  (r.send.entries.filter fun x => StreamSendState.quiescentHeld x.2).map (·.1)

/-- `mark_quiescent_held_writes_runnable`. -/
def markQuiescentHeldWritesRunnable (w : World σ) : World σ :=
  let w := { w with reg := (quiescentHeldIds w.reg).foldl Registry.markSendRunnable w.reg }
  if w.reg.runnableSend.queue ≠ [] then { w with ctl.needsIteration := true } else w

/-- One `wait_for_data`, up to its return.  In the branch that awaits the channel it returns
only when a command or the end of the channel is there; otherwise the worker stays suspended. -/
def waitForData (w : World σ) : World σ :=
  match w.waitDecision with
  | .pending => w
  | .yield => w.interleave
  | .recv =>
    let quiescent := !(quiescentHeldIds w.reg).isEmpty
    let w := w.interleave
    match w.sh.cmdRx with
    | cmd :: rest => { w with inbox := w.inbox ++ [cmd], sh.cmdRx := rest }
    | [] =>
      if w.sh.senders = 0 then { w with ctl.lastHandleTeardown := true }
      else if quiescent then w.markQuiescentHeldWritesRunnable
      else w

/-! ## 5. `on_conn_close` -/

/-- `classify_conn_terminal`. -/
def classifyConnTerminal (c : Ctl σ) : ConnTerminal :=
  match c.closeBug with
  | some msg => .internal msg
  | none =>
    match T.peerError c.qconn with
    | some pe => connTerminalFromError .peer pe
    | none =>
      if T.isTimedOut c.qconn then .timeout
      else
        match c.localClose with
        | some (code, reason) => .appClose .locally code reason
        | none =>
          match T.localError c.qconn with
          | some le => connTerminalFromError .locally le
          | none => .internal "connection closed without a recorded terminal"

/-- Publish the terminal of one send entry and take out its operations. -/
def closeSendEntry (t : ConnTerminal) (x : World σ × List SendOp) (id : Nat) :
    World σ × List SendOp :=
  let w := x.1.interleave
  match w.reg.send.lookup id with
  | none => (w, x.2)
  | some s =>
    let w := w.setSendCell s.status (.conn t)
    (w.putSend id
      { s with
        terminal := some (s.terminal.getD (.conn t)), held := none, sendOps := [] },
      x.2 ++ s.sendOps)

/-- `complete_command_on_close`. -/
def completeCommandOnClose (t : ConnTerminal) (w : World σ) (cmd : DriverCommand) : World σ :=
  match cmd with
  | .send _ buf done permit => w.completeOp (.write buf done permit) (.error (.conn t))
  | .finish _ done => w.completeOp (.finish done) (.error (.conn t))
  | .openBidi r => w.replyErr r t
  | .openUni r => w.replyErr r t
  | _ => w

/-- The connection cells. -/
def publishConnTerminal (w : World σ) (t : ConnTerminal) : World σ :=
  let w := w.interleave
  let w := { w with sh.connTerminal := cellSet w.sh.connTerminal t }.interleave
  let w := { w with sh.acceptTerminalBidi := cellSet w.sh.acceptTerminalBidi t }.interleave
  { w with sh.acceptTerminalUni := cellSet w.sh.acceptTerminalUni t }

/-- `for state in self.recv.values()`. -/
def publishRecvs (w : World σ) (t : ConnTerminal) : World σ :=
  (w.reg.recv.keys).foldl (fun w id => w.interleave.publishRecvTerminal id (.conn t)) w

/-- `for state in self.send.values_mut()`, and the completion of what it drained. -/
def publishSends (w : World σ) (t : ConnTerminal) : World σ :=
  let x := (w.reg.send.keys).foldl (closeSendEntry t) (w, [])
  x.1.completeOps x.2 (.error (.conn t))

/-- `cmd_rx.close()` and the drain of the now finite command set. -/
def closeIngress (w : World σ) (t : ConnTerminal) : World σ :=
  let w := w.interleave
  let w := { w with sh.cmdRxClosed := true }
  (w.inbox ++ w.sh.cmdRx).foldl (completeCommandOnClose t)
    { w with inbox := [], sh.cmdRx := [] }

/-- The open requests still queued fail. -/
def failOpens (w : World σ) (t : ConnTerminal) : World σ :=
  (w.openBidi ++ w.openUni).foldl (fun w r => w.replyErr r t)
    { w with openBidi := [], openUni := [] }

/-- `do_on_conn_close`. -/
def doOnConnClose (w : World σ) : World σ :=
  let t := classifyConnTerminal T w.ctl
  ((((w.publishConnTerminal t).publishRecvs t).publishSends t).closeIngress t).failOpens t

/-! ## 6. Runs -/

/-- One step of a run: a callback, the transport changing between callbacks (a packet, a
timer), or a front-end action. -/
inductive Tick (σ : Type)
  | processReads
  | processWrites
  | waitForData
  | transport (c : σ)
  | front (a : FrontAct)

def tick (w : World σ) : Tick σ → World σ
  | .processReads => w.doProcessReads T
  | .processWrites => w.doProcessWrites T
  | .waitForData => w.waitForData
  | .transport c => { w with ctl.qconn := c }
  | .front a => w.front a

/-- The state after a sequence of ticks. -/
def run (w : World σ) (ticks : List (Tick σ)) : World σ := ticks.foldl (tick T) w

/-- A condition on the ticks of a run and on the states they find. -/
def Throughout (C : World σ → Tick σ → Prop) : World σ → List (Tick σ) → Prop
  | _, [] => True
  | w, t :: ticks => C w t ∧ Throughout C (w.tick T t) ticks

instance Throughout.decidable {C : World σ → Tick σ → Prop} [∀ w t, Decidable (C w t)] :
    ∀ w ticks, Decidable (Throughout T C w ticks)
  | _, [] => .isTrue trivial
  | w, t :: ticks => @instDecidableAnd _ _ _ (Throughout.decidable (w.tick T t) ticks)

/-- What every tick keeps that meets the condition holds at the end of the run. -/
theorem Throughout.keeps {C : World σ → Tick σ → Prop} {P : World σ → Prop}
    (hs : ∀ w t, C w t → P w → P (w.tick T t)) {ticks : List (Tick σ)} {w : World σ}
    (ht : Throughout T C w ticks) (h : P w) : P (w.run T ticks) := by
  induction ticks generalizing w with
  | nil => exact h
  | cons t ticks ih => exact ih ht.2 (hs w t ht.1 h)

/-- The states a run of a connection goes through: any role, any sizes of the queues, any send
budget, any transport state, any script of the other tasks, any sequence of ticks. -/
def Reachable (w : World σ) : Prop :=
  ∃ isServer acceptBidiCap acceptUniCap recvChannelDepth cap qconn script ticks,
    w = (withBuffers isServer acceptBidiCap acceptUniCap recvChannelDepth cap qconn script).run T
      ticks

theorem reachable_run (isServer : Bool) (bidiCap uniCap depth : Nat) (cap : Option Nat) (c : σ)
    (script : List (List FrontAct)) (ticks : List (Tick σ)) :
    Reachable T ((withBuffers isServer bidiCap uniCap depth cap c script).run T ticks) :=
  ⟨isServer, bidiCap, uniCap, depth, cap, c, script, ticks, rfl⟩

/-- An invariant holds in every state of every run. -/
theorem Reachable.induct {P : World σ → Prop} {w : World σ} (hw : Reachable T w)
    (h0 : ∀ isServer bidiCap uniCap depth cap c script,
      P (withBuffers isServer bidiCap uniCap depth cap c script))
    (hs : ∀ w t, P w → P (w.tick T t)) : P w := by
  obtain ⟨isServer, bidiCap, uniCap, depth, cap, c, script, ticks, rfl⟩ := hw
  have hrun : ∀ (ticks : List (Tick σ)) (w : World σ), P w → P (w.run T ticks) := by
    intro ticks
    induction ticks with
    | nil => exact fun w h => h
    | cons t ticks ih => exact fun w h => ih _ (hs w t h)
  exact hrun ticks _ (h0 isServer bidiCap uniCap depth cap c script)

/-- The state after a run, the final close, and the front-end actions that still follow. -/
def runClosed (w : World σ) (ticks : List (Tick σ)) (rest : List FrontAct) : World σ :=
  rest.foldl front ((w.run T ticks).doOnConnClose T)

end World

end QuicheH3
