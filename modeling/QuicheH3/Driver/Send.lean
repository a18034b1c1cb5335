/-
# The send side (`driver.rs`)

Enqueueing operations, resets, the writable scan (stage d) and the round-robin send stage
(stage e) with its three kinds of turn: a held write, a write, a finish.
-/
import QuicheH3.Driver.Open

namespace QuicheH3

open Lib

namespace World

variable {σ : Type}

/-! ## 1. Commands that reach the send queue -/

/-- `enqueue_send_op`. -/
def enqueueSendOp (w : World σ) (id : Nat) (op : SendOp) : World σ :=
  let w := w.ensureSend id
  match w.reg.send.lookup id with
  | none => w
  | some s =>
    match s.terminal with
    | some e => w.completeOp op (.error e)
    | none =>
      let w := w.putSend id { s with sendOps := s.sendOps ++ [op] }
      { w with reg := w.reg.markSendRunnable id }

/-- `apply_reset` once the entry is there: the first terminal wins, every queued operation
completes with it, the reset waits for its turn. -/
def resetEntry (w : World σ) (id code : Nat) : World σ :=
  match w.reg.send.lookup id with
  | none => w
  | some s =>
    if s.pendingReset.isSome || s.terminal.isSome then w
    else
      let w := w.setSendCell s.status (.reset code)
      let w := w.putSend id
        { s with
          pendingReset := some code, terminal := some (.reset code), sendOps := [], held := none }
      let w := w.completeOps s.sendOps (.error (.reset code))
      { w with reg := w.reg.markSendRunnable id }

/-- `apply_reset`. -/
def applyReset (w : World σ) (id code : Nat) : World σ :=
  (w.ensureSend id).interleave.resetEntry id code

/-! ## 2. Turn outcomes -/

/-- `TurnOutcome`. -/
inductive TurnOutcome
  | requeue
  | park
  | drop
  deriving DecidableEq

/-- `HeldFlush`. -/
inductive HeldFlush
  | complete
  | more
  | blocked
  | terminal
  deriving DecidableEq

section Stage

variable (T : QuicConn σ)

/-- `rearm_send`. -/
def rearmSend (w : World σ) (id : Nat) : TurnOutcome × World σ :=
  match w.streamWritable T id rearmThreshold with
  | (.error (.streamStopped code), w) =>
    (.drop, w.interleave.sendTerminalTransition id (.stopped code))
  | (_, w) => (.park, w)

/-- `classify_send_err`. -/
def classifySendErr (w : World σ) (id : Nat) (err : QuicheError) : TurnOutcome × World σ :=
  match classifyStreamSendError err with
  | .stopped code => (.drop, w.interleave.sendTerminalTransition id (.stopped code))
  | .blocked => w.rearmSend T id
  | .connGone =>
    match w.sh.connTerminal with
    | some t => (.drop, w.interleave.sendTerminalTransition id (.conn t))
    -- the operations stay for `on_conn_close`
    | none => (.drop, { w with reg := w.reg.dropSendMembership id })
  | .limit | .bug _ =>
    (.drop,
      w.interleave.sendTerminalTransition id (.conn (.internal "unexpected stream_send error")))

/-- `runnable_after_pop`. -/
def runnableAfterPop (w : World σ) (id : Nat) : TurnOutcome :=
  match w.reg.send.lookup id with
  | some s => if s.terminal.isNone && !s.sendOps.isEmpty then .requeue else .drop
  | none => .drop

/-- The closure `flush_held_once` passes to `send_from_buf`: at most `MAX_WRITE_CHUNK` bytes of
the chunk, with the FIN only on the chunk that empties the buffer. -/
def offer (id : Nat) (fin : Bool) (remaining : Nat) (chunk : Bytes) (w : World σ) :
    Except QuicheError Nat × World σ :=
  let n := min chunk.length maxWriteChunk
  w.streamSend T id (chunk.take n) (fin && n == remaining)

/-- `flush_held_once`. -/
def flushHeldOnce (w : World σ) (id : Nat) (fin : Bool) : HeldFlush × World σ :=
  match w.reg.send.lookup id with
  | none => (.complete, w)
  | some s =>
    match s.held with
    | none => (.complete, w)
    | some buf =>
      let offered := min buf.chunk.length maxWriteChunk
      match sendFromBuf buf (offer T id fin buf.remaining) w with
      | (.ok written, buf', w) =>
        if buf'.hasRemaining then
          let w := w.putSend id { s with held := some buf' }
          if written = offered then (.more, w)
          else
            match w.rearmSend T id with
            | (.drop, w) => (.terminal, w)
            | (_, w) => (.blocked, w)
        else (.complete, w.putSend id { s with held := none })
      | (.error err, _, w) =>
        match w.classifySendErr T id err with
        | (.park, w) => (.blocked, w)
        | (.requeue, w) => (.more, w)
        | (.drop, w) => (.terminal, w)

/-! ## 3. The three turns -/

/-- `service_write_turn` from step (b) on: hold the whole buffer if it fits, else offer one
bounded part of it. -/
def writeTurn (w : World σ) (id : Nat) : TurnOutcome × World σ :=
  match w.reg.send.lookup id with
  | none => (.drop, w)
  | some s =>
    match s.sendOps with
    | .write buf done permit :: ops =>
      match w.streamCapacity T id with
      | (.error err, w) => w.classifySendErr T id err
      | (.ok cap, w) =>
        if 0 < buf.remaining ∧ buf.remaining ≤ cap then
          let w := w.completeOp (.write buf done permit) (.ok ())
          let w := w.putSend id { s with sendOps := ops, held := some buf }
          (w.runnableAfterPop id, w)
        else
          let offered := min buf.chunk.length maxWriteChunk
          match sendFromBuf buf (offer T id false buf.remaining) w with
          | (.ok written, buf', w) =>
            if buf'.hasRemaining then
              let w := w.putSend id { s with sendOps := .write buf' done permit :: ops }
              if written = offered then (.requeue, w) else w.rearmSend T id
            else
              let w := w.putSend id { s with sendOps := ops }
              let w := w.completeOp (.write buf' done permit) (.ok ())
              (w.runnableAfterPop id, w)
          | (.error err, _, w) => w.classifySendErr T id err
    | _ => (.drop, w)

/-- `service_write_turn`: a held write goes first, without a FIN. -/
def serviceWriteTurn (w : World σ) (id : Nat) : TurnOutcome × World σ :=
  match w.reg.send.lookup id with
  | none => (.drop, w)
  | some s =>
    if s.held.isSome then
      match w.flushHeldOnce T id false with
      | (.complete, w) => w.writeTurn T id
      | (.more, w) => (.requeue, w)
      | (.blocked, w) => (.park, w)
      | (.terminal, w) => (.drop, w)
    else w.writeTurn T id

/-- `complete_finish_op`. -/
def completeFinishOp (w : World σ) (id : Nat) : World σ :=
  let w := match w.reg.send.lookup id with
    | some s =>
      match s.sendOps with
      | op :: ops => (w.putSend id { s with sendOps := ops }).completeOp op (.ok ())
      | [] => w
    | none => w
  (w.markSendDone id).reclaimFinishedSend id

/-- `service_finish_turn`: held bytes leave with the FIN on their last chunk, otherwise a lone
FIN is sent. -/
def serviceFinishTurn (w : World σ) (id : Nat) : TurnOutcome × World σ :=
  match w.reg.send.lookup id with
  | none => (.drop, w)
  | some s =>
    if s.held.isSome then
      match w.flushHeldOnce T id true with
      | (.complete, w) => (.drop, w.completeFinishOp id)
      | (.more, w) => (.requeue, w)
      | (.blocked, w) => (.park, w)
      | (.terminal, w) => (.drop, w)
    else
      match w.streamSend T id [] true with
      | (.ok _, w) => (.drop, w.completeFinishOp id)
      | (.error err, w) => w.classifySendErr T id err

/-- The reset turn of `service_send_turn`: emitted even at zero capacity. -/
def serviceReset (w : World σ) (id code : Nat) (s : StreamSendState) : World σ :=
  let w := w.putSend id { s with pendingReset := none }
  (w.streamShutdown T id .write code).markSendDone id

/-- `service_send_turn`: the pending reset comes first, then stale eviction, then the head
operation gets one bounded transport call. -/
def serviceSendTurn (w : World σ) (id : Nat) : TurnOutcome × World σ :=
  match w.reg.send.lookup id with
  | none => (.drop, w)
  | some s =>
    match s.pendingReset with
    | some code => (.drop, w.serviceReset T id code s)
    | none =>
      if s.terminal.isSome then (.drop, w)
      else
        match s.sendOps with
        | [] =>
          if s.held.isSome then
            match w.flushHeldOnce T id false with
            | (.complete, w) => (.drop, w)
            | (.terminal, w) => (.drop, w)
            | (.more, w) => (.requeue, w)
            | (.blocked, w) => (.park, w)
          else (.drop, w)
        | .write .. :: _ => w.serviceWriteTurn T id
        | .finish _ :: _ => w.serviceFinishTurn T id

/-! ## 4. Stage (e) -/

def sendLoop : Nat → World σ → World σ
  | 0, w => if w.reg.runnableSend.queue ≠ [] then { w with ctl.needsIteration := true } else w
  | n + 1, w =>
    match w.reg.runnableSend.pop with
    | none => w
    | some (id, rest) =>
      let w := { w with reg.runnableSend := rest }.emit (.turn id)
      match w.serviceSendTurn T id with
      | (.requeue, w) =>
        sendLoop n { w with reg := w.reg.markSendRunnable id, ctl.needsIteration := true }
      | (_, w) => sendLoop n w

/-- `stage_send`. -/
def stageSend (w : World σ) : World σ := sendLoop T writeBudget w

/-! ## 5. Stage (d), the writable scan -/

/-- A writable report for an id with a send entry. -/
def writableRegistered (w : World σ) (id : Nat) : World σ :=
  match w.streamCapacity T id with
  | (ans, w) =>
    match w.reg.send.lookup id with
    | none => w
    | some s =>
      match ans with
      | .error (.streamStopped code) =>
        -- an earlier local reset owns the terminal
        if s.pendingReset.isSome || s.terminal.isSome then w
        else w.interleave.sendTerminalTransition id (.stopped code)
      | _ =>
        if !s.sendOps.isEmpty || s.pendingReset.isSome then
          { w with reg := w.reg.markSendRunnable id }
        else w

/-- The `STOP_SENDING` a capacity probe reports. -/
def stoppedOf (ans : Except QuicheError Nat) : Option SendEnd :=
  match ans with
  | .error (.streamStopped code) => some (.stopped code)
  | _ => none

/-- Merge a `STOP_SENDING` into an owned `PeerStream`; the first one stays. -/
def PeerStream.mergeStop (peer : PeerStream) (stopped : Option SendEnd) : PeerStream :=
  if peer.pendingSendTerminal.isNone then { peer with pendingSendTerminal := stopped } else peer

/-- A writable report for a bidi id without a send entry: peer discovery. -/
def writableDiscover (w : World σ) (id : Nat) : World σ :=
  match w.streamCapacity T id with
  | (ans, w) =>
    let stopped := stoppedOf ans
    match w.reg.pendingAdmit.lookup id with
    | some peer =>
      { w with
        reg.pendingAdmit := w.reg.pendingAdmit.insert id (PeerStream.mergeStop peer stopped) }
    | none =>
      match w.reg.admission.lookup id with
      | some (.parked peer) =>
        { w with
          reg.admission := w.reg.admission.insert id (.parked (PeerStream.mergeStop peer stopped)) }
      | _ =>
        { w with
          reg := { w.reg with
            pendingAdmit := w.reg.pendingAdmit.insert id
              { PeerStream.new id with pendingSendTerminal := stopped } }.pushPendingAdmit id
          ctl.needsIteration := true }

/-- Where one id of the writable cursor goes. -/
def writableOne (w : World σ) (id : Nat) : World σ :=
  if (w.reg.send.lookup id).isSome then w.writableRegistered T id
  else if !isBidi id then w
  else
    match w.reg.admission.lookup id with
    | some (.registered _ _) => w
    | _ => w.writableDiscover T id

def writableLoop : Nat → World σ → World σ
  | 0, w => { w with ctl.needsIteration := true }
  | n + 1, w =>
    match T.streamWritableNext w.ctl.qconn with
    | (none, c) => { w with ctl.qconn := c }
    | (some id, c) =>
      let w := { w with ctl.qconn := c }.emit (.writableNext id (w.reg.writeTracked id))
      writableLoop n (w.writableOne T id)

/-- `stage_writable`. -/
def stageWritable (w : World σ) : World σ := writableLoop T writableBudget w

end Stage

end World

end QuicheH3
