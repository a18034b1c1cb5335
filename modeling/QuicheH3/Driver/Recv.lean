/-
# The read pump: intake and drains (`driver.rs`)

`intake_readable`, `drain_resumed`, `phase1_registered_drain` and `drain_stream`.  A loop with
a budget recurses on the budget that is left.
-/
import QuicheH3.Driver.Terminal

namespace QuicheH3

open Lib

namespace World

variable {σ : Type}

/-! ## 1. The byte channel, worker side -/

/-- The answers of `Sender::try_reserve`. -/
inductive TryReserve
  | permit
  | full
  | closed
  deriving DecidableEq

/-- `tx.try_reserve()`. -/
def tryReserve (w : World σ) (h : Nat) : TryReserve × World σ :=
  let w := w.interleave
  let r := w.sh.recvHalves h
  if r.holder = .gone then (.closed, w)
  else if r.bytes.length < r.depth then
    (.permit, (w.modRecv h fun r => { r with permit := true }).emit (.reserve h))
  else (.full, w)

/-- `state.blocked.store(b)`, if the entry is still there. -/
def storeBlocked (w : World σ) (id : Nat) (b : Bool) : World σ :=
  let w := w.interleave
  match w.reg.recv.lookup id with
  | some h => w.modRecv h fun r => { r with blocked := b }
  | none => w

/-- `state.resume.store(b)`, if the entry is still there. -/
def storeResume (w : World σ) (id : Nat) (b : Bool) : World σ :=
  let w := w.interleave
  match w.reg.recv.lookup id with
  | some h => w.modRecv h fun r => { r with resume := b }
  | none => w

/-- `permit.send(chunk)`. -/
def permitSend (w : World σ) (h : Nat) (chunk : Bytes) : World σ :=
  (w.modRecv h fun r => { r with bytes := r.bytes ++ [chunk], permit := false }).emit
    (.place h chunk)

/-- `drop(permit)`. -/
def permitDrop (w : World σ) (h : Nat) : World σ :=
  (w.modRecv h fun r => { r with permit := false }).emit (.release h)

/-- Reserve a slot; on a full channel publish `blocked` and look once more before parking. -/
def reserveOrPark (w : World σ) (id h : Nat) : TryReserve × World σ :=
  match w.tryReserve h with
  | (.permit, w) => (.permit, w)
  | (.closed, w) => (.closed, w)
  | (.full, w) =>
    match (w.storeBlocked id true).tryReserve h with
    -- a slot was freed in the window: do not park
    | (.permit, w) => (.permit, w.storeBlocked id false)
    | (.full, w) => (.full, w.emit (.parkFull h))
    | (.closed, w) => (.closed, w)

/-! ## 2. `drain_stream` -/

section Pump

variable (T : QuicConn σ)

/-- `abandon_recv`. -/
def abandonRecv (w : World σ) (id : Nat) : World σ :=
  (w.streamShutdown T id .read h3NoError).markRecvDone id

/-- `resolve_recv_via_conn`. -/
def resolveRecvViaConn (w : World σ) (id : Nat) : World σ :=
  match w.sh.connTerminal with
  | some t => (w.interleave.publishRecvTerminal id (.conn t)).markRecvDone id
  | none => { w with reg := w.reg.dropRecvMemberships id }

/-- Requeue keeping membership, and force another iteration. -/
def requeueAndIterate (w : World σ) (id : Nat) : World σ :=
  { w with reg := w.reg.requeueReadable id, ctl.needsIteration := true }

/-- What a `stream_recv` error does to the stream. -/
def recvError (w : World σ) (id : Nat) (err : QuicheError) : World σ :=
  match classifyStreamRecvError err with
  | .done => w
  | .reset code => (w.interleave.publishRecvTerminal id (.reset code)).markRecvDone id
  | .connGone => w.resolveRecvViaConn id
  | .bug msg => (w.interleave.publishRecvTerminal id (.conn (.internal msg))).markRecvDone id

/-- A `stream_recv` answer with the permit of half `h` in hand: the chunk is placed, an empty
read gives the permit back, and a FIN is published after the chunk. -/
def recvChunk (w : World σ) (id h : Nat) (chunk : Bytes) (fin : Bool) : World σ :=
  let w :=
    if chunk ≠ [] then
      let w := w.permitSend h chunk
      { w with ctl.readBudget := w.ctl.readBudget - 1 }
    else w.permitDrop h
  if fin then (w.interleave.publishRecvTerminal id .fin).markRecvDone id else w

/-- The chunk loop of `drain_stream`; `h` is the sender cloned before the loop. -/
def drainLoop (id h : Nat) : Nat → World σ → World σ
  | 0, w => if T.streamReadable w.ctl.qconn id then w.requeueAndIterate id else w
  | n + 1, w =>
    if w.ctl.readBudget = 0 then w.requeueAndIterate id
    else
      match w.reserveOrPark id h with
      | (.full, w) => w
      | (.closed, w) => w.abandonRecv T id
      | (.permit, w) =>
        -- the other tasks may run until the permit is spent
        match w.interleave.streamRecv T id with
        | (.error err, w) => (w.permitDrop h).recvError id err
        | (.ok (chunk, fin), w) =>
          let w := w.recvChunk id h chunk fin
          -- a zero-length read always stops this drain
          if fin || chunk = [] || !T.streamReadable w.ctl.qconn id then w
          else drainLoop id h n w

/-- `drain_stream`. -/
def drainStream (w : World σ) (id : Nat) : World σ :=
  match w.reg.recv.lookup id with
  | some h => drainLoop T id h chunkBudget w
  | none => w

/-! ## 3. The drains -/

/-- `drain_resumed`: the resume bit is cleared BEFORE the retry. -/
def drainResumedLoop : Nat → World σ → World σ
  | 0, w => w
  | n + 1, w =>
    match w.reg.pendingResume.pop with
    | none => w
    | some (id, rest) =>
      let w := { w with reg.pendingResume := rest }
      match w.reg.recv.lookup id with
      | none => drainResumedLoop n w
      | some h =>
        let w := ((w.storeResume id false).emit (.drain h)).storeBlocked id false
        drainResumedLoop n (w.drainStream T id)

def drainResumed (w : World σ) : World σ := drainResumedLoop T recvResumeBudget w

/-- `phase1_registered_drain`. -/
def phase1Loop : Nat → World σ → World σ
  | 0, w => w
  | n + 1, w =>
    if w.ctl.readBudget = 0 then
      if w.reg.pendingReadable.queue ≠ [] then { w with ctl.needsIteration := true } else w
    else
      match w.reg.pendingReadable.pop with
      | none => w
      | some (id, rest) =>
        let w := { w with reg.pendingReadable := rest }
        match w.reg.recv.lookup id with
        | none => phase1Loop n w
        | some h => phase1Loop n ((w.emit (.drain h)).drainStream T id)

def phase1RegisteredDrain (w : World σ) : World σ := phase1Loop T readableBudget w

/-! ## 4. Readable intake -/

/-- Where one id of the readable cursor goes. -/
def intakeOne (w : World σ) (id : Nat) : World σ :=
  if (w.reg.recv.lookup id).isSome then { w with reg := w.reg.requeueReadable id }
  else if (w.reg.admission.lookup id).isSome || (w.reg.pendingAdmit.lookup id).isSome then w
  else
    { w with
      reg := { w.reg with pendingAdmit := w.reg.pendingAdmit.insert id (.new id) }.pushPendingAdmit
        id }

def intakeLoop : Nat → World σ → World σ
  | 0, w => { w with ctl.needsIteration := true }
  | n + 1, w =>
    match T.streamReadableNext w.ctl.qconn with
    | (none, c) => { w with ctl.qconn := c }
    | (some id, c) =>
      let w := { w with ctl.qconn := c }.emit (.readableNext id (w.reg.readTracked id))
      intakeLoop n (w.intakeOne id)

/-- `intake_readable`. -/
def intakeReadable (w : World σ) : World σ := intakeLoop T discoveryBudget w

end Pump

end World

end QuicheH3
