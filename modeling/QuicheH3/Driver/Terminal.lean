/-
# Registry entries, terminals and the contract-A transition (`driver.rs`)

The helpers every stage ends in: cursor memberships, the drop of a registry entry with what
Rust's drop glue does, completion of an operation, and the functions that end a direction
(`mark_recv_done`, `mark_send_done`, `terminal_transition`, `reclaim_finished_send`,
`send_terminal_transition`).
-/
import QuicheH3.Driver.Front

namespace QuicheH3

open Lib

/-! ## 1. Cursor memberships -/

namespace Registry

def requeueReadable (r : Registry) (id : Nat) : Registry :=
  { r with pendingReadable := r.pendingReadable.push id }

def enqueueResume (r : Registry) (id : Nat) : Registry :=
  { r with pendingResume := r.pendingResume.push id }

def dropRecvMemberships (r : Registry) (id : Nat) : Registry :=
  { r with pendingReadable := r.pendingReadable.drop id, pendingResume := r.pendingResume.drop id }

def markSendRunnable (r : Registry) (id : Nat) : Registry :=
  { r with runnableSend := r.runnableSend.push id }

def dropSendMembership (r : Registry) (id : Nat) : Registry :=
  { r with runnableSend := r.runnableSend.drop id }

def pushPendingAdmit (r : Registry) (id : Nat) : Registry :=
  if isBidi id then { r with pendingAdmitBidi := r.pendingAdmitBidi ++ [id] }
  else { r with pendingAdmitUni := r.pendingAdmitUni ++ [id] }

/-- Record that one direction of a registered peer stream is done. -/
def setRecvDone (r : Registry) (id : Nat) : Registry :=
  match r.admission.lookup id with
  | some (.registered sendDone _) =>
    { r with admission := r.admission.insert id (.registered sendDone true) }
  | _ => r

def setSendDone (r : Registry) (id : Nat) : Registry :=
  match r.admission.lookup id with
  | some (.registered _ recvDone) =>
    { r with admission := r.admission.insert id (.registered true recvDone) }
  | _ => r

/-- The readable scan knows the id, so a report of it is no new peer stream. -/
def readTracked (r : Registry) (id : Nat) : Bool :=
  (r.recv.lookup id).isSome || (r.admission.lookup id).isSome || (r.pendingAdmit.lookup id).isSome

/-- The writable scan knows the id. -/
def writeTracked (r : Registry) (id : Nat) : Bool :=
  (r.send.lookup id).isSome || !isBidi id || (r.admission.lookup id).isSome ||
    (r.pendingAdmit.lookup id).isSome

/-- All applicable directions of a registered stream are done (peer uni: recv; bidi: both). -/
def allTerminal (r : Registry) (id : Nat) : Bool :=
  match r.admission.lookup id with
  | some (.registered sendDone recvDone) => if isBidi id then sendDone && recvDone else recvDone
  | _ => false

end Registry

namespace World

variable {σ : Type}

/-! ## 2. Cells -/

/-- `terminal.set` on the cell of receive half `h`. -/
def setRecvCell (w : World σ) (h : Nat) (e : RecvEnd) : World σ :=
  match (w.sh.recvHalves h).terminal with
  | some _ => w
  | none => (w.modRecv h fun r => { r with terminal := some e }).emit (.recvSet h e)

/-- `status.set` on the cell of send half `c`. -/
def setSendCell (w : World σ) (c : Nat) (e : SendEnd) : World σ :=
  match (w.sh.sendHalves c).status with
  | some _ => w
  | none => (w.modSend c fun s => { s with status := some e }).emit (.sendSet c e)

/-- `publish_recv_terminal`. -/
def publishRecvTerminal (w : World σ) (id : Nat) (e : RecvEnd) : World σ :=
  match w.reg.recv.lookup id with
  | some h => w.setRecvCell h e
  | none => w

/-! ## 3. Operations -/

/-- A `SendBytesPermit` is dropped. -/
def releasePermit (w : World σ) (permit : Option Nat) : World σ :=
  { w with sh.resident := w.sh.resident - permit.getD 0 }

/-- `SendOp::complete`. -/
def completeOp (w : World σ) (op : SendOp) (res : Except SendEnd Unit) : World σ :=
  match op with
  | .write _ done permit => (w.emit (.resolve done res)).releasePermit permit
  | .finish done => w.emit (.resolve done res)

def completeOps (w : World σ) (ops : List SendOp) (res : Except SendEnd Unit) : World σ :=
  ops.foldl (fun w op => w.completeOp op res) w

/-- A `SendOp` is dropped without `complete`: its completion reports a cancellation. -/
def cancelOp (w : World σ) (op : SendOp) : World σ :=
  match op with
  | .write _ done permit => (w.emit (.cancel done)).releasePermit permit
  | .finish done => w.emit (.cancel done)

/-! ## 4. Registry entries -/

/-- `recv.remove(&id)`: the byte sender is dropped, which closes the channel. -/
def dropRecvEntry (w : World σ) (id : Nat) : World σ :=
  match w.reg.recv.lookup id with
  | none => w
  | some h =>
    ({ w with reg.recv := w.reg.recv.erase id }.modRecv h
      fun r => { r with txOpen := false }).emit (.recvClose id h)

/-- `send.remove(&id)`: the operations still queued are dropped with the entry. -/
def dropSendEntry (w : World σ) (id : Nat) : World σ :=
  match w.reg.send.lookup id with
  | none => w
  | some s =>
    (s.sendOps.foldl cancelOp { w with reg.send := w.reg.send.erase id }).emit
      (.sendClose id s.status)

/-- `recv.insert(id, state)`; an entry already there is dropped. -/
def insertRecv (w : World σ) (id h : Nat) : World σ :=
  let w := w.dropRecvEntry id
  ({ w with reg.recv := w.reg.recv.insert id h }.modRecv h
    fun r => { r with txOpen := true }).emit (.recvOpen id h)

/-- `send.insert(id, state)`; an entry already there is dropped. -/
def insertSend (w : World σ) (id c : Nat) : World σ :=
  let w := w.dropSendEntry id
  { w with reg.send := w.reg.send.insert id (.new c) }.emit (.sendOpen id c)

/-- Write back the entry a `get_mut` borrowed. -/
def putSend (w : World σ) (id : Nat) (s : StreamSendState) : World σ :=
  { w with reg.send := w.reg.send.insert id s }

/-- `send.entry(id).or_insert_with(StreamSendState::new)`: a lazily created entry has a cell
of its own that no handle shares. -/
def ensureSend (w : World σ) (id : Nat) : World σ :=
  match w.reg.send.lookup id with
  | some _ => w
  | none =>
    let c := w.sh.nextSend
    { w with
      sh.nextSend := c + 1
      sh.sendHalves := Function.update w.sh.sendHalves c { (default : SendHalf) with id := id }
    }.insertSend id c

/-! ## 5. Ending a direction -/

/-- Contract A: when all applicable directions are terminal, drop `admit[id]` and the cursor
memberships.  The send entry is retained. -/
def terminalTransition (w : World σ) (id : Nat) : World σ :=
  if w.reg.allTerminal id then
    let w := { w with reg.admission := w.reg.admission.erase id }.dropRecvEntry id
    { w with reg := (w.reg.dropRecvMemberships id).dropSendMembership id }
  else w

/-- Reclaim a retained send entry once its direction is terminal and the recv half is gone. -/
def reclaimFinishedSend (w : World σ) (id : Nat) : World σ :=
  match w.reg.send.lookup id with
  | some s =>
    if s.finished = true ∧ w.reg.recv.lookup id = none then
      let w := w.dropSendEntry id
      { w with reg.admission := w.reg.admission.erase id }
    else w
  | none => w

/-- `mark_recv_done`. -/
def markRecvDone (w : World σ) (id : Nat) : World σ :=
  let w := (w.dropRecvEntry id).emit (.recvDone id)
  let w := { w with reg := (w.reg.dropRecvMemberships id).setRecvDone id }
  (w.terminalTransition id).reclaimFinishedSend id

/-- `mark_send_done`. -/
def markSendDone (w : World σ) (id : Nat) : World σ :=
  let w := match w.reg.send.lookup id with
    | some s => w.putSend id { s with finished := true }
    | none => w
  let w := w.emit (.sendDone id)
  { w with reg := (w.reg.dropSendMembership id).setSendDone id }.terminalTransition id

/-- `send_terminal_transition`: publish `end_`, complete every queued operation with the
sticky terminal, mark the direction done. -/
def sendTerminalTransition (w : World σ) (id : Nat) (end_ : SendEnd) : World σ :=
  match w.reg.send.lookup id with
  | none => w
  | some s =>
    let terminal := s.terminal.getD end_
    let w := w.setSendCell s.status end_
    let w := w.putSend id { s with terminal := some terminal, held := none, sendOps := [] }
    (w.completeOps s.sendOps (.error terminal)).markSendDone id

/-! ## 6. Transport calls -/

section Calls

variable (T : QuicConn σ)

def streamRecv (w : World σ) (id : Nat) : Except QuicheError (Bytes × Bool) × World σ :=
  let ans := T.streamRecv w.ctl.qconn id
  (ans.1, { w with ctl.qconn := ans.2 }.emit (.streamRecv id ans.1))

def streamSend (w : World σ) (id : Nat) (data : Bytes) (fin : Bool) :
    Except QuicheError Nat × World σ :=
  let ans := T.streamSend w.ctl.qconn id data fin
  (ans.1, { w with ctl.qconn := ans.2 }.emit (.streamSend id data fin ans.1))

/-- The answer of a shutdown is ignored at every call site. -/
def streamShutdown (w : World σ) (id : Nat) (dir : Shutdown) (code : Nat) : World σ :=
  { w with ctl.qconn := (T.streamShutdown w.ctl.qconn id dir code).2 }.emit
    (.streamShutdown id dir code)

def streamCapacity (w : World σ) (id : Nat) : Except QuicheError Nat × World σ :=
  let ans := T.streamCapacity w.ctl.qconn id
  (ans.1, { w with ctl.qconn := ans.2 }.emit (.streamCapacity id ans.1))

def streamWritable (w : World σ) (id len : Nat) : Except QuicheError Bool × World σ :=
  let ans := T.streamWritable w.ctl.qconn id len
  (ans.1, { w with ctl.qconn := ans.2 }.emit (.streamWritable id ans.1))

def streamPriority (w : World σ) (id urgency : Nat) (incremental : Bool) : Bool × World σ :=
  let ans := T.streamPriority w.ctl.qconn id urgency incremental
  (ans.1.toBool, { w with ctl.qconn := ans.2 }.emit (.streamPriority id ans.1.toBool))

/-- `shutdown_peer_directions`: peer uni is receive-only. -/
def shutdownPeerDirections (w : World σ) (id : Nat) (bidi : Bool) : World σ :=
  let w := w.streamShutdown T id .read h3NoError
  if bidi then w.streamShutdown T id .write h3NoError else w

end Calls

end World

end QuicheH3
