/-
# The state of a connection: worker, shared cells, front end (`driver.rs`, `stream.rs`)

One `World` holds everything the bridge consists of for one connection.  Its `Face` is what
the front end can touch, so that front-end actions are functions of the face and visibly leave
the worker's own fields alone.

* `Registry`, the queues and `Ctl` are the fields of `QuicheDriver`, which only the worker
  touches.  They are split into three records so that a step that moves only flags, or only
  shared memory, visibly leaves the registries alone.
* `Shared` is what both sides touch: the command channel, the two accept queues, the byte
  channel, flags and terminal cell of every receive half, the status cell of every send half,
  the reply slots of the open requests.  What `build_recv` allocates together (byte channel,
  cell, resume bit, park flag) is one `RecvHalf`, and the registry holds its index; likewise
  a `StreamSendState` holds the index of the `SendHalf` whose status cell it shares.  Cells
  outlive registry entries, so an index stays good after the entry is gone.
* `trace` is a history variable: the newest-first list of what happened.  The code does not
  have it, no definition below reads it, and every property of a run is stated over it.

Rust drops values silently where Lean just forgets them, but here dropping a value ACTS: a
dropped byte sender closes the channel, a dropped write completes as cancelled, a dropped
handoff sends commands.  The model performs these actions where the source drops the value.
-/
import Mathlib.Data.List.AList
import Mathlib.Logic.Function.Basic
import QuicheH3.Lib.OnceQueue
import QuicheH3.Transport
import QuicheH3.Buffer

namespace QuicheH3

open Lib

/-! ## 1. Budgets -/

def readBudgetMax : Nat := 32
def discoveryBudget : Nat := 32
def recvResumeBudget : Nat := 16
def readableBudget : Nat := 32
def admitBudget : Nat := 32
def promoteBudget : Nat := 32
def chunkBudget : Nat := 16
def cmdBudget : Nat := 64
def writableBudget : Nat := 32
def writeBudget : Nat := 32
def maxWriteChunk : Nat := maxChunk
def rearmThreshold : Nat := 1
def openBudget : Nat := 32

/-! ## 2. Commands and operations -/

/-- `DriverCommand`.  The completion of a `Send` or a `Finish` is a token, unique to the
command; the reply of an open is the index of its reply slot.  `permit` is the number of
bytes a write reserved. -/
inductive DriverCommand
  | openBidi (reply : Nat)
  | openUni (reply : Nat)
  | send (id : Nat) (buf : WriteBuf) (done : Nat) (permit : Option Nat)
  | finish (id : Nat) (done : Nat)
  | reset (id : Nat) (code : Nat)
  | stopSending (id : Nat) (code : Nat)
  | close (code : Nat) (reason : Bytes)
  | recvResume (id : Nat)
  | acceptBidiResume
  | acceptUniResume
  | connectionDropped
  deriving DecidableEq

/-- `SendOp`: one ordered operation of a stream's send queue. -/
inductive SendOp
  | write (buf : WriteBuf) (done : Nat) (permit : Option Nat)
  | finish (done : Nat)
  deriving DecidableEq

/-- `StreamSendState`.  `status` is the index of the send half whose cell is shared; `held` is
the deferred write of `HeldWrite`. -/
structure StreamSendState where
  sendOps : List SendOp
  pendingReset : Option Nat
  terminal : Option SendEnd
  status : Nat
  finished : Bool
  held : Option WriteBuf
  deriving DecidableEq

/-- A fresh live send half over the cell `c`. -/
def StreamSendState.new (c : Nat) : StreamSendState :=
  ⟨[], none, none, c, false, none⟩

/-- A discovered peer stream awaiting admission, with the terminals seen before. -/
structure PeerStream where
  id : Nat
  pendingSendTerminal : Option SendEnd
  pendingRecvTerminal : Option RecvEnd
  deriving DecidableEq

def PeerStream.new (id : Nat) : PeerStream := ⟨id, none, none⟩

/-- `AdmitState`. -/
inductive AdmitState
  | parked (peer : PeerStream)
  | registered (sendDone recvDone : Bool)
  deriving DecidableEq

/-! ## 3. Halves shared with the front end -/

/-- Where the front-end object of a half is: in a queue or a reply with its cleanup guard
armed, converted to a stream object, inside its `drop` before and after the drop command, or
gone. -/
inductive Holder
  | handoff
  | stream
  | dropping
  | closing
  | gone
  deriving DecidableEq, Repr

/-- How far `signal_resume` has come after a dequeue. -/
inductive ConsumerPc
  | idle
  | dequeued
  | unblocked
  | resumed
  deriving DecidableEq, Repr

/-- One receive half as both tasks see it.  `permit` is set while the worker holds a reserved
slot of the byte channel, `txOpen` while the worker holds a sender of it. -/
structure RecvHalf where
  id : Nat
  bytes : List Bytes
  depth : Nat
  permit : Bool
  txOpen : Bool
  terminal : Option RecvEnd
  resume : Bool
  blocked : Bool
  holder : Holder
  pc : ConsumerPc
  terminalSeen : Bool
  stopSent : Bool
  deriving DecidableEq

instance : Inhabited RecvHalf :=
  ⟨⟨0, [], 0, false, false, none, false, false, .gone, .idle, false, false⟩⟩

/-- One send half: the shared status cell and the front-end object's own state. -/
structure SendHalf where
  id : Nat
  status : Option SendEnd
  holder : Holder
  finalized : Bool
  localTerminal : Option SendEnd
  deriving DecidableEq

instance : Inhabited SendHalf := ⟨⟨0, none, .gone, false, none⟩⟩

/-- The reply slot of an open request. -/
inductive Reply
  | waiting
  | cancelled
  | bidi (h c : Nat)
  | uni (c : Nat)
  | failed (t : ConnTerminal)
  | taken
  deriving DecidableEq

instance : Inhabited Reply := ⟨.cancelled⟩

/-- How far `Connection` has been dropped: alive, `ConnectionDropped` sent, receivers closed. -/
inductive ConnStage
  | alive
  | dropping
  | dropped
  deriving DecidableEq, Repr

/-- How far an accept poll has come after a dequeue. -/
inductive AcceptPc
  | idle
  | dequeued
  | swapped
  deriving DecidableEq, Repr

/-- What worker and front end share.  `senders` counts the strong clones of `cmd_tx`,
`openers` those of them held by a `StreamOpener` other than the connection's own. -/
structure Shared where
  cmdRx : List DriverCommand
  cmdRxClosed : Bool
  senders : Nat
  openers : Nat
  acceptBidi : List (Nat × Nat)
  acceptUni : List Nat
  acceptBidiCap : Nat
  acceptUniCap : Nat
  acceptBidiOpen : Bool
  acceptUniOpen : Bool
  acceptBidiResume : Bool
  acceptUniResume : Bool
  acceptBidiPc : AcceptPc
  acceptUniPc : AcceptPc
  connStage : ConnStage
  connTerminal : Option ConnTerminal
  acceptTerminalBidi : Option ConnTerminal
  acceptTerminalUni : Option ConnTerminal
  recvHalves : Nat → RecvHalf
  nextRecv : Nat
  sendHalves : Nat → SendHalf
  nextSend : Nat
  replies : Nat → Reply
  nextReply : Nat
  nextTok : Nat
  resident : Nat
  cap : Option Nat

/-! ## 4. The worker -/

/-- A `HashMap<u64, V>`. -/
abbrev Map (V : Type) := AList (fun _ : Nat => V)

/-- The per-stream registries and cursors of `QuicheDriver`.  A `recv` entry is the index of
its half.  `runnableSend` is the pair `runnable_send`/`runnable_send_set`, `pendingReadable`
the pair `pending_readable`/`readable_set`, `pendingResume` the pair
`pending_resume`/`resume_set`. -/
structure Registry where
  recv : Map Nat
  send : Map StreamSendState
  runnableSend : OnceQueue Nat
  admission : Map AdmitState
  pendingReadable : OnceQueue Nat
  pendingResume : OnceQueue Nat
  pendingAdmit : Map PeerStream
  pendingAdmitBidi : List Nat
  pendingAdmitUni : List Nat
  parkedBidi : List Nat
  parkedUni : List Nat

/-- One atomic action of the front end; `Front.lean` says what each does. -/
inductive FrontAct
  | recvDequeue (h : Nat)
  | recvSwapBlocked (h : Nat)
  | recvSwapResume (h : Nat)
  | recvSendResume (h : Nat)
  | recvSeeTerminal (h : Nat)
  | recvStopSending (h : Nat) (code : Nat)
  | recvDrop (h : Nat)
  | recvDropStop (h : Nat)
  | recvDropClose (h : Nat)
  | sendData (c : Nat) (buf : WriteBuf)
  | sendFinish (c : Nat)
  | sendFinishSeen (c : Nat)
  | sendReset (c : Nat) (code : Nat)
  | sendDrop (c : Nat)
  | sendDropFinish (c : Nat)
  | acceptBidi
  | acceptBidiSwap
  | acceptBidiSignal
  | acceptUni
  | acceptUniSwap
  | acceptUniSignal
  | openBidi
  | openUni
  | takeReply (r : Nat)
  | dropReply (r : Nat)
  | close (code : Nat) (reason : Bytes)
  | cloneOpener
  | dropOpener
  | dropConnection
  | closeAcceptBidi
  | closeAcceptUni
  deriving DecidableEq

/-- Flags, budgets and close bookkeeping of `QuicheDriver`, together with the transport it is
called with and the front-end actions still to be interleaved. -/
structure Ctl (σ : Type) where
  qconn : σ
  script : List (List FrontAct)
  needsIteration : Bool
  gracefulCloseIssued : Bool
  lastHandleTeardown : Bool
  readsRanThisIter : Bool
  readBudget : Nat
  pendingClose : Option (Nat × Bytes)
  explicitCloseAttempted : Bool
  localClose : Option (Nat × Bytes)
  closeBug : Option String

/-! ## 5. The history -/

/-- What a history records. -/
inductive Event
  -- transport calls, with their answers where they matter; a cursor report also records
  -- whether the scan knew the id (`readTracked`, `writeTracked`)
  | readableNext (id : Nat) (tracked : Bool)
  | writableNext (id : Nat) (tracked : Bool)
  | streamRecv (id : Nat) (ans : Except QuicheError (Bytes × Bool))
  | streamSend (id : Nat) (data : Bytes) (fin : Bool) (ans : Except QuicheError Nat)
  | streamShutdown (id : Nat) (dir : Shutdown) (code : Nat)
  | streamCapacity (id : Nat) (ans : Except QuicheError Nat)
  | streamWritable (id : Nat) (ans : Except QuicheError Bool)
  | streamPriority (id : Nat) (ok : Bool)
  | connClose (code : Nat) (reason : Bytes) (ans : Except QuicheError Unit)
  -- byte channels: a permit taken, given back unused, spent on a chunk
  | reserve (h : Nat)
  | release (h : Nat)
  | place (h : Nat) (chunk : Bytes)
  -- a drain taking up a registered half, and leaving it because its channel is full
  | drain (h : Nat)
  | parkFull (h : Nat)
  -- registry entries created and dropped
  | recvOpen (id h : Nat)
  | recvClose (id h : Nat)
  | sendOpen (id c : Nat)
  | sendClose (id c : Nat)
  -- a send half made for a handle of stream `id`
  | handle (id c : Nat)
  -- terminal cells written (by the first writer)
  | recvSet (h : Nat) (e : RecvEnd)
  | sendSet (c : Nat) (e : SendEnd)
  -- `mark_recv_done`, `mark_send_done`
  | recvDone (id : Nat)
  | sendDone (id : Nat)
  -- a stream placed in an accept queue
  | handOver (id : Nat)
  -- a command entering the channel, leaving it for application
  | submit (cmd : DriverCommand)
  | applied (cmd : DriverCommand)
  -- a write or finish completed, or dropped uncompleted
  | resolve (tok : Nat) (res : Except SendEnd Unit)
  | cancel (tok : Nat)
  -- an open answered; `none` is a handoff
  | answer (r : Nat) (failed : Option ConnTerminal)
  -- a submission that found the channel closed, and the terminal it was resolved from
  | sendRefused (id : Nat) (e : Option SendEnd)
  | openRefused (t : Option ConnTerminal)
  -- front-end objects beginning their drop
  | recvDropped (h : Nat)
  | sendDropped (c : Nat)
  -- one round-robin turn of the send stage
  | turn (id : Nat)
  deriving DecidableEq

/-- What the front end touches, and the history. -/
structure Face where
  sh : Shared
  trace : List Event

/-- The whole of one connection: the face and what only the worker touches. -/
structure World (σ : Type) extends Face where
  reg : Registry
  inbox : List DriverCommand
  openBidi : List Nat
  openUni : List Nat
  nextBidiId : Nat
  nextUniId : Nat
  isServer : Bool
  recvChannelDepth : Nat
  ctl : Ctl σ

namespace Face

def emit (f : Face) (e : Event) : Face := { f with trace := e :: f.trace }

/-- Apply `g` to the receive half `h`. -/
def modRecv (f : Face) (h : Nat) (g : RecvHalf → RecvHalf) : Face :=
  { f with sh.recvHalves := Function.update f.sh.recvHalves h (g (f.sh.recvHalves h)) }

/-- Apply `g` to the send half `c`. -/
def modSend (f : Face) (c : Nat) (g : SendHalf → SendHalf) : Face :=
  { f with sh.sendHalves := Function.update f.sh.sendHalves c (g (f.sh.sendHalves c)) }

def setReply (f : Face) (r : Nat) (x : Reply) : Face :=
  { f with sh.replies := Function.update f.sh.replies r x }

end Face

namespace World

variable {σ : Type}

def emit (w : World σ) (e : Event) : World σ := { w with toFace := w.toFace.emit e }

def modRecv (w : World σ) (h : Nat) (g : RecvHalf → RecvHalf) : World σ :=
  { w with toFace := w.toFace.modRecv h g }

def modSend (w : World σ) (c : Nat) (g : SendHalf → SendHalf) : World σ :=
  { w with toFace := w.toFace.modSend c g }

def setReply (w : World σ) (r : Nat) (x : Reply) : World σ :=
  { w with toFace := w.toFace.setReply r x }

/-- The state of a driver and its handles right after `with_buffers`. -/
def withBuffers (isServer : Bool) (acceptBidiCap acceptUniCap recvChannelDepth : Nat)
    (cap : Option Nat) (qconn : σ) (script : List (List FrontAct)) : World σ where
  reg :=
    { recv := ∅, send := ∅, runnableSend := .empty, admission := ∅
      pendingReadable := .empty, pendingResume := .empty
      pendingAdmit := ∅, pendingAdmitBidi := [], pendingAdmitUni := []
      parkedBidi := [], parkedUni := [] }
  inbox := []
  openBidi := []
  openUni := []
  nextBidiId := if isServer then 1 else 0
  nextUniId := if isServer then 3 else 2
  isServer := isServer
  recvChannelDepth := recvChannelDepth
  ctl :=
    { qconn := qconn, script := script, needsIteration := false, gracefulCloseIssued := false
      lastHandleTeardown := false, readsRanThisIter := false, readBudget := readBudgetMax
      pendingClose := none, explicitCloseAttempted := false, localClose := none
      closeBug := none }
  sh :=
    { cmdRx := [], cmdRxClosed := false, senders := 1, openers := 0
      acceptBidi := [], acceptUni := []
      acceptBidiCap := max acceptBidiCap 1, acceptUniCap := max acceptUniCap 1
      acceptBidiOpen := true, acceptUniOpen := true
      acceptBidiResume := false, acceptUniResume := false
      acceptBidiPc := .idle, acceptUniPc := .idle, connStage := .alive
      connTerminal := none, acceptTerminalBidi := none, acceptTerminalUni := none
      recvHalves := fun _ => default, nextRecv := 0
      sendHalves := fun _ => default, nextSend := 0
      replies := fun _ => default, nextReply := 0
      nextTok := 0, resident := 0, cap := cap }
  trace := []

end World

end QuicheH3
