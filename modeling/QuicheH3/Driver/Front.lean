/-
# The front end as the worker sees it (`stream.rs`)

The stream objects, the opener and the connection run on other tasks.  All the worker can see
of them are atomic accesses to `Shared`, and this module is the list of those accesses: one
`FrontAct` per access, in the order each object makes them.  An action whose guard fails does
nothing.

Two liberties are taken, both towards MORE behaviour.  `poll_ready` and `poll_open_*` read the
published terminal before they send and `poll_finish` does too; that read and the send are
separate accesses, the terminal may be published between them, so the sending action here does
not ask for it.  And a send half may have several writes outstanding.

`interleave` is where the worker gives way: each access of the worker to `Shared` is preceded
by the next batch of a script, and the theorems hold for every script.  Transport calls touch
nothing shared, so no batch is needed before them.
-/
import QuicheH3.Driver.State

namespace QuicheH3

/-- `terminal_now_noctx`: the terminal a send half sees. -/
def SendHalf.terminalNow (s : SendHalf) : Option SendEnd :=
  match s.localTerminal with
  | some e => some e
  | none => s.status

namespace Face

/-! ## 1. The command channel -/

/-- `cmd_tx.send`: append, unless the worker has closed the channel. -/
def cmdSend (f : Face) (cmd : DriverCommand) : Face :=
  if f.sh.cmdRxClosed then f
  else { f with sh.cmdRx := f.sh.cmdRx ++ [cmd], trace := .submit cmd :: f.trace }

theorem cmdSend_open (f : Face) (cmd : DriverCommand) (h : f.sh.cmdRxClosed = false) :
    f.cmdSend cmd =
      { f with sh.cmdRx := f.sh.cmdRx ++ [cmd], trace := .submit cmd :: f.trace } :=
  if_neg (by simp [h])

/-- Enqueue a `Finish` for stream `id` with a completion of its own. -/
def cmdSendFinish (f : Face) (id : Nat) : Face :=
  let f' := f.cmdSend (.finish id f.sh.nextTok)
  { f' with sh.nextTok := f'.sh.nextTok + 1 }

/-- One strong sender dropped. -/
def dropSender (f : Face) : Face := { f with sh.senders := f.sh.senders - 1 }

/-! ## 2. Dropped handoffs (`Drop for HandoffCleanup`) -/

def dropSendHandoff (f : Face) (c : Nat) : Face :=
  ((((f.modSend c fun s => { s with holder := .gone }).emit (.sendDropped c)).cmdSendFinish
    (f.sh.sendHalves c).id)).dropSender

def dropRecvHandoff (f : Face) (h : Nat) : Face :=
  ((((f.modRecv h fun r => { r with holder := .gone, bytes := [] }).emit (.recvDropped h)).cmdSend
    (.stopSending (f.sh.recvHalves h).id 0))).dropSender

/-- A dropped `BidiHandoff`: its fields in order, the send half first. -/
def dropBidiHandoff (f : Face) (x : Nat × Nat) : Face :=
  (f.dropSendHandoff x.2).dropRecvHandoff x.1

/-! ## 3. Send-byte admission -/

/-- `try_reserve` on the shared accounting. -/
def tryReserveBytes (sh : Shared) (bytes : Nat) : Option Nat :=
  tryReserve sh.cap sh.resident bytes

/-! ## 4. The stream objects -/

/-- The flush of `poll_ready`. -/
def sendData (f : Face) (c : Nat) (buf : WriteBuf) : Face :=
  let s := f.sh.sendHalves c
  if s.holder = .stream ∧ s.localTerminal = none then
    match tryReserveBytes f.sh buf.remaining with
    | none => f
    | some next =>
      if f.sh.cmdRxClosed then f.emit (.sendRefused s.id s.terminalNow)
      else
        let f := f.cmdSend (.send s.id buf f.sh.nextTok (some buf.remaining))
        { f with sh.nextTok := f.sh.nextTok + 1, sh.resident := next }
  else f

/-- The first `poll_finish`, when it sees no terminal. -/
def sendFinish (f : Face) (c : Nat) : Face :=
  let s := f.sh.sendHalves c
  if s.holder = .stream ∧ s.finalized = false then
    let f := f.modSend c fun s => { s with finalized := true }
    if f.sh.cmdRxClosed then f.emit (.sendRefused s.id s.terminalNow)
    else f.cmdSendFinish s.id
  else f

/-- The first `poll_finish`, when a terminal is already visible. -/
def sendFinishSeen (f : Face) (c : Nat) : Face :=
  let s := f.sh.sendHalves c
  if s.holder = .stream ∧ s.finalized = false ∧ s.terminalNow.isSome then
    f.modSend c fun s => { s with finalized := true }
  else f

/-- `SendStream::reset`. -/
def sendReset (f : Face) (c code : Nat) : Face :=
  let s := f.sh.sendHalves c
  if s.holder = .stream ∧ s.finalized = false then
    (f.modSend c fun s =>
      { s with
        finalized := true
        localTerminal := if s.status.isNone then some (.reset code) else s.localTerminal }).cmdSend
      (.reset s.id code)
  else f

/-- `Drop for H3SendStream`, up to its decision. -/
def sendDrop (f : Face) (c : Nat) : Face :=
  let s := f.sh.sendHalves c
  if s.holder = .stream then
    if s.finalized || s.terminalNow.isSome then
      ((f.modSend c fun s => { s with holder := .gone }).emit (.sendDropped c)).dropSender
    else (f.modSend c fun s => { s with holder := .dropping, finalized := true }).emit
      (.sendDropped c)
  else f

/-- `Drop for H3SendStream`, the graceful finish. -/
def sendDropFinish (f : Face) (c : Nat) : Face :=
  let s := f.sh.sendHalves c
  if s.holder = .dropping then
    ((f.modSend c fun s => { s with holder := .gone }).cmdSendFinish s.id).dropSender
  else f

/-- `poll_data` takes a chunk out of the byte channel. -/
def recvDequeue (f : Face) (h : Nat) : Face :=
  let r := f.sh.recvHalves h
  if r.holder = .stream ∧ r.pc = .idle ∧ r.bytes ≠ [] then
    f.modRecv h fun r => { r with bytes := r.bytes.tail, pc := .dequeued }
  else f

/-- `signal_resume`: `blocked.swap(false)`. -/
def recvSwapBlocked (f : Face) (h : Nat) : Face :=
  if (f.sh.recvHalves h).pc = .dequeued then
    f.modRecv h fun r =>
      { r with blocked := false, pc := if r.blocked then .unblocked else .idle }
  else f

/-- `signal_resume`: `resume.swap(true)`. -/
def recvSwapResume (f : Face) (h : Nat) : Face :=
  if (f.sh.recvHalves h).pc = .unblocked then
    f.modRecv h fun r =>
      { r with resume := true, pc := if r.resume then .idle else .resumed }
  else f

/-- `signal_resume`: the command. -/
def recvSendResume (f : Face) (h : Nat) : Face :=
  let r := f.sh.recvHalves h
  if r.pc = .resumed then
    (f.modRecv h fun r => { r with pc := .idle }).cmdSend (.recvResume r.id)
  else f

/-- `resolve_terminal`. -/
def recvSeeTerminal (f : Face) (h : Nat) : Face :=
  let r := f.sh.recvHalves h
  if r.holder = .stream ∧ r.pc = .idle ∧ r.terminal.isSome then
    f.modRecv h fun r => { r with terminalSeen := true }
  else f

/-- `RecvStream::stop_sending`. -/
def recvStopSending (f : Face) (h code : Nat) : Face :=
  let r := f.sh.recvHalves h
  if r.holder = .stream ∧ r.pc = .idle then
    (f.modRecv h fun r => { r with stopSent := true }).cmdSend (.stopSending r.id code)
  else f

/-- `Drop for H3RecvStream`, up to its decision. -/
def recvDrop (f : Face) (h : Nat) : Face :=
  let r := f.sh.recvHalves h
  if r.holder = .stream ∧ r.pc = .idle then
    if r.stopSent || r.terminalSeen || r.terminal.isSome then
      (f.modRecv h fun r => { r with holder := .closing }).emit (.recvDropped h)
    else (f.modRecv h fun r => { r with holder := .dropping }).emit (.recvDropped h)
  else f

/-- `Drop for H3RecvStream`, the `STOP_SENDING(0)`. -/
def recvDropStop (f : Face) (h : Nat) : Face :=
  let r := f.sh.recvHalves h
  if r.holder = .dropping then
    (f.modRecv h fun r => { r with holder := .closing }).cmdSend (.stopSending r.id 0)
  else f

/-- The fields of a dropped `H3RecvStream`: its receiver closes. -/
def recvDropClose (f : Face) (h : Nat) : Face :=
  if (f.sh.recvHalves h).holder = .closing then
    (f.modRecv h fun r => { r with holder := .gone, bytes := [] }).dropSender
  else f

/-! ## 5. Opener and connection -/

/-- Somebody holds a `StreamOpener`. -/
def canOpen (sh : Shared) : Bool := 0 < sh.openers || sh.connStage == .alive

/-- A new reply slot, and the command that carries it. -/
def openSend (f : Face) (cmd : Nat → DriverCommand) : Face :=
  if canOpen f.sh then
    if f.sh.cmdRxClosed then f.emit (.openRefused f.sh.connTerminal)
    else
      let r := f.sh.nextReply
      let f := (f.setReply r .waiting).cmdSend (cmd r)
      { f with sh.nextReply := r + 1 }
  else f

/-- The poller receives its answer and converts the handoff. -/
def takeReply (f : Face) (r : Nat) : Face :=
  match f.sh.replies r with
  | .bidi h c =>
    ((f.modRecv h fun x => { x with holder := .stream }).modSend c
      fun x => { x with holder := .stream }).setReply r .taken
  | .uni c => (f.modSend c fun x => { x with holder := .stream }).setReply r .taken
  | .failed _ => f.setReply r .taken
  | _ => f

/-- The poller is dropped: an answer it never took is dropped with it. -/
def dropReply (f : Face) (r : Nat) : Face :=
  match f.sh.replies r with
  | .waiting => f.setReply r .cancelled
  | .bidi h c => (f.dropBidiHandoff (h, c)).setReply r .cancelled
  | .uni c => (f.dropSendHandoff c).setReply r .cancelled
  | .failed _ => f.setReply r .cancelled
  | _ => f

/-- `poll_accept_bidi` takes a handoff out of the queue and converts it. -/
def acceptBidi (f : Face) : Face :=
  if f.sh.connStage = .alive ∧ f.sh.acceptBidiPc = .idle then
    match f.sh.acceptBidi with
    | [] => f
    | (h, c) :: rest =>
      (({ f with sh.acceptBidi := rest, sh.acceptBidiPc := .dequeued }.modRecv h
        fun x => { x with holder := .stream }).modSend c fun x => { x with holder := .stream })
  else f

def acceptBidiSwap (f : Face) : Face :=
  if f.sh.acceptBidiPc = .dequeued then
    { f with
      sh.acceptBidiResume := true
      sh.acceptBidiPc := if f.sh.acceptBidiResume then .idle else .swapped }
  else f

def acceptBidiSignal (f : Face) : Face :=
  if f.sh.acceptBidiPc = .swapped then
    { f with sh.acceptBidiPc := .idle }.cmdSend .acceptBidiResume
  else f

def acceptUni (f : Face) : Face :=
  if f.sh.connStage = .alive ∧ f.sh.acceptUniPc = .idle then
    match f.sh.acceptUni with
    | [] => f
    | h :: rest =>
      { f with sh.acceptUni := rest, sh.acceptUniPc := .dequeued }.modRecv h
        fun x => { x with holder := .stream }
  else f

def acceptUniSwap (f : Face) : Face :=
  if f.sh.acceptUniPc = .dequeued then
    { f with
      sh.acceptUniResume := true
      sh.acceptUniPc := if f.sh.acceptUniResume then .idle else .swapped }
  else f

def acceptUniSignal (f : Face) : Face :=
  if f.sh.acceptUniPc = .swapped then
    { f with sh.acceptUniPc := .idle }.cmdSend .acceptUniResume
  else f

/-- `Drop for Connection`. -/
def dropConnection (f : Face) : Face :=
  if f.sh.connStage = .alive ∧ f.sh.acceptBidiPc = .idle ∧ f.sh.acceptUniPc = .idle then
    { f with sh.connStage := .dropping }.cmdSend .connectionDropped
  else f

/-- The fields of a dropped `Connection`: the bidi receiver closes and its queue is dropped. -/
def closeAcceptBidi (f : Face) : Face :=
  if f.sh.connStage = .dropping ∧ f.sh.acceptBidiOpen = true then
    { f.sh.acceptBidi.foldl dropBidiHandoff f with
      sh.acceptBidiOpen := false, sh.acceptBidi := [] }
  else f

/-- ... then the uni receiver, and last its opener. -/
def closeAcceptUni (f : Face) : Face :=
  if f.sh.connStage = .dropping ∧ f.sh.acceptBidiOpen = false then
    { f.sh.acceptUni.foldl dropRecvHandoff f with
      sh.acceptUniOpen := false, sh.acceptUni := [], sh.connStage := .dropped }.dropSender
  else f

/-! ## 6. One action, and the interleaving -/

/-- One atomic action of the front end. -/
def front (f : Face) : FrontAct → Face
  | .recvDequeue h => f.recvDequeue h
  | .recvSwapBlocked h => f.recvSwapBlocked h
  | .recvSwapResume h => f.recvSwapResume h
  | .recvSendResume h => f.recvSendResume h
  | .recvSeeTerminal h => f.recvSeeTerminal h
  | .recvStopSending h code => f.recvStopSending h code
  | .recvDrop h => f.recvDrop h
  | .recvDropStop h => f.recvDropStop h
  | .recvDropClose h => f.recvDropClose h
  | .sendData c buf => f.sendData c buf
  | .sendFinish c => f.sendFinish c
  | .sendFinishSeen c => f.sendFinishSeen c
  | .sendReset c code => f.sendReset c code
  | .sendDrop c => f.sendDrop c
  | .sendDropFinish c => f.sendDropFinish c
  | .acceptBidi => f.acceptBidi
  | .acceptBidiSwap => f.acceptBidiSwap
  | .acceptBidiSignal => f.acceptBidiSignal
  | .acceptUni => f.acceptUni
  | .acceptUniSwap => f.acceptUniSwap
  | .acceptUniSignal => f.acceptUniSignal
  | .openBidi => f.openSend .openBidi
  | .openUni => f.openSend .openUni
  | .takeReply r => f.takeReply r
  | .dropReply r => f.dropReply r
  | .close code reason => if 0 < f.sh.senders then f.cmdSend (.close code reason) else f
  | .cloneOpener =>
    if canOpen f.sh then
      { f with sh.openers := f.sh.openers + 1, sh.senders := f.sh.senders + 1 }
    else f
  | .dropOpener =>
    if 0 < f.sh.openers then { f with sh.openers := f.sh.openers - 1 }.dropSender else f
  | .dropConnection => f.dropConnection
  | .closeAcceptBidi => f.closeAcceptBidi
  | .closeAcceptUni => f.closeAcceptUni

end Face

namespace World

variable {σ : Type}

/-- A front-end action leaves the worker's own fields alone. -/
def front (w : World σ) (a : FrontAct) : World σ := { w with toFace := w.toFace.front a }

/-- The other tasks run here: the next batch of the script. -/
def interleave (w : World σ) : World σ :=
  { w with
    toFace := (w.ctl.script.headD []).foldl Face.front w.toFace
    ctl.script := w.ctl.script.tail }

end World

end QuicheH3
