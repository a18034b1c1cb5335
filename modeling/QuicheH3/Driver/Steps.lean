/-
# The atomic steps of a connection

The callbacks are long and the other tasks run between any two of their accesses to shared
memory.  `Step` cuts them into what happens AT ONCE: one constructor for each thing the worker
does between two such accesses, with everything the code has checked when it does it, and one
for an action of the front end.  `Refine.lean` shows that every run is a sequence of steps, so
an invariant is proved once, constructor by constructor, and holds along every run.

Two constructors keep a batch of front-end actions inside (`park` and the two `admit` ones):
what the worker knows when such a step ends goes back to its beginning, and the invariants that
need this are about the whole of it.
-/
import QuicheH3.Driver.FrontRel
import Mathlib.Logic.Relation

namespace QuicheH3

open Lib

/-! ## 1. Queries of the guards -/

/-- The answer of the last `stream_recv` of stream `id`. -/
def lastRead (id : Nat) : List Event → Option (Except QuicheError (Bytes × Bool))
  | [] => none
  | .streamRecv id' ans :: tr => if id' = id then some ans else lastRead id tr
  | _ :: tr => lastRead id tr

/-- The worker left half `h` because its channel was full, and has not come back to it. -/
def leftFull (h : Nat) : List Event → Bool
  | [] => false
  | .parkFull h' :: tr => if h' = h then true else leftFull h tr
  | .drain h' :: tr => if h' = h then false else leftFull h tr
  | _ :: tr => leftFull h tr

theorem blind_lastRead (id : Nat) : Blind Event.isFront (lastRead id) := by
  intro e tr he
  cases e <;> first | rfl | exact he.elim

theorem blind_leftFull (h : Nat) : Blind Event.isFront (leftFull h) := by
  intro e tr he
  cases e <;> first | rfl | exact he.elim

/-- Events of calls that change nothing but the transport. -/
def Event.isProbe : Event → Prop
  | .streamWritable _ _ | .streamPriority _ false | .connClose _ _ _ => True
  | .writableNext _ true => True
  | _ => False

/-- The bytes `flush_held_once` and `service_write_turn` offer. -/
def WriteBuf.offered (buf : WriteBuf) : Bytes :=
  buf.chunk.take (min buf.chunk.length maxWriteChunk)

/-- The FIN goes with the offer that empties the buffer. -/
def WriteBuf.offerFin (buf : WriteBuf) (fin : Bool) : Bool :=
  fin && min buf.chunk.length maxWriteChunk == buf.remaining

namespace World

variable {σ : Type}

/-- The send half of `id` is registered, without a terminal and without a pending reset. -/
structure LiveSend (w : World σ) (id : Nat) (s : StreamSendState) : Prop where
  entry : w.reg.send.lookup id = some s
  terminal : s.terminal = none
  pendingReset : s.pendingReset = none

/-! ## 2. Parts of steps -/

/-- A batch of front-end actions. -/
def fronts (w : World σ) (acts : List FrontAct) : World σ :=
  { w with toFace := acts.foldl Face.front w.toFace }

/-- The calls of `shutdown_peer_directions`. -/
def noteShutdown (w : World σ) (id : Nat) (bidi : Bool) : World σ :=
  let w := w.emit (.streamShutdown id .read h3NoError)
  if bidi then w.emit (.streamShutdown id .write h3NoError) else w

/-- A discovered peer stream leaves the queue it waits in. -/
inductive Take (r : Registry) (bidi : Bool) (id : Nat) (peer : PeerStream) : Registry → Prop
  | pending {rest : List Nat} (hq : pendingOf r bidi = id :: rest)
      (ha : r.admission.lookup id = none) (hr : r.recv.lookup id = none)
      (hp : r.pendingAdmit.lookup id = some peer) :
      Take r bidi id peer
        { setPendingOf r bidi rest with
          pendingAdmit := (setPendingOf r bidi rest).pendingAdmit.erase id }
  | parked {rest : List Nat} (hq : parkedOf r bidi = id :: rest)
      (ha : r.admission.lookup id = some (.parked peer)) :
      Take r bidi id peer
        { setParkedOf r bidi rest with admission := (setParkedOf r bidi rest).admission.erase id }

/-- The next command leaves the inbox, or the channel when the inbox is empty. -/
inductive Popped (w : World σ) (cmd : DriverCommand) : World σ → Prop
  | inbox {rest : List DriverCommand} (h : w.inbox = cmd :: rest) :
      Popped w cmd { w with inbox := rest }
  | channel {rest : List DriverCommand} (h0 : w.inbox = []) (h : w.sh.cmdRx = cmd :: rest) :
      Popped w cmd { w with sh.cmdRx := rest }

/-- What the application of a command does at once. -/
def applyNow (T : QuicConn σ) (w : World σ) (cmd : DriverCommand) : World σ :=
  let w := w.emit (.applied cmd)
  match cmd with
  | .recvResume id => { w with reg := w.reg.enqueueResume id }
  | .send id buf done permit => w.enqueueSendOp id (.write buf done permit)
  | .finish id done => w.enqueueSendOp id (.finish done)
  | .reset id _ => w.ensureSend id
  | .stopSending id code => (w.emit (.streamShutdown id .read code)).markRecvDone id
  | .connectionDropped => w.cleanUndeliveredPeerStreams T
  | .openBidi reply => { w with openBidi := w.openBidi ++ [reply] }
  | .openUni reply => { w with openUni := w.openUni ++ [reply] }
  | _ => w

/-- The cleanup of an open nobody waits for. -/
def undeliver (w : World σ) (bidi : Bool) (id : Nat) (ans : Reply) : World σ :=
  let w := ((w.dropAnswer ans).dropSendEntry id).emit (.streamShutdown id .write h3RequestCancelled)
  if bidi then (w.dropRecvEntry id).emit (.streamShutdown id .read h3RequestCancelled) else w

/-- The next local id of the class is taken and its halves are built; `rest` are the requests
that stay queued. -/
def opened (w : World σ) (bidi : Bool) (rest : List Nat) : Reply × World σ :=
  (((w.setOpenOf bidi rest).emit (.streamPriority (w.nextIdOf bidi) true)).advanceNextId
    bidi).buildOpen bidi (w.nextIdOf bidi)

/-- A chunk and its permit: placed, or given back when there is nothing to place. -/
def placeChunk (w : World σ) (h : Nat) (chunk : Bytes) : World σ :=
  if chunk ≠ [] then w.permitSend h chunk else w.permitDrop h

/-- The reset turn without its call. -/
def resetTurn (w : World σ) (id code : Nat) (s : StreamSendState) : World σ :=
  ((w.putSend id { s with pendingReset := none }).emit
    (.streamShutdown id .write code)).markSendDone
    id

/-- Peer discovery by the writable scan. -/
def discovered (w : World σ) (id : Nat) (ans : Except QuicheError Nat) : World σ :=
  let w := (w.emit (.writableNext id false)).emit (.streamCapacity id ans)
  { w with
    reg := { w.reg with
      pendingAdmit := w.reg.pendingAdmit.insert id
        { PeerStream.new id with pendingSendTerminal := stoppedOf ans } }.pushPendingAdmit id }

/-! ## 3. The steps -/

/-- One atomic step. -/
inductive Step (T : QuicConn σ) : World σ → World σ → Prop
  -- the other tasks, and what only moves flags, budgets or the transport
  | front (w : World σ) (a : FrontAct) : Step T w (w.front a)
  | ctl (w : World σ) (c : Ctl σ) : Step T w { w with ctl := c }
  | probe (w : World σ) (e : Event) (he : e.isProbe) : Step T w (w.emit e)
  -- the read pump
  | readable (w : World σ) (id : Nat) :
      Step T w ((w.emit (.readableNext id (w.reg.readTracked id))).intakeOne id)
  | requeue (w : World σ) (id h : Nat) (hr : w.reg.recv.lookup id = some h) :
      Step T w { w with reg := w.reg.requeueReadable id }
  | popResume (w : World σ) (id h : Nat) (rest : OnceQueue Nat)
      (hp : w.reg.pendingResume.pop = some (id, rest)) (hr : w.reg.recv.lookup id = some h) :
      Step T w (({ w with reg.pendingResume := rest }.modRecv h
        fun r => { r with resume := false }).emit (.drain h))
  | skipResume (w : World σ) (id : Nat) (rest : OnceQueue Nat)
      (hp : w.reg.pendingResume.pop = some (id, rest)) (hr : w.reg.recv.lookup id = none) :
      Step T w { w with reg.pendingResume := rest }
  | popReadable (w : World σ) (id h : Nat) (rest : OnceQueue Nat)
      (hp : w.reg.pendingReadable.pop = some (id, rest)) (hr : w.reg.recv.lookup id = some h) :
      Step T w ({ w with reg.pendingReadable := rest }.emit (.drain h))
  | skipReadable (w : World σ) (id : Nat) (rest : OnceQueue Nat)
      (hp : w.reg.pendingReadable.pop = some (id, rest)) (hr : w.reg.recv.lookup id = none) :
      Step T w { w with reg.pendingReadable := rest }
  | drain (w : World σ) (id h : Nat) (hr : w.reg.recv.lookup id = some h) :
      Step T w (w.emit (.drain h))
  | reserve (w : World σ) (id h : Nat) (hr : w.reg.recv.lookup id = some h)
      (hg : (w.sh.recvHalves h).holder ≠ .gone)
      (hf : (w.sh.recvHalves h).bytes.length < (w.sh.recvHalves h).depth) :
      Step T w ((w.modRecv h fun r => { r with permit := true }).emit (.reserve h))
  | setBlocked (w : World σ) (id h : Nat) (b : Bool) (hr : w.reg.recv.lookup id = some h)
      (hl : leftFull h w.trace = false) :
      Step T w (w.modRecv h fun r => { r with blocked := b })
  | park (w : World σ) (id h : Nat) (acts : List FrontAct) (hr : w.reg.recv.lookup id = some h)
      (hl : leftFull h w.trace = false) (w' : World σ)
      (hw : w' = (w.modRecv h fun r => { r with blocked := true }).fronts acts)
      (hf : (w'.sh.recvHalves h).depth ≤ (w'.sh.recvHalves h).bytes.length) :
      Step T w (w'.emit (.parkFull h))
  | readErr (w : World σ) (id h : Nat) (err : QuicheError) (hr : w.reg.recv.lookup id = some h)
      (hp : (w.sh.recvHalves h).permit = true) :
      Step T w ((w.emit (.streamRecv id (.error err))).permitDrop h)
  | readOk (w : World σ) (id h : Nat) (chunk : Bytes) (fin : Bool)
      (hr : w.reg.recv.lookup id = some h) (hp : (w.sh.recvHalves h).permit = true) :
      Step T w ((w.emit (.streamRecv id (.ok (chunk, fin)))).placeChunk h chunk)
  | recvEnd (w : World σ) (id h : Nat) (e : RecvEnd) (hr : w.reg.recv.lookup id = some h)
      (hf : e = .fin → ∃ chunk, lastRead id w.trace = some (.ok (chunk, true))) :
      Step T w ((w.setRecvCell h e).markRecvDone id)
  | abandon (w : World σ) (id h : Nat) (hr : w.reg.recv.lookup id = some h)
      (hg : (w.sh.recvHalves h).holder = .gone) :
      Step T w ((w.emit (.streamShutdown id .read h3NoError)).markRecvDone id)
  | forgetRecv (w : World σ) (id h : Nat) (hr : w.reg.recv.lookup id = some h)
      (hl : leftFull h w.trace = false) : Step T w { w with reg := w.reg.dropRecvMemberships id }
  -- admission
  | stalePending (w : World σ) (bidi : Bool) (id : Nat) (rest : List Nat)
      (hq : pendingOf w.reg bidi = id :: rest)
      (hs : (w.reg.admission.lookup id).isSome ∨ (w.reg.recv.lookup id).isSome) :
      Step T w { w with
        reg := { setPendingOf w.reg bidi rest with
          pendingAdmit := (setPendingOf w.reg bidi rest).pendingAdmit.erase id } }
  | lostPending (w : World σ) (bidi : Bool) (id : Nat) (rest : List Nat)
      (hq : pendingOf w.reg bidi = id :: rest) (hp : w.reg.pendingAdmit.lookup id = none) :
      Step T w { w with reg := setPendingOf w.reg bidi rest }
  | skipParked (w : World σ) (bidi : Bool) (id : Nat) (rest : List Nat)
      (hq : parkedOf w.reg bidi = id :: rest)
      (ha : ∀ peer, w.reg.admission.lookup id ≠ some (.parked peer)) :
      Step T w { w with reg := setParkedOf w.reg bidi rest }
  | admitBidi (w : World σ) (bidi : Bool) (id : Nat) (peer : PeerStream) (r : Registry)
      (acts : List FrontAct) (ht : Take w.reg bidi id peer r) (hb : isBidi peer.id = true) :
      Step T w ((({ w with reg := r }.buildPeerBidi peer).2.fronts acts).pushAcceptBidi peer.id
        ({ w with reg := r }.buildPeerBidi peer).1)
  | admitUni (w : World σ) (bidi : Bool) (id : Nat) (peer : PeerStream) (r : Registry)
      (acts : List FrontAct) (ht : Take w.reg bidi id peer r) (hb : isBidi peer.id = false) :
      Step T w ((({ w with reg := r }.buildPeerUni peer).2.fronts acts).pushAcceptUni peer.id
        ({ w with reg := r }.buildPeerUni peer).1)
  | repark (w : World σ) (bidi front : Bool) (id : Nat) (peer : PeerStream) (r : Registry)
      (ht : Take w.reg bidi id peer r) : Step T w ({ w with reg := r }.parkPeer bidi front id peer)
  | tear (w : World σ) (bidi : Bool) (id : Nat) (peer : PeerStream) (r : Registry)
      (ht : Take w.reg bidi id peer r) :
      Step T w ({ w with reg := r }.noteShutdown peer.id (isBidi peer.id))
  | settle (w : World σ) (id : Nat) : Step T w (w.terminalTransition id)
  | acceptFlag (w : World σ) (bidi b : Bool) : Step T w (w.setAcceptResume bidi b)
  -- opening
  | skipOpen (w : World σ) (bidi : Bool) (r : Nat) (rest : List Nat)
      (hq : w.openOf bidi = r :: rest) (hw : w.sh.replies r ≠ .waiting) :
      Step T w (w.setOpenOf bidi rest)
  | failOpen (w : World σ) (bidi : Bool) (r : Nat) (rest : List Nat) (t : ConnTerminal)
      (hq : w.openOf bidi = r :: rest) (hw : w.sh.replies r = .waiting) :
      Step T w (((w.setOpenOf bidi rest).setReply r (.failed t)).emit (.answer r (some t)))
  | openDeliver (w : World σ) (bidi : Bool) (r : Nat) (rest : List Nat) (acts : List FrontAct)
      (hq : w.openOf bidi = r :: rest) (w' : World σ)
      (hw' : w' = (w.opened bidi rest).2.fronts acts) (hw : w'.sh.replies r = .waiting) :
      Step T w ((w'.setReply r (w.opened bidi rest).1).emit (.answer r none))
  | openUndeliver (w : World σ) (bidi : Bool) (r : Nat) (rest : List Nat) (acts : List FrontAct)
      (c : Ctl σ) (hq : w.openOf bidi = r :: rest) (w' : World σ)
      (hw' : w' = { (w.opened bidi rest).2.fronts acts with ctl := c })
      (hw : w'.sh.replies r ≠ .waiting) :
      Step T w (w'.undeliver bidi (w.nextIdOf bidi) (w.opened bidi rest).1)
  -- the writable scan
  | discover (w : World σ) (id : Nat) (ans : Except QuicheError Nat)
      (hu : w.reg.writeTracked id = false) : Step T w (w.discovered id ans)
  | mergePending (w : World σ) (id : Nat) (ans : Except QuicheError Nat) (peer : PeerStream)
      (hs : w.reg.send.lookup id = none) (hp : w.reg.pendingAdmit.lookup id = some peer) :
      Step T w { w.emit (.streamCapacity id ans) with
        reg.pendingAdmit := w.reg.pendingAdmit.insert id (PeerStream.mergeStop peer (stoppedOf ans))
          }
  | mergeParked (w : World σ) (id : Nat) (ans : Except QuicheError Nat) (peer : PeerStream)
      (hs : w.reg.send.lookup id = none) (ha : w.reg.admission.lookup id = some (.parked peer)) :
      Step T w { w.emit (.streamCapacity id ans) with
        reg.admission := w.reg.admission.insert id
          (.parked (PeerStream.mergeStop peer (stoppedOf ans))) }
  | capacity (w : World σ) (id : Nat) (ans : Except QuicheError Nat)
      (hs : (w.reg.send.lookup id).isSome) : Step T w (w.emit (.streamCapacity id ans))
  | markRunnable (w : World σ) (id : Nat) (hs : (w.reg.send.lookup id).isSome) :
      Step T w { w with reg := w.reg.markSendRunnable id }
  -- the send stage
  | popRunnable (w : World σ) (id : Nat) (rest : OnceQueue Nat)
      (hp : w.reg.runnableSend.pop = some (id, rest))
      (hn : ∀ s, w.reg.send.lookup id = some s → s.pendingReset = none) :
      Step T w ({ w with reg.runnableSend := rest }.emit (.turn id))
  | sendErr (w : World σ) (id : Nat) (s : StreamSendState) (data : Bytes) (fin : Bool)
      (err : QuicheError) (hl : w.LiveSend id s) (ho : s.sendOps ≠ [] ∨ s.held.isSome) :
      Step T w (w.emit (.streamSend id data fin (.error err)))
  | flush (w : World σ) (id : Nat) (s : StreamSendState) (buf : WriteBuf) (fin : Bool) (n : Nat)
      (c : σ) (hl : w.LiveSend id s) (hh : s.held = some buf) (hr : buf.hasRemaining = true)
      (hf : fin = true → ∃ t ops, s.sendOps = .finish t :: ops)
      (hn : (T.streamSend c id buf.offered (buf.offerFin fin)).1 = .ok n)
      (hm : fin = false ∨ (buf.advance n).hasRemaining = true) :
      Step T w ((w.emit (.streamSend id buf.offered (buf.offerFin fin) (.ok n))).putSend id
        { s with held := if (buf.advance n).hasRemaining then some (buf.advance n) else none })
  | flushFin (w : World σ) (id : Nat) (s : StreamSendState) (buf : WriteBuf) (n t : Nat)
      (ops : List SendOp) (c : σ) (hl : w.LiveSend id s) (hh : s.held = some buf)
      (hr : buf.hasRemaining = true) (ho : s.sendOps = .finish t :: ops)
      (hn : (T.streamSend c id buf.offered (buf.offerFin true)).1 = .ok n)
      (hm : (buf.advance n).hasRemaining = false) :
      Step T w (((w.emit (.streamSend id buf.offered (buf.offerFin true) (.ok n))).putSend id
        { s with held := none }).completeFinishOp id)
  | emptyHeld (w : World σ) (id : Nat) (s : StreamSendState) (buf : WriteBuf)
      (hl : w.LiveSend id s) (hh : s.held = some buf) (hr : buf.hasRemaining = false) :
      Step T w (w.putSend id { s with held := none })
  | emptyFin (w : World σ) (id : Nat) (s : StreamSendState) (buf : WriteBuf) (t : Nat)
      (ops : List SendOp) (hl : w.LiveSend id s) (hh : s.held = some buf)
      (hr : buf.hasRemaining = false) (ho : s.sendOps = .finish t :: ops) :
      Step T w ((w.putSend id { s with held := none }).completeFinishOp id)
  | loneFin (w : World σ) (id : Nat) (s : StreamSendState) (n t : Nat) (ops : List SendOp) (c : σ)
      (hl : w.LiveSend id s) (hh : s.held = none) (ho : s.sendOps = .finish t :: ops)
      (hn : (T.streamSend c id [] true).1 = .ok n) :
      Step T w ((w.emit (.streamSend id [] true (.ok n))).completeFinishOp id)
  | hold (w : World σ) (id : Nat) (s : StreamSendState) (buf : WriteBuf) (t : Nat)
      (permit : Option Nat) (ops : List SendOp) (hl : w.LiveSend id s) (hh : s.held = none)
      (ho : s.sendOps = .write buf t permit :: ops) (hr : 0 < buf.remaining) :
      Step T w ((w.completeOp (.write buf t permit) (.ok ())).putSend id
        { s with sendOps := ops, held := some buf })
  | offer (w : World σ) (id : Nat) (s : StreamSendState) (buf : WriteBuf) (t : Nat)
      (permit : Option Nat) (ops : List SendOp) (n : Nat) (c : σ) (hl : w.LiveSend id s)
      (hh : s.held = none) (ho : s.sendOps = .write buf t permit :: ops)
      (hr : buf.hasRemaining = true) (hn : (T.streamSend c id buf.offered false).1 = .ok n)
      (hm : (buf.advance n).hasRemaining = true) :
      Step T w ((w.emit (.streamSend id buf.offered false (.ok n))).putSend id
        { s with sendOps := .write (buf.advance n) t permit :: ops })
  | accept (w : World σ) (id : Nat) (s : StreamSendState) (buf : WriteBuf) (t : Nat)
      (permit : Option Nat) (ops : List SendOp) (n : Nat) (c : σ) (hl : w.LiveSend id s)
      (hh : s.held = none) (ho : s.sendOps = .write buf t permit :: ops)
      (hr : buf.hasRemaining = true) (hn : (T.streamSend c id buf.offered false).1 = .ok n)
      (hm : (buf.advance n).hasRemaining = false) :
      Step T w (((w.emit (.streamSend id buf.offered false (.ok n))).putSend id
        { s with sendOps := ops }).completeOp (.write (buf.advance n) t permit) (.ok ()))
  | skipWrite (w : World σ) (id : Nat) (s : StreamSendState) (buf : WriteBuf) (t : Nat)
      (permit : Option Nat) (ops : List SendOp) (hl : w.LiveSend id s) (hh : s.held = none)
      (ho : s.sendOps = .write buf t permit :: ops) (hr : buf.hasRemaining = false) :
      Step T w ((w.putSend id { s with sendOps := ops }).completeOp (.write buf t permit) (.ok ()))
  | sendEnd (w : World σ) (id : Nat) (s : StreamSendState) (e : SendEnd) (hl : w.LiveSend id s) :
      Step T w (w.sendTerminalTransition id e)
  | resetTurn (w : World σ) (id code : Nat) (s : StreamSendState) (rest : OnceQueue Nat)
      (hq : w.reg.runnableSend.pop = some (id, rest)) (hs : w.reg.send.lookup id = some s)
      (hp : s.pendingReset = some code) :
      Step T w (({ w with reg.runnableSend := rest }.emit (.turn id)).resetTurn id code s)
  -- commands
  | apply (w w' : World σ) (cmd : DriverCommand) (hp : w.Popped cmd w') :
      Step T w (w'.applyNow T cmd)
  | resetEntry (w : World σ) (id code : Nat) (ha : .applied (.reset id code) ∈ w.trace) :
      Step T w (w.resetEntry id code)
  | toInbox (w : World σ) (cmd : DriverCommand) (rest : List DriverCommand)
      (hc : w.sh.cmdRx = cmd :: rest) :
      Step T w { w with inbox := w.inbox ++ [cmd], sh.cmdRx := rest }

/-- A sequence of steps. -/
abbrev Steps (T : QuicConn σ) : World σ → World σ → Prop := Relation.ReflTransGen (Step T)

end World

end QuicheH3
