/-
# The machine of one stream

Everything that can happen to a stream in the driver, as moves on its view.  A move is what the
driver does to the stream at once; where a batch of front-end actions falls inside (between the
building of a handoff and its delivery), the move has it inside.  `other` is what happens to
other streams.

Nothing is assumed of the transport: `ok data n` only says that some state of the transport
answered `n` when offered `data`.

Contents
  1  pieces: what a function of the driver does to the view of its stream
  2  the moves
  3  what the moves record, and invariants of whole runs
-/
import QuicheH3.Life.Aside
import QuicheH3.Recv.Machine

namespace QuicheH3

open Lib

/-! ## 1. Pieces -/

/-- The queue of class `b` gains the stream. -/
def bump (b : Bool) (q : Bool → Nat) : Bool → Nat := Function.update q b (q b + 1)

/-- The queue of class `b` loses the stream at its head. -/
def unbump (b : Bool) (q : Bool → Nat) : Bool → Nat := Function.update q b (q b - 1)

/-- A status cell is written by its first writer. -/
inductive SetCell (c : Nat) (e : SendEnd) (tr : List Event) : List Event → Prop
  | old (h : Published c tr) : SetCell c e tr tr
  | new (h : ¬ Published c tr) : SetCell c e tr (.sendSet c e :: tr)

theorem SetCell.suffix {c : Nat} {e : SendEnd} {tr tr' : List Event}
    (h : SetCell c e tr tr') : tr <:+ tr' := by
  cases h with
  | old => exact List.suffix_rfl
  | new => exact List.suffix_cons _ _

theorem SetCell.eq_cons {c : Nat} {e : SendEnd} {tr tr' : List Event} (h : SetCell c e tr tr')
    (hn : ¬ Published c tr) : tr' = .sendSet c e :: tr := by
  cases h with
  | old hp => exact absurd hp hn
  | new => rfl

/-- A cell nobody has seen. -/
def FreshCell (c : Nat) (tr : List Event) : Prop := (∀ i, ¬ CellOf c i tr) ∧ ¬ Published c tr

/-- `shutdown_peer_directions` was called for the stream. -/
def Shut (id : Nat) (tr : List Event) : Prop :=
  .streamShutdown id .read h3NoError ∈ tr ∧
    (isBidi id = true → .streamShutdown id .write h3NoError ∈ tr)

/-- The records of an end of stream `id`. -/
def Event.isEnd (id : Nat) : Event → Prop
  | .recvClose i _ | .sendClose i _ | .recvDone i | .sendDone i => i = id
  | .resolve _ _ | .cancel _ => True
  | _ => False

/-- Events that neither discover nor open stream `id`. -/
def Event.routine (id : Nat) : Event → Prop
  | .readableNext i t | .writableNext i t => t = true ∨ i ≠ id
  | .streamPriority i ok => ok = false ∨ i ≠ id
  | _ => True

/-- An entry that still sends. -/
structure StreamSendState.Open (s : StreamSendState) : Prop where
  terminal : s.terminal = none
  pendingReset : s.pendingReset = none

/-- The commands of stream `id` in a list of commands. -/
def cmdsOf (id : Nat) (cs : List DriverCommand) : List DriverCommand :=
  cs.filter fun c => c.streamId = some id

namespace Life

/-- A stream nobody has heard of. -/
def fresh : Life where
  recv := none
  send := none
  admission := none
  pend := none
  pendQ _ := 0
  parkQ _ := 0
  readable := false
  resume := false
  runnable := false
  cmds := []
  hist := []

/-- A batch of front-end actions: `cs` are the new commands for the stream. -/
structure Front (id : Nat) (v : Life) (cs : List DriverCommand) (tr : List Event) : Prop where
  grows : Grows Event.isFront v.hist tr
  record : cmdsOf id (submitted tr) = cs.reverse ++ cmdsOf id (submitted v.hist)
  known : cs ≠ [] → Known id v.hist
  ids : ∀ c ∈ cs, c.streamId = some id
  toks : (cs.filterMap DriverCommand.tok).Nodup
  fresh : ∀ c ∈ cs, ∀ t, c.tok = some t → ∀ i, ¬ Submitted t i v.hist

def submit (v : Life) (cs : List DriverCommand) (tr : List Event) : Life :=
  { v with cmds := v.cmds ++ cs, hist := tr }

/-- The stream leaves the queue it waits in. -/
inductive Take (v : Life) (b : Bool) (p : PeerStream) : Life → Prop
  | pending (hq : 0 < v.pendQ b) (ha : v.admission = none) (hr : v.recv = none)
      (hp : v.pend = some p) : Take v b p { v with pendQ := unbump b v.pendQ, pend := none }
  | parked (hq : 0 < v.parkQ b) (ha : v.admission = some (.parked p)) :
      Take v b p { v with parkQ := unbump b v.parkQ, admission := none }

def openRecv (v : Life) (id h : Nat) : Life :=
  { v.closeRecv id with recv := some h, hist := .recvOpen id h :: (v.closeRecv id).hist }

def openSend (v : Life) (id c : Nat) (retained : Option SendEnd) : Life :=
  match retained with
  | some e => (v.emit (.handle id c)).emit (.sendSet c e)
  | none =>
    let v := (v.emit (.handle id c)).closeSend id
    { v with send := some (.new c), hist := .sendOpen id c :: v.hist }

def ensure (v : Life) (id c : Nat) : Life :=
  match v.send with
  | some _ => v
  | none => { v with send := some (.new c), hist := .sendOpen id c :: v.hist }

def enqueue (v : Life) (id c : Nat) (op : SendOp) : Life :=
  let v := v.ensure id c
  match v.send with
  | none => v
  | some s =>
    match s.terminal with
    | some e => v.emit (.resolve op.tok (.error e))
    | none => { v with send := some { s with sendOps := s.sendOps ++ [op] }, runnable := true }

/-- The next command is taken up. -/
def pop (v : Life) (cmd : DriverCommand) (rest : List DriverCommand) : Life :=
  { v with cmds := rest, hist := .applied cmd :: v.hist }

/-- The operations are completed with the terminal and the direction is done. -/
def sendEnd (v : Life) (id : Nat) (s : StreamSendState) (e : SendEnd) (tr : List Event) : Life :=
  { v with
    send := some { s with terminal := some e, held := none, sendOps := [] }
    hist := resolved s.sendOps (.error e) tr }.sendDone id

/-- A local reset takes the entry: it waits for its turn. -/
def resetEntry (v : Life) (s : StreamSendState) (code : Nat) (tr : List Event) : Life :=
  { v with
    send := some { s with
      pendingReset := some code, terminal := some (.reset code), sendOps := [], held := none }
    hist := resolved s.sendOps (.error (.reset code)) tr
    runnable := true }

/-- The entry after an offer of which `n` bytes were taken. -/
def offered (v : Life) (id : Nat) (data : Bytes) (fin : Bool) (n : Nat) (s : StreamSendState) :
    Life :=
  { v with send := some s, hist := .streamSend id data fin (.ok n) :: v.hist }

/-- The cleanup of an open nobody waits for, after the handoff was dropped. -/
def undeliver (v : Life) (id : Nat) (bidi : Bool) : Life :=
  let v := (v.closeSend id).emit (.streamShutdown id .write h3RequestCancelled)
  if bidi then (v.closeRecv id).emit (.streamShutdown id .read h3RequestCancelled) else v

/-! ## 2. The moves -/

/-- `srv` is the role of the driver. -/
inductive Move (srv : Bool) (id : Nat) (ok : Bytes → Nat → Prop) : Life → Life → Prop
  | other (v : Life) (tr : List Event) (hg : Grows (Event.foreign id v.hist) v.hist tr) :
      Move srv id ok v { v with hist := tr }
  | front (v : Life) (cs : List DriverCommand) (tr : List Event) (hf : Front id v cs tr) :
      Move srv id ok v (v.submit cs tr)
  -- cursors
  | cursor (v : Life) (r s n : Bool) (hr : r = true → v.readable = true ∨ v.recv.isSome)
      (hs : s = true → v.resume = true) (hn : n = true → v.runnable = true ∨ v.send.isSome)
      (hd : v.runnable = true → n = false → ∀ s, v.send = some s → s.pendingReset = none) :
      Move srv id ok v { v with readable := r, resume := s, runnable := n }
  | turn (v : Life) (hn : ∀ s, v.send = some s → s.pendingReset = none) :
      Move srv id ok v { v with runnable := false, hist := .turn id :: v.hist }
  | readable (v : Life) (hr : v.recv = none) (ha : v.admission = none) (hp : v.pend = none) :
      Move srv id ok v { v with
        pend := some (.new id), pendQ := bump (isBidi id) v.pendQ
        hist := .readableNext id false :: v.hist }
  | writable (v : Life) (ans : Except QuicheError Nat) (hs : v.send = none)
      (hb : isBidi id = true) (ha : v.admission = none) (hp : v.pend = none) :
      Move srv id ok v { v with
        pend := some { PeerStream.new id with pendingSendTerminal := World.stoppedOf ans }
        pendQ := bump true v.pendQ
        hist := .streamCapacity id ans :: .writableNext id false :: v.hist }
  -- admission
  | mergePending (v : Life) (ans : Except QuicheError Nat) (p : PeerStream)
      (hs : v.send = none) (hp : v.pend = some p) :
      Move srv id ok v { v with
        pend := some (World.PeerStream.mergeStop p (World.stoppedOf ans))
        hist := .streamCapacity id ans :: v.hist }
  | mergeParked (v : Life) (ans : Except QuicheError Nat) (p : PeerStream)
      (hs : v.send = none) (ha : v.admission = some (.parked p)) :
      Move srv id ok v { v with
        admission := some (.parked (World.PeerStream.mergeStop p (World.stoppedOf ans)))
        hist := .streamCapacity id ans :: v.hist }
  | stale (v : Life) (b : Bool) (hq : 0 < v.pendQ b) (hs : v.admission.isSome ∨ v.recv.isSome) :
      Move srv id ok v { v with pendQ := unbump b v.pendQ, pend := none }
  | lost (v : Life) (b : Bool) (hq : 0 < v.pendQ b) (hp : v.pend = none) :
      Move srv id ok v { v with pendQ := unbump b v.pendQ }
  | skipParked (v : Life) (b : Bool) (hq : 0 < v.parkQ b)
      (ha : ∀ p, v.admission ≠ some (.parked p)) :
      Move srv id ok v { v with parkQ := unbump b v.parkQ }
  | repark (v v1 : Life) (b : Bool) (p : PeerStream) (ht : Take v b p v1) :
      Move srv id ok v { v1 with admission := some (.parked p), parkQ := bump b v1.parkQ }
  | tear (v v1 : Life) (b : Bool) (p : PeerStream) (ht : Take v b p v1) :
      Move srv id ok v { v1 with
        hist := (if isBidi id then [.streamShutdown id .write h3NoError] else []) ++
          .streamShutdown id .read h3NoError :: v1.hist }
  | admitBidi (v v1 : Life) (b : Bool) (p : PeerStream) (h c : Nat) (cs : List DriverCommand)
      (tr : List Event) (ht : Take v b p v1) (hb : isBidi id = true) (hc : FreshCell c v1.hist)
      (v2 : Life) (hv : v2 = { (v1.openRecv id h).openSend id c p.pendingSendTerminal with
        admission := some (.registered p.pendingSendTerminal.isSome false) })
          (hf : Front id v2 cs tr) :
      Move srv id ok v ((v2.submit cs tr).emit (.handOver id))
  | admitUni (v v1 : Life) (b : Bool) (p : PeerStream) (h : Nat) (cs : List DriverCommand)
      (tr : List Event) (ht : Take v b p v1) (hb : isBidi id = false)
      (v2 : Life) (hv : v2 = { v1.openRecv id h with admission := some (.registered true false) })
      (hf : Front id v2 cs tr) :
      Move srv id ok v ((v2.submit cs tr).emit (.handOver id))
  | clean (v : Life) (tr : List Event) (hg : Grows (Event.passing id v.hist) v.hist tr)
      (park pend : Bool)
      (hn : park = false → pend = false → Grows (Event.foreign id v.hist) v.hist tr)
      (hpark : park = true ↔ (0 < v.parkQ true ∨ 0 < v.parkQ false) ∧
        ∃ p, v.admission = some (.parked p))
      (hpend : pend = true ↔ (0 < v.pendQ true ∨ 0 < v.pendQ false) ∧ v.pend.isSome)
      (hs : park = true ∨ pend = true → Shut id tr) :
      Move srv id ok v { v with
        admission := if park then none else v.admission, parkQ := fun _ => 0
        pend := if pend then none else v.pend, pendQ := fun _ => 0, hist := tr }
  | settle (v : Life) : Move srv id ok v (v.settle id)
  -- opening
  | openBidi (v : Life) (h c : Nat) (hl : serverInitiated id = srv) (hb : isBidi id = true)
      (hc : FreshCell c v.hist) :
      Move srv id ok v (((v.emit (.streamPriority id true)).openRecv id h).openSend id c none)
  | openUni (v : Life) (c : Nat) (hl : serverInitiated id = srv) (hb : isBidi id = false)
      (hc : FreshCell c v.hist) :
      Move srv id ok v ((v.emit (.streamPriority id true)).openSend id c none)
  | undeliver (v : Life) (h c : Nat) (cs : List DriverCommand) (tr : List Event)
      (hl : serverInitiated id = srv) (hc : FreshCell c v.hist) (v2 : Life)
      (hv : v2 = if isBidi id then
        ((v.emit (.streamPriority id true)).openRecv id h).openSend id c none
        else (v.emit (.streamPriority id true)).openSend id c none)
      (hf : Front id v2 cs tr) (hd : isBidi id = true → .recvDropped h ∈ tr)
      (hs : .sendDropped c ∈ tr) (hfin : ∃ t, .submit (.finish id t) ∈ tr) :
      Move srv id ok v ((v2.submit cs tr).undeliver id (isBidi id))
  -- the receive direction
  | recvEnd (v : Life) (h : Nat) (tr : List Event) (hr : v.recv = some h)
      (hg : Grows (Event.foreign id v.hist) v.hist tr) (hs : Sealed h tr) :
      Move srv id ok v ({ v with hist := tr }.recvDone id)
  | abandon (v : Life) (h : Nat) (hr : v.recv = some h) (hd : .recvDropped h ∈ v.hist) :
      Move srv id ok v ((v.emit (.streamShutdown id .read h3NoError)).recvDone id)
  -- commands
  | applyResume (v : Life) (rest : List DriverCommand) (hc : v.cmds = .recvResume id :: rest) :
      Move srv id ok v { v.pop (.recvResume id) rest with resume := true }
  | applySend (v : Life) (buf : WriteBuf) (t : Nat) (p : Option Nat) (rest : List DriverCommand)
      (c : Nat) (hc : v.cmds = .send id buf t p :: rest) (hn : FreshCell c v.hist) :
      Move srv id ok v ((v.pop (.send id buf t p) rest).enqueue id c (.write buf t p))
  | applyFinish (v : Life) (t : Nat) (rest : List DriverCommand) (c : Nat)
      (hc : v.cmds = .finish id t :: rest) (hn : FreshCell c v.hist) :
      Move srv id ok v ((v.pop (.finish id t) rest).enqueue id c (.finish t))
  | applyReset (v : Life) (code : Nat) (rest : List DriverCommand) (c : Nat)
      (hc : v.cmds = .reset id code :: rest) (hn : FreshCell c v.hist) :
      Move srv id ok v ((v.pop (.reset id code) rest).ensure id c)
  | applyStop (v : Life) (code : Nat) (rest : List DriverCommand)
      (hc : v.cmds = .stopSending id code :: rest) :
      Move srv id ok v (((v.pop (.stopSending id code) rest).emit
        (.streamShutdown id .read code)).recvDone id)
  | resetEntry (v : Life) (s : StreamSendState) (code : Nat) (tr : List Event)
      (hs : v.send = some s) (ho : s.Open) (ha : .applied (.reset id code) ∈ v.hist)
      (hc : SetCell s.status (.reset code) v.hist tr) :
      Move srv id ok v (v.resetEntry s code tr)
  -- the send direction
  | capacity (v : Life) (ans : Except QuicheError Nat) (hs : v.send.isSome) :
      Move srv id ok v (v.emit (.streamCapacity id ans))
  | sendErr (v : Life) (s : StreamSendState) (data : Bytes) (fin : Bool) (err : QuicheError)
      (hs : v.send = some s) (ho : s.Open) (hw : s.sendOps ≠ [] ∨ s.held.isSome) :
      Move srv id ok v (v.emit (.streamSend id data fin (.error err)))
  | flush (v : Life) (s : StreamSendState) (buf : WriteBuf) (fin : Bool) (n : Nat)
      (hs : v.send = some s) (ho : s.Open) (hh : s.held = some buf)
      (hr : buf.hasRemaining = true) (hf : fin = true → ∃ t ops, s.sendOps = .finish t :: ops)
      (hn : ok buf.offered n) (hm : fin = false ∨ (buf.advance n).hasRemaining = true) :
      Move srv id ok v (v.offered id buf.offered (buf.offerFin fin) n
        { s with held := if (buf.advance n).hasRemaining then some (buf.advance n) else none })
  | flushFin (v : Life) (s : StreamSendState) (buf : WriteBuf) (n t : Nat) (ops : List SendOp)
      (hs : v.send = some s) (ho : s.Open) (hh : s.held = some buf)
      (hr : buf.hasRemaining = true) (hop : s.sendOps = .finish t :: ops)
      (hn : ok buf.offered n) (hm : (buf.advance n).hasRemaining = false) :
      Move srv id ok v ((v.offered id buf.offered (buf.offerFin true) n
        { s with held := none }).completeFinish id)
  | emptyHeld (v : Life) (s : StreamSendState) (buf : WriteBuf) (hs : v.send = some s)
      (ho : s.Open) (hh : s.held = some buf) (hr : buf.hasRemaining = false) :
      Move srv id ok v { v with send := some { s with held := none } }
  | emptyFin (v : Life) (s : StreamSendState) (buf : WriteBuf) (t : Nat) (ops : List SendOp)
      (hs : v.send = some s) (ho : s.Open) (hh : s.held = some buf)
      (hr : buf.hasRemaining = false) (hop : s.sendOps = .finish t :: ops) :
      Move srv id ok v ({ v with send := some { s with held := none } }.completeFinish id)
  | loneFin (v : Life) (s : StreamSendState) (n t : Nat) (ops : List SendOp)
      (hs : v.send = some s) (ho : s.Open) (hh : s.held = none)
      (hop : s.sendOps = .finish t :: ops) (hn : ok [] n) :
      Move srv id ok v ((v.emit (.streamSend id [] true (.ok n))).completeFinish id)
  | hold (v : Life) (s : StreamSendState) (buf : WriteBuf) (t : Nat) (p : Option Nat)
      (ops : List SendOp) (hs : v.send = some s) (ho : s.Open) (hh : s.held = none)
      (hop : s.sendOps = .write buf t p :: ops) (hr : 0 < buf.remaining) :
      Move srv id ok v { v with
        send := some { s with sendOps := ops, held := some buf }
        hist := .resolve t (.ok ()) :: v.hist }
  | offer (v : Life) (s : StreamSendState) (buf : WriteBuf) (t : Nat) (p : Option Nat)
      (ops : List SendOp) (n : Nat) (hs : v.send = some s) (ho : s.Open) (hh : s.held = none)
      (hop : s.sendOps = .write buf t p :: ops) (hr : buf.hasRemaining = true)
      (hn : ok buf.offered n) (hm : (buf.advance n).hasRemaining = true) :
      Move srv id ok v (v.offered id buf.offered false n
        { s with sendOps := .write (buf.advance n) t p :: ops })
  | accept (v : Life) (s : StreamSendState) (buf : WriteBuf) (t : Nat) (p : Option Nat)
      (ops : List SendOp) (n : Nat) (hs : v.send = some s) (ho : s.Open) (hh : s.held = none)
      (hop : s.sendOps = .write buf t p :: ops) (hr : buf.hasRemaining = true)
      (hn : ok buf.offered n) (hm : (buf.advance n).hasRemaining = false) :
      Move srv id ok v ((v.offered id buf.offered false n { s with sendOps := ops }).emit
        (.resolve t (.ok ())))
  | skipWrite (v : Life) (s : StreamSendState) (buf : WriteBuf) (t : Nat) (p : Option Nat)
      (ops : List SendOp) (hs : v.send = some s) (ho : s.Open) (hh : s.held = none)
      (hop : s.sendOps = .write buf t p :: ops) (hr : buf.hasRemaining = false) :
      Move srv id ok v { v with
        send := some { s with sendOps := ops }, hist := .resolve t (.ok ()) :: v.hist }
  | sendEnd (v : Life) (s : StreamSendState) (e : SendEnd) (tr : List Event)
      (hs : v.send = some s) (ho : s.Open) (hc : SetCell s.status e v.hist tr) :
      Move srv id ok v (v.sendEnd id s e tr)
  | resetTurn (v : Life) (s : StreamSendState) (code : Nat) (hs : v.send = some s)
      (hp : s.pendingReset = some code) :
      Move srv id ok v ((({ v with send := some { s with pendingReset := none } }.emit
        (.turn id)).emit (.streamShutdown id .write code)).sendDone id)

abbrev Moves (srv : Bool) (id : Nat) (ok : Bytes → Nat → Prop) : Life → Life → Prop :=
  Relation.ReflTransGen (Move srv id ok)

/-! ## 3. What the moves record -/

section Suffix

variable {srv : Bool} {id : Nat} {ok : Bytes → Nat → Prop} {v v' : Life}

theorem suffix_resolved (ops : List SendOp) (res : Except SendEnd Unit) (tr : List Event) :
    tr <:+ resolved ops res tr :=
  (World.grows_resolved (C := fun _ => True) res ops tr fun _ _ => trivial).suffix

theorem emit_suffix (v : Life) (e : Event) : v.hist <:+ (v.emit e).hist := List.suffix_cons _ _

theorem closeRecv_grows (v : Life) (id : Nat) :
    Grows (Event.isEnd id) v.hist (v.closeRecv id).hist := by
  unfold closeRecv
  split
  · exact .refl _ _
  · exact .one rfl

theorem closeSend_grows (v : Life) (id : Nat) :
    Grows (Event.isEnd id) v.hist (v.closeSend id).hist := by
  unfold closeSend
  split
  · exact .refl _ _
  · exact .cons rfl (World.grows_cancelled _ _ fun _ _ => trivial)

theorem settle_grows (v : Life) (id : Nat) : Grows (Event.isEnd id) v.hist (v.settle id).hist := by
  unfold settle
  split
  · exact closeRecv_grows { v with admission := none } id
  · exact .refl _ _

theorem reclaim_grows (v : Life) (id : Nat) :
    Grows (Event.isEnd id) v.hist (v.reclaim id).hist := by
  unfold reclaim
  split
  · split
    · exact closeSend_grows v id
    · exact .refl _ _
  · exact .refl _ _

theorem recvDone_grows (v : Life) (id : Nat) :
    Grows (Event.isEnd id) v.hist (v.recvDone id).hist := by
  unfold recvDone
  refine Grows.trans ?_ ((settle_grows _ id).trans (reclaim_grows _ id))
  exact .cons rfl (closeRecv_grows v id)

theorem sendDone_grows (v : Life) (id : Nat) :
    Grows (Event.isEnd id) v.hist (v.sendDone id).hist := by
  unfold sendDone
  refine Grows.trans ?_ (settle_grows _ id)
  exact .one rfl

theorem completeFinish_grows (v : Life) (id : Nat) :
    Grows (Event.isEnd id) v.hist (v.completeFinish id).hist := by
  unfold completeFinish popOp
  refine Grows.trans ?_ ((sendDone_grows _ id).trans (reclaim_grows _ id))
  split
  · split
    · exact .one trivial
    · exact .refl _ _
  · exact .refl _ _

theorem closeRecv_suffix (v : Life) (id : Nat) : v.hist <:+ (v.closeRecv id).hist :=
  (closeRecv_grows v id).suffix

theorem closeSend_suffix (v : Life) (id : Nat) : v.hist <:+ (v.closeSend id).hist :=
  (closeSend_grows v id).suffix

theorem settle_suffix (v : Life) (id : Nat) : v.hist <:+ (v.settle id).hist :=
  (settle_grows v id).suffix

theorem recvDone_suffix (v : Life) (id : Nat) : v.hist <:+ (v.recvDone id).hist :=
  (recvDone_grows v id).suffix

theorem sendDone_suffix (v : Life) (id : Nat) : v.hist <:+ (v.sendDone id).hist :=
  (sendDone_grows v id).suffix

theorem routine_of_foreign {id : Nat} {tr : List Event} (e : Event) (h : e.foreign id tr) :
    e.routine id := by
  cases e <;> first | exact h | trivial

theorem routine_of_isFront {id : Nat} (e : Event) (h : e.isFront) : e.routine id := by
  cases e <;> trivial

theorem routine_of_isEnd {id : Nat} (e : Event) (h : e.isEnd id) : e.routine id := by
  cases e <;> first | exact h.elim | trivial

theorem openRecv_grows (v : Life) (id h : Nat) :
    Grows (Event.routine id) v.hist (v.openRecv id h).hist :=
  .cons trivial ((closeRecv_grows v id).mono routine_of_isEnd)

theorem openSend_grows (v : Life) (id c : Nat) (retained : Option SendEnd) :
    Grows (Event.routine id) v.hist (v.openSend id c retained).hist := by
  have h1 : Grows (Event.routine id) v.hist (v.emit (.handle id c)).hist :=
    .one trivial
  cases retained with
  | some e => exact .cons trivial h1
  | none =>
    exact .cons trivial (h1.trans ((closeSend_grows (v.emit (.handle id c)) id).mono
      routine_of_isEnd))

theorem ensure_grows (v : Life) (id c : Nat) :
    Grows (Event.routine id) v.hist (v.ensure id c).hist := by
  unfold ensure
  split
  · exact .refl _ _
  · exact .one trivial

theorem ensure_grows_enqueue (v : Life) (id c : Nat) (op : SendOp) :
    Grows (Event.routine id) (v.ensure id c).hist (v.enqueue id c op).hist := by
  unfold enqueue
  dsimp only
  split
  · exact .refl _ _
  · split
    · exact .one trivial
    · exact .refl _ _

theorem enqueue_grows (v : Life) (id c : Nat) (op : SendOp) :
    Grows (Event.routine id) v.hist (v.enqueue id c op).hist :=
  (ensure_grows v id c).trans (ensure_grows_enqueue v id c op)

theorem undeliver_grows (v : Life) (id : Nat) (b : Bool) :
    Grows (Event.routine id) v.hist (v.undeliver id b).hist := by
  have h1 : Grows (Event.routine id) v.hist
      ((v.closeSend id).emit (.streamShutdown id .write h3RequestCancelled)).hist :=
    .cons trivial ((closeSend_grows v id).mono routine_of_isEnd)
  cases b with
  | true => exact .cons trivial (h1.trans ((closeRecv_grows _ id).mono routine_of_isEnd))
  | false => exact h1

theorem openRecv_suffix (v : Life) (id h : Nat) : v.hist <:+ (v.openRecv id h).hist :=
  (openRecv_grows v id h).suffix

theorem openSend_suffix (v : Life) (id c : Nat) (retained : Option SendEnd) :
    v.hist <:+ (v.openSend id c retained).hist := (openSend_grows v id c retained).suffix

theorem ensure_suffix (v : Life) (id c : Nat) : v.hist <:+ (v.ensure id c).hist :=
  (ensure_grows v id c).suffix

theorem ensure_suffix_enqueue (v : Life) (id c : Nat) (op : SendOp) :
    (v.ensure id c).hist <:+ (v.enqueue id c op).hist := (ensure_grows_enqueue v id c op).suffix

theorem enqueue_suffix (v : Life) (id c : Nat) (op : SendOp) :
    v.hist <:+ (v.enqueue id c op).hist := (enqueue_grows v id c op).suffix

theorem undeliver_suffix (v : Life) (id : Nat) (b : Bool) : v.hist <:+ (v.undeliver id b).hist :=
  (undeliver_grows v id b).suffix

theorem Take.hist {b : Bool} {p : PeerStream} (h : Take v b p v') : v'.hist = v.hist := by
  cases h <;> rfl

theorem setCell_grows {c : Nat} {e : SendEnd} {tr tr' : List Event} (h : SetCell c e tr tr') :
    Grows (Event.routine id) tr tr' := by
  cases h with
  | old => exact .refl _ _
  | new => exact .one trivial

/-- What a move has to say of a stream that appears: a scan reports it as unknown, or the driver
opens it, or nothing. -/
inductive News (srv : Bool) (id : Nat) (v v' : Life) : Prop
  | none (hg : Grows (Event.routine id) v.hist v'.hist)
  | read (hr : v.recv = none) (ha : v.admission = none) (hp : v.pend = none)
      (hh : v'.hist = .readableNext id false :: v.hist)
  | write (ans : Except QuicheError Nat) (hs : v.send = none) (hb : isBidi id = true)
      (ha : v.admission = none) (hp : v.pend = none)
      (hh : v'.hist = .streamCapacity id ans :: .writableNext id false :: v.hist)
  | opens (hl : serverInitiated id = srv)
      (hg : Grows (Event.routine id) (.streamPriority id true :: v.hist) v'.hist)

/-- The halves of a local stream are made. -/
theorem open_grows (v : Life) (id j c : Nat) (b : Bool) :
    Grows (Event.routine id) (.streamPriority id true :: v.hist)
      (if b then ((v.emit (.streamPriority id true)).openRecv id j).openSend id c none
        else (v.emit (.streamPriority id true)).openSend id c none).hist := by
  split
  · exact (openRecv_grows (v.emit (.streamPriority id true)) id j).trans
      (openSend_grows _ id c none)
  · exact openSend_grows (v.emit (.streamPriority id true)) id c none

theorem Move.news (h : Move srv id ok v v') : News srv id v v' := by
  have hone (e : Event) (tr : List Event) (he : e.routine id) :
      Grows (Event.routine id) tr (e :: tr) := .one he
  cases h with
  | other tr hg => exact .none (hg.mono routine_of_foreign)
  | front cs tr hf => exact .none (hf.grows.mono routine_of_isFront)
  | turn | mergePending | mergeParked | applyResume | capacity | sendErr | flush | hold | offer
  | skipWrite => exact .none (hone _ _ (by trivial))
  | readable hr ha hp => exact .read hr ha hp rfl
  | writable ans hs hb ha hp => exact .write ans hs hb ha hp rfl
  | repark v1 b p ht =>
    refine .none ?_
    rw [← ht.hist]
    exact .refl _ _
  | tear v1 b p ht =>
    refine .none ?_
    rw [← ht.hist]
    dsimp only
    split
    · exact .cons trivial (hone _ _ (by trivial))
    · exact hone _ _ (by trivial)
  | admitBidi v1 b p j c cs tr ht hb hc v2 hv hf =>
    refine .none (.cons trivial (Grows.trans ?_ (hf.grows.mono routine_of_isFront)))
    rw [← ht.hist, hv]
    exact (openRecv_grows v1 id j).trans (openSend_grows _ id c _)
  | admitUni v1 b p j cs tr ht hb v2 hv hf =>
    refine .none (.cons trivial (Grows.trans ?_ (hf.grows.mono routine_of_isFront)))
    rw [← ht.hist, hv]
    exact openRecv_grows v1 id j
  | clean tr hg => exact .none (hg.mono (of_passing routine_of_foreign fun _ => trivial))
  | settle => exact .none ((settle_grows v id).mono routine_of_isEnd)
  | openBidi j c hl => exact .opens hl (open_grows v id j c true)
  | openUni c hl => exact .opens hl (open_grows v id 0 c false)
  | undeliver j c cs tr hl hc v2 hv hf hd hs =>
    refine .opens hl (Grows.trans ?_ ((hf.grows.mono routine_of_isFront).trans
      (undeliver_grows (v2.submit cs tr) id (isBidi id))))
    rw [hv]
    exact open_grows v id j c (isBidi id)
  | recvEnd j tr hr hg hs =>
    exact .none ((hg.mono routine_of_foreign).trans
      ((recvDone_grows { v with hist := tr } id).mono routine_of_isEnd))
  | abandon j =>
    exact .none ((hone _ v.hist (by trivial)).trans
      ((recvDone_grows (v.emit (.streamShutdown id .read h3NoError)) id).mono routine_of_isEnd))
  | applySend buf t p rest c =>
    exact .none ((hone _ v.hist (by trivial)).trans
      (enqueue_grows (v.pop (.send id buf t p) rest) id c _))
  | applyFinish t rest c =>
    exact .none ((hone _ v.hist (by trivial)).trans
      (enqueue_grows (v.pop (.finish id t) rest) id c _))
  | applyReset code rest c =>
    exact .none ((hone _ v.hist (by trivial)).trans
      (ensure_grows (v.pop (.reset id code) rest) id c))
  | applyStop code rest =>
    refine .none (Grows.trans ?_ ((recvDone_grows ((v.pop (.stopSending id code) rest).emit
      (.streamShutdown id .read code)) id).mono routine_of_isEnd))
    exact .cons trivial (hone _ _ (by trivial))
  | resetEntry s code tr hs ho ha hc =>
    exact .none ((setCell_grows hc).trans (World.grows_resolved _ _ _ fun _ _ => trivial))
  | flushFin s buf n =>
    exact .none ((hone _ v.hist (by trivial)).trans ((completeFinish_grows (v.offered id buf.offered
      (buf.offerFin true) n { s with held := none }) id).mono routine_of_isEnd))
  | emptyFin s =>
    exact .none ((completeFinish_grows { v with send := some { s with held := none } } id).mono
      routine_of_isEnd)
  | loneFin s n =>
    exact .none ((hone _ v.hist (by trivial)).trans
      ((completeFinish_grows (v.emit (.streamSend id [] true (.ok n))) id).mono routine_of_isEnd))
  | accept => exact .none (.cons trivial (hone _ _ (by trivial)))
  | sendEnd s e tr hs ho hc =>
    refine .none (Grows.trans ?_ ((sendDone_grows _ id).mono routine_of_isEnd))
    exact (setCell_grows hc).trans (World.grows_resolved _ _ _ fun _ _ => trivial)
  | resetTurn s code =>
    refine .none (Grows.trans ?_ ((sendDone_grows _ id).mono routine_of_isEnd))
    exact .cons trivial (hone _ _ (by trivial))
  | _ => exact .none (.refl _ _)

theorem Move.suffix (h : Move srv id ok v v') : v.hist <:+ v'.hist := by
  cases h.news with
  | none hg => exact hg.suffix
  | read hr ha hp hh =>
    rw [hh]
    exact List.suffix_cons _ _
  | write ans hs hb ha hp hh =>
    rw [hh]
    exact (List.suffix_cons _ _).trans (List.suffix_cons _ _)
  | opens hl hg => exact (List.suffix_cons _ _).trans hg.suffix

theorem Moves.suffix (h : Moves srv id ok v v') : v.hist <:+ v'.hist := by
  induction h with
  | refl => exact List.suffix_rfl
  | tail _ hm ih => exact ih.trans hm.suffix

/-- **An invariant of one move, under a condition on what happens, is one of every sequence of
moves along which the condition always held.** -/
theorem Moves.induct {P : Event → List Event → Prop} {I : Life → Prop}
    (hI : ∀ v v', Move srv id ok v v' → Always P v'.hist → I v → I v')
    (h : Moves srv id ok v v') (hP : Always P v'.hist) (hv : I v) : I v' := by
  induction h with
  | refl => exact hv
  | tail _ hm ih => exact hI _ _ hm hP (ih (hP.suffix hm.suffix))

end Suffix

end Life

end QuicheH3
