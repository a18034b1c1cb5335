/-
# A scriptable transport (`conn.rs`, `mod mock`)

The crate tests its driver against `MockConn`.  The model has it too, for the concrete runs
that follow some of the theorems: a cursor is a list of ids, reads follow a script per stream,
sends accept up to a capacity.
-/
import Mathlib.Logic.Function.Basic
import QuicheH3.Transport
import QuicheH3.Buffer

namespace QuicheH3

/-- A transport that answers from a script. -/
structure MockConn where
  readableNext : List Nat := []
  writableNext : List Nat := []
  recvScript : Nat → List (Except QuicheError (Bytes × Bool)) := fun _ => []
  sendCapacity : Nat → Option Nat := fun _ => none
  sendErrors : Nat → List QuicheError := fun _ => []
  capacity : Nat → Except QuicheError Nat := fun _ => .ok (2 ^ 64 - 1)
  writableResults : Nat → Except QuicheError Bool := fun _ => .ok false
  streamsLeftBidi : Nat := 0
  streamsLeftUni : Nat := 0
  closeResult : Except QuicheError Unit := .ok ()
  peerError : Option ConnectionError := none
  localError : Option ConnectionError := none
  timedOut : Bool := false

namespace MockConn

/-- The next scripted step of `id`, `Done` when the script is used up. -/
def popRecv (c : MockConn) (id : Nat) : Except QuicheError (Bytes × Bool) × MockConn :=
  match c.recvScript id with
  | [] => (.error .done, c)
  | ans :: rest => (ans, { c with recvScript := Function.update c.recvScript id rest })

/-- Accept up to the capacity of `id`, or fail with its next scripted error. -/
def pushSend (c : MockConn) (id : Nat) (data : Bytes) : Except QuicheError Nat × MockConn :=
  match c.sendErrors id with
  | e :: rest => (.error e, { c with sendErrors := Function.update c.sendErrors id rest })
  | [] => (.ok (min ((c.sendCapacity id).getD data.length) data.length), c)

def popCursor (q : List Nat) : Option Nat × List Nat :=
  match q with
  | [] => (none, [])
  | id :: rest => (some id, rest)

end MockConn

/-- The mock as a transport. -/
def mockConn : QuicConn MockConn where
  streamRecv c id := c.popRecv id
  streamSend c id data _ := c.pushSend id data
  streamShutdown c _ _ _ := (.ok (), c)
  streamReadableNext c :=
    ((MockConn.popCursor c.readableNext).1,
      { c with readableNext := (MockConn.popCursor c.readableNext).2 })
  streamWritableNext c :=
    ((MockConn.popCursor c.writableNext).1,
      { c with writableNext := (MockConn.popCursor c.writableNext).2 })
  streamWritable c id _ := (c.writableResults id, c)
  streamReadable c id := c.recvScript id != []
  streamCapacity c id := (c.capacity id, c)
  streamPriority c _ _ _ := (.ok (), c)
  peerStreamsLeftBidi c := c.streamsLeftBidi
  peerStreamsLeftUni c := c.streamsLeftUni
  close c _ _ _ := (c.closeResult, c)
  peerError c := c.peerError
  localError c := c.localError
  isTimedOut c := c.timedOut

end QuicheH3
