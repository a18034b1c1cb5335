/-
# The transport (`conn.rs`)

`QuicConn` is the crate's own trait over the `quiche::Connection` methods the worker calls.
The worker is generic in it, and so is the model: a transport is a state type together with
one function per method, and nothing at all is assumed of their answers.  What a result needs
of the transport it states as a hypothesis.
-/
import QuicheH3.Error

namespace QuicheH3

/-- `quiche::Shutdown`. -/
inductive Shutdown
  | read
  | write
  deriving DecidableEq, Repr

/-- The trait `QuicConn`.  A method that takes `&mut self` returns the new state; `stream_recv`
returns the bytes it wrote into the caller's buffer. -/
structure QuicConn (σ : Type) where
  streamRecv : σ → Nat → Except QuicheError (Bytes × Bool) × σ
  streamSend : σ → Nat → Bytes → Bool → Except QuicheError Nat × σ
  streamShutdown : σ → Nat → Shutdown → Nat → Except QuicheError Unit × σ
  streamReadableNext : σ → Option Nat × σ
  streamWritableNext : σ → Option Nat × σ
  streamWritable : σ → Nat → Nat → Except QuicheError Bool × σ
  streamReadable : σ → Nat → Bool
  streamCapacity : σ → Nat → Except QuicheError Nat × σ
  streamPriority : σ → Nat → Nat → Bool → Except QuicheError Unit × σ
  peerStreamsLeftBidi : σ → Nat
  peerStreamsLeftUni : σ → Nat
  close : σ → Bool → Nat → Bytes → Except QuicheError Unit × σ
  peerError : σ → Option ConnectionError
  localError : σ → Option ConnectionError
  isTimedOut : σ → Bool

/-- Stream-class helper: a bidirectional stream has bit `0x2` clear. -/
def isBidi (id : Nat) : Bool := id &&& 0x2 == 0

/-- The initiator bit of a stream id: clear for a stream the client opened. -/
def serverInitiated (id : Nat) : Bool := id &&& 0x1 == 1

end QuicheH3
