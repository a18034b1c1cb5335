/-
# Terminal reasons and the classification of transport errors (`error.rs`)

The worker captures the reason of an end at the transport call that reports it and carries it
as typed data; channel closure is never itself a reason.  This module has the three terminal
types of `error.rs` (§8.2 there), the two classifiers that turn a transport error into a
reason (§8.3), and the mapping of a reason to what `h3` is told (§8.4).

`quiche::Error` belongs to a third-party crate.  Only the variants the classifiers name are
constructors here; every other one is `other`.
-/
import Mathlib.Algebra.Group.Nat.Defs

namespace QuicheH3

/-- A byte string, `Bytes` and `&[u8]` alike. -/
abbrev Bytes := List UInt8

/-- `quiche::Error`, as far as the worker tells its variants apart. -/
inductive QuicheError
  | done
  | streamStopped (code : Nat)
  | streamReset (code : Nat)
  | streamLimit
  | invalidState
  | invalidStreamState (id : Nat)
  | finalSize
  | flowControl
  | other
  deriving DecidableEq, Repr

/-- `quiche::ConnectionError`: a `CONNECTION_CLOSE` sent or received. -/
structure ConnectionError where
  isApp : Bool
  errorCode : Nat
  reason : Bytes
  deriving DecidableEq, Repr

def h3NoError : Nat := 0x100

def h3RequestCancelled : Nat := 0x10c

/-- Who initiated the `CONNECTION_CLOSE`. -/
inductive CloseOrigin
  | peer
  | locally
  deriving DecidableEq, Repr

/-- The connection terminal, computed once by the worker. -/
inductive ConnTerminal
  | appClose (origin : CloseOrigin) (errorCode : Nat) (reason : Bytes)
  | transport (origin : CloseOrigin) (errorCode : Nat)
  | timeout
  | internal (msg : String)
  deriving DecidableEq, Repr

/-- Terminal reason of a receive direction. -/
inductive RecvEnd
  | fin
  | reset (errorCode : Nat)
  | conn (t : ConnTerminal)
  deriving DecidableEq, Repr

/-- Terminal reason of a send direction. -/
inductive SendEnd
  | stopped (errorCode : Nat)
  | reset (errorCode : Nat)
  | conn (t : ConnTerminal)
  deriving DecidableEq, Repr

/-! ## 1. Internal reason to `h3` error (§8.4) -/

/-- `h3::quic::ConnectionErrorIncoming`.  The two opaque payloads of `Undefined`,
`LocalConnectionClose` and `TransportTerminal`, are told apart by their fields. -/
inductive ConnectionErrorIncoming
  | applicationClose (errorCode : Nat)
  | undefinedLocal (errorCode : Nat) (isApp : Bool)
  | undefinedTransport (errorCode : Nat) (fromPeer : Bool)
  | timeout
  | internalError (msg : String)
  deriving DecidableEq, Repr

/-- `h3::quic::StreamErrorIncoming`. -/
inductive StreamErrorIncoming
  | connectionErrorIncoming (e : ConnectionErrorIncoming)
  | streamTerminated (errorCode : Nat)
  deriving DecidableEq, Repr

def ConnTerminal.toH3 : ConnTerminal → ConnectionErrorIncoming
  | .appClose .peer code _ => .applicationClose code
  -- a local application close is not a peer one: reported opaque
  | .appClose .locally code _ => .undefinedLocal code true
  | .transport origin code => .undefinedTransport code (origin == .peer)
  | .timeout => .timeout
  | .internal msg => .internalError msg

/-- `none` is the clean end `Ok(None)` of `poll_data`. -/
def RecvEnd.toH3 : RecvEnd → Option StreamErrorIncoming
  | .fin => none
  | .reset code => some (.streamTerminated code)
  | .conn t => some (.connectionErrorIncoming t.toH3)

def SendEnd.toH3 : SendEnd → StreamErrorIncoming
  | .stopped code => .streamTerminated code
  | .reset code => .streamTerminated code
  | .conn t => .connectionErrorIncoming t.toH3

/-- The adapter-bug error: what a stream method reports when a channel closed and no terminal
was published. -/
def internalStreamError (msg : String) : StreamErrorIncoming :=
  .connectionErrorIncoming (.internalError msg)

/-! ## 2. Transport error to internal reason (§8.3) -/

def connTerminalFromError (origin : CloseOrigin) (err : ConnectionError) : ConnTerminal :=
  if err.isApp then .appClose origin err.errorCode err.reason
  else .transport origin err.errorCode

/-- Classification of a `stream_recv` error. -/
inductive StreamRecvClass
  | reset (code : Nat)
  | done
  | connGone
  | bug (msg : String)
  deriving DecidableEq, Repr

def classifyStreamRecvError : QuicheError → StreamRecvClass
  | .streamReset code => .reset code
  | .done => .done
  | .invalidState | .invalidStreamState _ | .finalSize | .flowControl => .connGone
  | _ => .bug "unexpected stream_recv error"

/-- Classification of a `stream_send` error. -/
inductive StreamSendClass
  | stopped (code : Nat)
  | blocked
  | limit
  | connGone
  | bug (msg : String)
  deriving DecidableEq, Repr

def classifyStreamSendError : QuicheError → StreamSendClass
  | .streamStopped code => .stopped code
  | .done => .blocked
  | .streamLimit => .limit
  | .invalidState | .invalidStreamState _ | .finalSize | .flowControl => .connGone
  | _ => .bug "unexpected stream_send error"

end QuicheH3
