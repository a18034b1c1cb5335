/-
# Admission of peer streams (`driver.rs`)

`admit_one`, `phase2_admission`, `promote_parked`, `clean_undelivered_peer_streams`, and the
two builders `build_recv` and `build_send` that admission shares with opening.
-/
import QuicheH3.Driver.Recv

namespace QuicheH3

open Lib

namespace World

variable {σ : Type}

/-! ## 1. Building the halves -/

/-- `build_recv`, together with the insertion of its registry entry: a fresh half with its
cell set from a retained terminal; an entry only if there is none.  Returns the half. -/
def buildRecv (w : World σ) (id : Nat) (retained : Option RecvEnd) : Nat × World σ :=
  let h := w.sh.nextRecv
  let w :=
    { w with
      sh.nextRecv := h + 1
      sh.senders := w.sh.senders + 1
      sh.recvHalves := Function.update w.sh.recvHalves h
        { (default : RecvHalf) with
          id := id, depth := max w.recvChannelDepth 1, holder := .handoff } }
  match retained with
  | some e => (h, w.setRecvCell h e)
  | none => (h, w.insertRecv id h)

/-- `build_send`, together with the insertion of its registry entry. -/
def buildSend (w : World σ) (id : Nat) (retained : Option SendEnd) : Nat × World σ :=
  let c := w.sh.nextSend
  let w :=
    { w with
      sh.nextSend := c + 1
      sh.senders := w.sh.senders + 1
      sh.sendHalves := Function.update w.sh.sendHalves c
        { (default : SendHalf) with id := id, holder := .handoff } }.emit (.handle id c)
  match retained with
  | some e => (c, w.setSendCell c e)
  | none => (c, w.insertSend id c)

/-! ## 2. `admit_one` -/

/-- `AdmitResult`. -/
inductive AdmitResult
  | registered
  | full (peer : PeerStream)
  | tornDown

section Admit

variable (T : QuicConn σ)

/-- Build the halves of a peer bidi stream and register it. -/
def buildPeerBidi (w : World σ) (peer : PeerStream) : (Nat × Nat) × World σ :=
  let (h, w) := w.buildRecv peer.id peer.pendingRecvTerminal
  let (c, w) := w.buildSend peer.id peer.pendingSendTerminal
  ((h, c),
    { w with
      reg.admission := w.reg.admission.insert peer.id
        (.registered peer.pendingSendTerminal.isSome peer.pendingRecvTerminal.isSome) })

/-- Build the half of a peer uni stream, receive-only locally, and register it. -/
def buildPeerUni (w : World σ) (peer : PeerStream) : Nat × World σ :=
  let (h, w) := w.buildRecv peer.id peer.pendingRecvTerminal
  (h,
    { w with
      reg.admission := w.reg.admission.insert peer.id
        (.registered true peer.pendingRecvTerminal.isSome) })

/-- `permit.send(handoff)` on the accept queue of the class. -/
def pushAcceptBidi (w : World σ) (id : Nat) (x : Nat × Nat) : World σ :=
  { w with sh.acceptBidi := w.sh.acceptBidi ++ [x] }.emit (.handOver id)

def pushAcceptUni (w : World σ) (id h : Nat) : World σ :=
  { w with sh.acceptUni := w.sh.acceptUni ++ [h] }.emit (.handOver id)

/-- Register a peer stream and hand it over. -/
def registerBidi (w : World σ) (peer : PeerStream) : World σ :=
  let (x, w) := w.buildPeerBidi peer
  w.interleave.pushAcceptBidi peer.id x

def registerUni (w : World σ) (peer : PeerStream) : World σ :=
  let (h, w) := w.buildPeerUni peer
  w.interleave.pushAcceptUni peer.id h

/-- What `admit_one` does after the hand-over. -/
def admitFinish (w : World σ) (id : Nat) : World σ :=
  let w := w.terminalTransition id
  match w.reg.recv.lookup id with
  | some h => (w.emit (.drain h)).drainStream T id
  | none => w

/-- `admit_one`: reserve the accept slot of the class, upgrade the weak sender, register. -/
def admitOne (w : World σ) (peer : PeerStream) : AdmitResult × World σ :=
  let id := peer.id
  let w := w.interleave
  if isBidi id then
    if w.sh.acceptBidiOpen = false then (.tornDown, w.shutdownPeerDirections T id true)
    else if w.sh.acceptBidiCap ≤ w.sh.acceptBidi.length then (.full peer, w)
    else
      let w := w.interleave
      if w.sh.senders = 0 then (.tornDown, w.shutdownPeerDirections T id true)
      else (.registered, (w.registerBidi peer).admitFinish T id)
  else
    if w.sh.acceptUniOpen = false then (.tornDown, w.shutdownPeerDirections T id false)
    else if w.sh.acceptUniCap ≤ w.sh.acceptUni.length then (.full peer, w)
    else
      let w := w.interleave
      if w.sh.senders = 0 then (.tornDown, w.shutdownPeerDirections T id false)
      else (.registered, (w.registerUni peer).admitFinish T id)

/-! ## 3. `phase2_admission` -/

/-- The pending queue of a class, and its replacement. -/
def pendingOf (r : Registry) (bidi : Bool) : List Nat :=
  if bidi then r.pendingAdmitBidi else r.pendingAdmitUni

def setPendingOf (r : Registry) (bidi : Bool) (q : List Nat) : Registry :=
  if bidi then { r with pendingAdmitBidi := q } else { r with pendingAdmitUni := q }

/-- The parked queue of a class, and its replacement. -/
def parkedOf (r : Registry) (bidi : Bool) : List Nat :=
  if bidi then r.parkedBidi else r.parkedUni

def setParkedOf (r : Registry) (bidi : Bool) (q : List Nat) : Registry :=
  if bidi then { r with parkedBidi := q } else { r with parkedUni := q }

/-- `admit.insert(id, Parked(peer))` and the parked queue of the class, at its tail or, for a
failed promotion, at its front. -/
def parkPeer (w : World σ) (bidi front : Bool) (id : Nat) (peer : PeerStream) : World σ :=
  let q := parkedOf w.reg bidi
  { w with
    reg := setParkedOf { w.reg with admission := w.reg.admission.insert id (.parked peer) } bidi
      (if front then id :: q else q ++ [id]) }

/-- The loop of `phase2_admission`.  Every turn takes one id off a pending queue and nothing
in the loop adds one, so `fuel` only has to cover their total length. -/
def phase2Loop : Nat → Nat → Bool → Bool → Bool → World σ → World σ
  | 0, _, _, _, _, w => w
  | fuel + 1, budget, bidiBlocked, uniBlocked, preferBidi, w =>
    if budget = 0 then w
    else
      let bidiReady := !bidiBlocked && !w.reg.pendingAdmitBidi.isEmpty
      let uniReady := !uniBlocked && !w.reg.pendingAdmitUni.isEmpty
      if bidiReady || uniReady then
        let bidi := if bidiReady && uniReady then preferBidi else bidiReady
        match pendingOf w.reg bidi with
        | [] => w
        | id :: rest =>
          let w := { w with reg := setPendingOf w.reg bidi rest }
          -- already admitted: costs no budget
          if (w.reg.admission.lookup id).isSome || (w.reg.recv.lookup id).isSome then
            phase2Loop fuel budget bidiBlocked uniBlocked (!bidi)
              { w with reg.pendingAdmit := w.reg.pendingAdmit.erase id }
          else
            match w.reg.pendingAdmit.lookup id with
            | none => phase2Loop fuel budget bidiBlocked uniBlocked (!bidi) w
            | some peer =>
              let w := { w with reg.pendingAdmit := w.reg.pendingAdmit.erase id }
              match w.admitOne T peer with
              | (.registered, w) =>
                phase2Loop fuel (budget - 1) bidiBlocked uniBlocked (!bidi) w
              | (.full peer, w) =>
                phase2Loop fuel (budget - 1) (bidiBlocked || bidi) (uniBlocked || !bidi) (!bidi)
                  (w.parkPeer bidi false id peer)
              | (.tornDown, w) =>
                phase2Loop fuel (budget - 1) (bidiBlocked || bidi) (uniBlocked || !bidi) (!bidi) w
      else w

/-- `phase2_admission`. -/
def phase2Admission (w : World σ) : World σ :=
  phase2Loop T (w.reg.pendingAdmitBidi.length + w.reg.pendingAdmitUni.length) admitBudget
    false false true w

/-! ## 4. `promote_parked` -/

def acceptResumeOf (sh : Shared) (bidi : Bool) : Bool :=
  if bidi then sh.acceptBidiResume else sh.acceptUniResume

def setAcceptResume (w : World σ) (bidi b : Bool) : World σ :=
  if bidi then { w with sh.acceptBidiResume := b } else { w with sh.acceptUniResume := b }

def promoteLoop (bidi : Bool) : Nat → World σ → World σ
  | 0, w => w
  | n + 1, w =>
    match parkedOf w.reg bidi with
    | [] => w
    | id :: rest =>
      let w := { w with reg := setParkedOf w.reg bidi rest }
      match w.reg.admission.lookup id with
      | some (.parked peer) =>
        let w := { w with reg.admission := w.reg.admission.erase id }
        match w.admitOne T peer with
        | (.registered, w) => promoteLoop bidi n w
        | (.full peer, w) => w.parkPeer bidi true id peer
        | (.tornDown, w) => w
      -- not parked: leave it be
      | _ => promoteLoop bidi n w

/-- `promote_parked`: the resume bit is cleared before the retry. -/
def promoteParked (w : World σ) (bidi : Bool) : World σ :=
  let w := w.interleave
  if acceptResumeOf w.sh bidi then
    promoteLoop T bidi promoteBudget (w.interleave.setAcceptResume bidi false)
  else w

/-! ## 5. `clean_undelivered_peer_streams` -/

def cleanParked (w : World σ) (id : Nat) : World σ :=
  match w.reg.admission.lookup id with
  | some (.parked _) =>
    let w := w.shutdownPeerDirections T id (isBidi id)
    { w with reg.admission := w.reg.admission.erase id }
  | _ => w

def cleanPending (w : World σ) (id : Nat) : World σ :=
  match w.reg.pendingAdmit.lookup id with
  | some _ =>
    let w := { w with reg.pendingAdmit := w.reg.pendingAdmit.erase id }
    w.shutdownPeerDirections T id (isBidi id)
  | none => w

def cleanAllParked (w : World σ) : World σ :=
  (w.reg.parkedBidi ++ w.reg.parkedUni).foldl (cleanParked T)
    { w with reg.parkedBidi := [], reg.parkedUni := [] }

def cleanAllPending (w : World σ) : World σ :=
  (w.reg.pendingAdmitBidi ++ w.reg.pendingAdmitUni).foldl (cleanPending T)
    { w with reg.pendingAdmitBidi := [], reg.pendingAdmitUni := [] }

/-- `clean_undelivered_peer_streams`. -/
def cleanUndeliveredPeerStreams (w : World σ) : World σ :=
  (w.cleanAllParked T).cleanAllPending T

end Admit

end World

end QuicheH3
