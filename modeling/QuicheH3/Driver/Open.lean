/-
# Opening local streams (`driver.rs`)

`stage_open_bidi` and `stage_open_uni` are the same loop over the two request queues.  They
differ in the credit they ask for, in the id counter they advance and in what they build: a
bidi open has both halves, a uni open is send-only.  `openLoop` takes the class as a parameter.
-/
import QuicheH3.Driver.Admit

namespace QuicheH3

namespace World

variable {σ : Type}

/-! ## 1. The parts that depend on the class -/

def openOf (w : World σ) (bidi : Bool) : List Nat := if bidi then w.openBidi else w.openUni

def setOpenOf (w : World σ) (bidi : Bool) (q : List Nat) : World σ :=
  if bidi then { w with openBidi := q } else { w with openUni := q }

def nextIdOf (w : World σ) (bidi : Bool) : Nat := if bidi then w.nextBidiId else w.nextUniId

/-- `id.wrapping_add(4)`. -/
def wrappingAdd4 (id : Nat) : Nat := (id + 4) % 2 ^ 64

def advanceNextId (w : World σ) (bidi : Bool) : World σ :=
  if bidi then { w with nextBidiId := wrappingAdd4 w.nextBidiId }
  else { w with nextUniId := wrappingAdd4 w.nextUniId }

/-- The halves of a fresh local stream, as the answer that carries them. -/
def buildOpen (w : World σ) (bidi : Bool) (id : Nat) : Reply × World σ :=
  if bidi then
    let (h, w) := w.buildRecv id none
    let (c, w) := w.buildSend id none
    (.bidi h c, w)
  else
    let (c, w) := w.buildSend id none
    (.uni c, w)

/-- `drop(undelivered)`. -/
def dropAnswer (w : World σ) : Reply → World σ
  | .bidi h c => { w with toFace := w.toFace.dropBidiHandoff (h, c) }
  | .uni c => { w with toFace := w.toFace.dropSendHandoff c }
  | _ => w

/-! ## 2. Replies -/

/-- `open_terminal`. -/
def openTerminal (w : World σ) : ConnTerminal :=
  w.sh.connTerminal.getD (.internal "open declined without a terminal")

/-- `reply.send(Err(t))`; the failure of the send is ignored. -/
def replyErr (w : World σ) (r : Nat) (t : ConnTerminal) : World σ :=
  let w := w.interleave
  if w.sh.replies r = .waiting then (w.setReply r (.failed t)).emit (.answer r (some t)) else w

section Open

variable (T : QuicConn σ)

def creditOf (c : σ) (bidi : Bool) : Nat :=
  if bidi then T.peerStreamsLeftBidi c else T.peerStreamsLeftUni c

/-- `cleanup_undeliverable_open`. -/
def cleanupUndeliverableOpen (w : World σ) (id : Nat) (bidi : Bool) : World σ :=
  let w := (w.dropSendEntry id).streamShutdown T id .write h3RequestCancelled
  if bidi then (w.dropRecvEntry id).streamShutdown T id .read h3RequestCancelled else w

/-- `reply.send(Ok(handoff))`, and the cleanup of a stream whose requester is gone. -/
def deliver (w : World σ) (bidi : Bool) (r id : Nat) (ans : Reply) : World σ :=
  let w := w.interleave
  if w.sh.replies r = .waiting then (w.setReply r ans).emit (.answer r none)
  else (w.dropAnswer ans).cleanupUndeliverableOpen T id bidi

/-- Materialize the next id of the class and deliver its halves.  The counter advances only
after `stream_priority` succeeded. -/
def materialize (w : World σ) (bidi : Bool) (r : Nat) : World σ :=
  let id := w.nextIdOf bidi
  match w.streamPriority T id 127 true with
  | (false, w) => w.replyErr r w.openTerminal
  | (true, w) =>
    let (ans, w) := (w.advanceNextId bidi).buildOpen bidi id
    w.deliver T bidi r id ans

/-- The loop of `stage_open_bidi` and `stage_open_uni`. -/
def openLoop (bidi : Bool) : Nat → World σ → World σ
  | 0, w => if w.openOf bidi ≠ [] then { w with ctl.needsIteration := true } else w
  | n + 1, w =>
    match w.openOf bidi with
    | [] => w
    | r :: rest =>
      let w := (w.setOpenOf bidi rest).interleave
      -- cancelled before materialization: no id burned
      if w.sh.replies r ≠ .waiting then openLoop bidi n w
      -- no peer credit: leave it queued and stop, without forcing an iteration
      else if creditOf T w.ctl.qconn bidi = 0 then w.setOpenOf bidi (r :: w.openOf bidi)
      else
        let w := w.interleave
        if w.sh.senders = 0 then openLoop bidi n (w.replyErr r w.openTerminal)
        else openLoop bidi n (w.materialize T bidi r)

def stageOpenBidi (w : World σ) : World σ := openLoop T true openBudget w

def stageOpenUni (w : World σ) : World σ := openLoop T false openBudget w

/-- `stage_open`. -/
def stageOpen (w : World σ) : World σ := (w.stageOpenBidi T).stageOpenUni T

end Open

end World

end QuicheH3
