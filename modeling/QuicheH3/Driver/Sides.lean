/-
# Frames: what each part of the worker leaves alone

The functions every stage ends in are built from three kinds of pieces: pieces that touch only
the send registry and the send cells, pieces that touch only the receive registry and the
receive halves, and pieces that touch only the containers of undelivered streams.

A result that has to get past these functions is about a relation `R w w'` between the world
before and the world after (`R` may be `Inv w → Inv w'`).  `SendFrame R`, `RecvFrame R` and, for
one stream, `EndFrame R id` say that `R` is reflexive, transitive and contains the updates the
functions are put together from, and this module shows, function by function, that it then contains
the functions.  `SendSide` and `RecvSide` are the two relations that come first: each is an equation
from which every unchanged field can be read off.

Contents
  1  the classes of events
  2  relations that contain the pieces of the send side, of the receive side
  3  `SendSide` and `RecvSide`
  4  clean-up of undelivered streams, and the end of a direction
-/
import QuicheH3.Lib.Map
import QuicheH3.Driver.Steps

namespace QuicheH3

open Lib

/-! ## 1. The classes of events -/

/-- Events of the send registry. -/
def Event.isSend : Event → Prop
  | .sendOpen _ _ | .sendClose _ _ | .handle _ _ | .sendSet _ _ | .sendDone _ | .resolve _ _
  | .cancel _ => True
  | _ => False

/-- Events of the receive registry. -/
def Event.isRecvReg : Event → Prop
  | .recvOpen _ _ | .recvClose _ _ | .recvSet _ _ | .recvDone _ => True
  | _ => False

/-- What the worker may make of a receive half: it takes none from its object, and only a
`place` puts a chunk into a queue. -/
structure RecvHalf.Yields (r r' : RecvHalf) : Prop where
  held : r'.holder.Held → r.holder.Held
  bytes : r'.bytes <:+ r.bytes

theorem RecvHalf.Yields.refl (r : RecvHalf) : r.Yields r := ⟨fun h => h, List.suffix_rfl⟩

/-- Writing one half of a family keeps what it keeps of that half. -/
theorem RecvHalf.yields_update {x : Nat → RecvHalf} {n : Nat} {y : RecvHalf} (hy : (x n).Yields y)
    (i : Nat) : (x i).Yields (Function.update x n y i) := by
  by_cases he : i = n
  · subst he
    rwa [Function.update_self]
  · rw [Function.update_of_ne he]
    exact .refl _

theorem SendHalf.held_update {x : Nat → SendHalf} {n : Nat} {y : SendHalf}
    (hy : y.holder.Held → (x n).holder.Held) (i : Nat)
    (hi : (Function.update x n y i).holder.Held) : (x i).holder.Held := by
  by_cases he : i = n
  · subst he
    rw [Function.update_self] at hi
    exact hy hi
  · rwa [Function.update_of_ne he] at hi

namespace World

variable {σ : Type} {w w' w'' : World σ}

/-! ## 2. Cells, operations and entries -/

/-- A relation between worlds that can be followed from step to step. -/
structure Composes (R : World σ → World σ → Prop) : Prop where
  refl : ∀ w, R w w
  trans : ∀ {w w' w''}, R w w' → R w' w'' → R w w''

/-- ... that contains what the send cells and the operations in hand are made of. -/
structure CellFrame (R : World σ → World σ → Prop) : Prop extends Composes R where
  sendEvent : ∀ w e, e.isSend → R w (w.emit e)
  /-- The worker makes halves and writes to them, but takes none from its object. -/
  sendHalves : ∀ w sh ns re se, (∀ c, (sh c).holder.Held → (w.sh.sendHalves c).holder.Held) →
    w.sh.senders ≤ se → R w { w with sh := { w.sh with
      sendHalves := sh, nextSend := ns, resident := re, senders := se } }

/-- ... and what the send entries are made of. -/
structure SendFrame (R : World σ → World σ → Prop) : Prop extends CellFrame R where
  sendMap : ∀ w m, R w { w with reg.send := m }

/-- A relation that contains what the receive cells are made of. -/
structure HalfFrame (R : World σ → World σ → Prop) : Prop extends Composes R where
  recvEvent : ∀ w e, e.isRecvReg → R w (w.emit e)
  modRecv : ∀ w h g, (∀ r, ((g r).holder, (g r).bytes) = (r.holder, r.bytes)) → R w (w.modRecv h g)

/-- ... and what the receive entries are made of. -/
structure RecvFrame (R : World σ → World σ → Prop) : Prop extends HalfFrame R where
  newRecv : ∀ w id, R w { w with
    sh.nextRecv := w.sh.nextRecv + 1
    sh.senders := w.sh.senders + 1
    sh.recvHalves := Function.update w.sh.recvHalves w.sh.nextRecv
      { (default : RecvHalf) with
        id := id, depth := max w.recvChannelDepth 1, holder := .handoff } }
  recvMap : ∀ w m, R w { w with reg.recv := m }

variable {R : World σ → World σ → Prop}

theorem Composes.foldl {α : Type} (F : Composes R) (g : World σ → α → World σ)
    (hg : ∀ w x, R w (g w x)) : ∀ (l : List α) (w : World σ), R w (l.foldl g w)
  | [], w => F.refl w
  | x :: l, w => F.trans (hg w x) (F.foldl g hg l (g w x))

theorem Composes.shutdownPeerDirections {T : QuicConn σ} (F : Composes R) {id : Nat}
    (hs : ∀ w dir code, R w (w.streamShutdown T id dir code)) (w : World σ) (bidi : Bool) :
    R w (w.shutdownPeerDirections T id bidi) := by
  cases bidi with
  | true => exact F.trans (hs w _ _) (hs _ _ _)
  | false => exact hs w _ _

theorem Composes.noteShutdown (F : Composes R) {id : Nat}
    (hs : ∀ w dir, R w (w.emit (.streamShutdown id dir h3NoError))) (w : World σ) (bidi : Bool) :
    R w (w.noteShutdown id bidi) := by
  cases bidi with
  | true => exact F.trans (hs w _) (hs _ _)
  | false => exact hs w _

theorem Composes.intakeOne (F : Composes R) {id : Nat} (w : World σ)
    (hr : R w { w with reg := w.reg.requeueReadable id })
    (hp : R w { w with reg := { w.reg with
      pendingAdmit := w.reg.pendingAdmit.insert id (.new id) }.pushPendingAdmit id }) :
    R w (w.intakeOne id) := by
  unfold World.intakeOne
  split
  · exact hr
  · split
    · exact F.refl w
    · exact hp

namespace CellFrame

variable (F : CellFrame R) (w : World σ)

include F

theorem modSend (c : Nat) (g : SendHalf → SendHalf)
    (hg : ∀ s, (g s).holder = s.holder) : R w (w.modSend c g) :=
  F.sendHalves w _ _ _ _ (SendHalf.held_update fun hc => hg _ ▸ hc) (Nat.le_refl _)

theorem setSendCell (c : Nat) (e : SendEnd) : R w (w.setSendCell c e) := by
  unfold World.setSendCell
  split
  · exact F.refl w
  · refine F.trans ?_ (F.sendEvent _ (.sendSet c e) trivial)
    exact F.modSend w c _ fun _ => rfl

theorem releasePermit (p : Option Nat) : R w (w.releasePermit p) :=
  F.sendHalves w _ _ _ _ (fun _ h => h) (Nat.le_refl _)

theorem completeOp (op : SendOp) (res : Except SendEnd Unit) : R w (w.completeOp op res) := by
  cases op with
  | write buf done permit =>
    exact F.trans (F.sendEvent w (.resolve done res) trivial) (F.releasePermit _ permit)
  | finish done => exact F.sendEvent w (.resolve done res) trivial

theorem completeOps (ops : List SendOp) (res : Except SendEnd Unit) :
    R w (w.completeOps ops res) := F.foldl _ (fun w op => F.completeOp w op res) ops w

theorem cancelOp (op : SendOp) : R w (w.cancelOp op) := by
  cases op with
  | write buf done permit =>
    exact F.trans (F.sendEvent w (.cancel done) trivial) (F.releasePermit _ permit)
  | finish done => exact F.sendEvent w (.cancel done) trivial

end CellFrame

namespace SendFrame

variable (F : SendFrame R) (w : World σ)

include F

theorem putSend (id : Nat) (s : StreamSendState) : R w (w.putSend id s) := F.sendMap w _

theorem dropSendEntry (id : Nat) : R w (w.dropSendEntry id) := by
  unfold World.dropSendEntry
  split
  · exact F.refl w
  · refine F.trans ?_ (F.sendEvent _ _ trivial)
    refine F.trans ?_ (F.foldl _ F.cancelOp _ _)
    exact F.sendMap w _

theorem insertSend (id c : Nat) : R w (w.insertSend id c) := by
  refine F.trans (F.dropSendEntry w id) (F.trans ?_ (F.sendEvent _ _ trivial))
  exact F.sendMap _ _

theorem ensureSend (id : Nat) : R w (w.ensureSend id) := by
  unfold World.ensureSend
  split
  · exact F.refl w
  · refine F.trans ?_ (F.insertSend _ id _)
    exact F.sendHalves w _ _ _ _ (SendHalf.held_update fun h => absurd rfl h.1) (Nat.le_refl _)

theorem buildSend (id : Nat) (retained : Option SendEnd) : R w (w.buildSend id retained).2 := by
  have h1 : R w ({ w with
      sh.nextSend := w.sh.nextSend + 1
      sh.senders := w.sh.senders + 1
      sh.sendHalves := Function.update w.sh.sendHalves w.sh.nextSend
        { (default : SendHalf) with id := id, holder := .handoff } }.emit
        (.handle id w.sh.nextSend)) := by
    refine F.trans ?_ (F.sendEvent _ _ trivial)
    exact F.sendHalves w _ _ _ _ (SendHalf.held_update fun h => absurd rfl h.2) (Nat.le_succ _)
  cases retained with
  | some e => exact F.trans h1 (F.setSendCell _ _ e)
  | none => exact F.trans h1 (F.insertSend _ id _)

variable {id : Nat} (hq : ∀ w, R w { w with reg := w.reg.markSendRunnable id })

include hq

theorem enqueueSendOp (op : SendOp) : R w (w.enqueueSendOp id op) := by
  have h1 := F.ensureSend w id
  unfold World.enqueueSendOp
  dsimp only
  split
  · exact h1
  · split
    · exact F.trans h1 (F.completeOp _ op _)
    · exact F.trans h1 (F.trans (F.putSend _ id _) (hq _))

theorem resetEntry (code : Nat) : R w (w.resetEntry id code) := by
  unfold World.resetEntry
  split
  · exact F.refl w
  · rename_i s hs
    split
    · exact F.refl w
    · have h1 := F.trans (F.setSendCell w s.status (.reset code)) (F.putSend _ id { s with
        pendingReset := some code, terminal := some (.reset code), sendOps := [], held := none })
      exact F.trans h1 (F.trans (F.completeOps _ s.sendOps (.error (.reset code))) (hq _))

end SendFrame

namespace HalfFrame

variable (F : HalfFrame R) (w : World σ)

include F

theorem setRecvCell (h : Nat) (e : RecvEnd) : R w (w.setRecvCell h e) := by
  unfold World.setRecvCell
  split
  · exact F.refl w
  · refine F.trans ?_ (F.recvEvent _ (.recvSet h e) trivial)
    exact F.modRecv w h _ fun _ => rfl

theorem publishRecvTerminal (id : Nat) (e : RecvEnd) : R w (w.publishRecvTerminal id e) := by
  unfold World.publishRecvTerminal
  split
  · exact F.setRecvCell w _ e
  · exact F.refl w

end HalfFrame

namespace RecvFrame

variable (F : RecvFrame R) (w : World σ)

include F

theorem dropRecvEntry (id : Nat) : R w (w.dropRecvEntry id) := by
  unfold World.dropRecvEntry
  split
  · exact F.refl w
  · refine F.trans ?_ (F.recvEvent _ _ trivial)
    refine F.trans ?_ (F.modRecv _ _ _ fun _ => rfl)
    exact F.recvMap w _

theorem insertRecv (id h : Nat) : R w (w.insertRecv id h) := by
  refine F.trans (F.dropRecvEntry w id) (F.trans ?_ (F.recvEvent _ _ trivial))
  refine F.trans ?_ (F.modRecv _ _ _ fun _ => rfl)
  exact F.recvMap _ _

theorem buildRecv (id : Nat) (retained : Option RecvEnd) : R w (w.buildRecv id retained).2 := by
  have h1 := F.newRecv w id
  cases retained with
  | some e => exact F.trans h1 (F.setRecvCell _ _ e)
  | none => exact F.trans h1 (F.insertRecv _ id _)

end RecvFrame

/-! ## 3. The two sides -/

/-- Only the send registry, the send cells and the byte accounting changed. -/
structure SendSide (w w' : World σ) : Prop where
  eq : w' = { w with
    reg := { w.reg with send := w'.reg.send, runnableSend := w'.reg.runnableSend }
    sh := { w.sh with
      sendHalves := w'.sh.sendHalves, nextSend := w'.sh.nextSend, resident := w'.sh.resident
      senders := w'.sh.senders }
    trace := w'.trace }
  grows : Grows Event.isSend w.trace w'.trace

namespace SendSide

theorem refl (w : World σ) : SendSide w w := ⟨rfl, .refl _ _⟩

theorem trans (h : SendSide w w') (h' : SendSide w' w'') : SendSide w w'' := by
  refine ⟨?_, h.grows.trans h'.grows⟩
  have h1 := h'.eq
  rw [h.eq] at h1
  exact h1

theorem recv (h : SendSide w w') : w'.reg.recv = w.reg.recv := by rw [h.eq]

theorem admission (h : SendSide w w') : w'.reg.admission = w.reg.admission := by rw [h.eq]

theorem pendingAdmit (h : SendSide w w') : w'.reg.pendingAdmit = w.reg.pendingAdmit := by
  rw [h.eq]

theorem recvHalves (h : SendSide w w') : w'.sh.recvHalves = w.sh.recvHalves := by rw [h.eq]

theorem nextRecv (h : SendSide w w') : w'.sh.nextRecv = w.sh.nextRecv := by rw [h.eq]

end SendSide

theorem sendSides : SendFrame (SendSide (σ := σ)) where
  refl := .refl
  trans := .trans
  sendEvent _ _ he := ⟨rfl, .one he⟩
  sendHalves _ _ _ _ _ _ _ := ⟨rfl, .refl _ _⟩
  sendMap _ _ := ⟨rfl, .refl _ _⟩

theorem sendSide_runnable (w : World σ) (q : OnceQueue Nat) :
    SendSide w { w with reg.runnableSend := q } := ⟨rfl, .refl _ _⟩

theorem sendSide_enqueueSendOp (w : World σ) (id : Nat) (op : SendOp) :
    SendSide w (w.enqueueSendOp id op) :=
  sendSides.enqueueSendOp w (fun w => sendSide_runnable w _) op

theorem sendSide_resetEntry (w : World σ) (id code : Nat) : SendSide w (w.resetEntry id code) :=
  sendSides.resetEntry w (fun w => sendSide_runnable w _) code

/-- Only the receive registry and the receive halves changed. -/
structure RecvSide (w w' : World σ) : Prop where
  eq : w' = { w with
    reg := { w.reg with
      recv := w'.reg.recv, pendingReadable := w'.reg.pendingReadable
      pendingResume := w'.reg.pendingResume }
    sh := { w.sh with
      recvHalves := w'.sh.recvHalves, nextRecv := w'.sh.nextRecv, senders := w'.sh.senders }
    trace := w'.trace }
  grows : Grows Event.isRecvReg w.trace w'.trace

namespace RecvSide

theorem refl (w : World σ) : RecvSide w w := ⟨rfl, .refl _ _⟩

theorem trans (h : RecvSide w w') (h' : RecvSide w' w'') : RecvSide w w'' := by
  refine ⟨?_, h.grows.trans h'.grows⟩
  have h1 := h'.eq
  rw [h.eq] at h1
  exact h1

theorem send (h : RecvSide w w') : w'.reg.send = w.reg.send := by rw [h.eq]

theorem admission (h : RecvSide w w') : w'.reg.admission = w.reg.admission := by rw [h.eq]

theorem pendingAdmit (h : RecvSide w w') : w'.reg.pendingAdmit = w.reg.pendingAdmit := by
  rw [h.eq]

end RecvSide

theorem recvSides : RecvFrame (RecvSide (σ := σ)) where
  refl := .refl
  trans := .trans
  recvEvent _ _ he := ⟨rfl, .one he⟩
  modRecv _ _ _ _ := ⟨rfl, .refl _ _⟩
  newRecv _ _ := ⟨rfl, .refl _ _⟩
  recvMap _ _ := ⟨rfl, .refl _ _⟩

/-! ## 4. Clean-up, and the end of a direction

A relation that contains a few pieces contains the clean-up of undelivered streams, and the
functions that end a direction. -/

variable {T : QuicConn σ}

/-- What the clean-up is made of. -/
structure CleanFrame (R : World σ → World σ → Prop) : Prop extends Composes R where
  eraseAdmit : ∀ w id, R w { w with reg.admission := w.reg.admission.erase id }
  erasePending : ∀ w id, R w { w with reg.pendingAdmit := w.reg.pendingAdmit.erase id }
  parked : ∀ w kb ku, R w { w with reg.parkedBidi := kb, reg.parkedUni := ku }
  pending : ∀ w pb pu, R w { w with reg.pendingAdmitBidi := pb, reg.pendingAdmitUni := pu }
  shutdown : ∀ (T : QuicConn σ) w id dir code, R w (w.streamShutdown T id dir code)

/-- What a direction of `id` ends in. -/
structure DoneFrame (R : World σ → World σ → Prop) (id : Nat) : Prop extends Composes R where
  eraseAdmit : ∀ w, R w { w with reg.admission := w.reg.admission.erase id }
  markAdmit : ∀ w sd rd,
    R w { w with reg.admission := w.reg.admission.insert id (.registered sd rd) }
  dropRecv : ∀ w, R w (w.dropRecvEntry id)
  recvCursors : ∀ w, R w { w with reg := w.reg.dropRecvMemberships id }
  sendCursor : ∀ w, R w { w with reg := w.reg.dropSendMembership id }
  recvDone : ∀ w, R w (w.emit (.recvDone id))
  sendDone : ∀ w, R w (w.emit (.sendDone id))
  finished : ∀ w s, w.reg.send.lookup id = some s → R w (w.putSend id { s with finished := true })

/-- ... and what is reclaimed of it then. -/
structure EndFrame (R : World σ → World σ → Prop) (id : Nat) : Prop extends DoneFrame R id where
  dropSend : ∀ w, R w (w.dropSendEntry id)

namespace CleanFrame

variable (F : CleanFrame R) (w : World σ)

include F

theorem shutdownPeerDirections (id : Nat) (bidi : Bool) :
    R w (w.shutdownPeerDirections T id bidi) :=
  F.toComposes.shutdownPeerDirections (fun w => F.shutdown T w id) w bidi

theorem cleanParked (id : Nat) : R w (w.cleanParked T id) := by
  unfold World.cleanParked
  split
  · exact F.trans (F.shutdownPeerDirections w id _) (F.eraseAdmit _ id)
  · exact F.refl w

theorem cleanPending (id : Nat) : R w (w.cleanPending T id) := by
  unfold World.cleanPending
  split
  · exact F.trans (F.erasePending w id) (F.shutdownPeerDirections _ id _)
  · exact F.refl w

theorem cleanUndeliveredPeerStreams : R w (w.cleanUndeliveredPeerStreams T) := by
  have h1 : R w (w.cleanAllParked T) := F.trans (F.parked w [] []) (F.foldl _ F.cleanParked _ _)
  have h2 (w : World σ) : R w (w.cleanAllPending T) :=
    F.trans (F.pending w [] []) (F.foldl _ F.cleanPending _ _)
  exact F.trans h1 (h2 _)

end CleanFrame

namespace DoneFrame

variable {id : Nat} (F : DoneFrame R id) (w : World σ)

include F

theorem setRecvDone : R w { w with reg := w.reg.setRecvDone id } := by
  unfold Registry.setRecvDone
  split
  · exact F.markAdmit w _ _
  · exact F.refl w

theorem setSendDone : R w { w with reg := w.reg.setSendDone id } := by
  unfold Registry.setSendDone
  split
  · exact F.markAdmit w _ _
  · exact F.refl w

theorem terminalTransition : R w (w.terminalTransition id) := by
  unfold World.terminalTransition
  split
  · exact F.trans (F.trans (F.eraseAdmit w) (F.dropRecv _))
      (F.trans (F.recvCursors _) (F.sendCursor _))
  · exact F.refl w

/-- `mark_recv_done` after its entry is dropped, up to what is reclaimed. -/
theorem recvDone_rest : R w ({ w.emit (.recvDone id) with
    reg := (w.reg.dropRecvMemberships id).setRecvDone id }.terminalTransition id) :=
  F.trans (F.trans (F.recvDone w) (F.trans (F.recvCursors _) (F.setRecvDone _)))
    (F.terminalTransition _)

theorem sendDone_rest : R w ({ w.emit (.sendDone id) with
    reg := (w.reg.dropSendMembership id).setSendDone id }.terminalTransition id) :=
  F.trans (F.trans (F.sendDone w) (F.trans (F.sendCursor _) (F.setSendDone _)))
    (F.terminalTransition _)

theorem markSendDone : R w (w.markSendDone id) := by
  unfold World.markSendDone
  cases hs : w.reg.send.lookup id with
  | none => exact F.sendDone_rest w
  | some s => exact F.trans (F.finished w s hs) (F.sendDone_rest _)

end DoneFrame

namespace EndFrame

variable {id : Nat} (F : EndFrame R id) (w : World σ)

include F

theorem reclaimFinishedSend : R w (w.reclaimFinishedSend id) := by
  unfold World.reclaimFinishedSend
  split
  · split
    · exact F.trans (F.dropSend w) (F.eraseAdmit _)
    · exact F.refl w
  · exact F.refl w

/-- `mark_recv_done` after its entry is dropped. -/
theorem markRecvDone_rest : R (w.dropRecvEntry id) (w.markRecvDone id) :=
  F.trans (F.recvDone_rest _) (F.reclaimFinishedSend _)

theorem markRecvDone : R w (w.markRecvDone id) :=
  F.trans (F.dropRecv w) (F.markRecvDone_rest w)

end EndFrame

namespace SendFrame

variable {id : Nat} (F : SendFrame R) (w : World σ)

include F

theorem sendTerminalTransition (E : DoneFrame R id) (e : SendEnd) :
    R w (w.sendTerminalTransition id e) := by
  unfold World.sendTerminalTransition
  split
  · exact F.refl w
  · rename_i s hs
    have h1 := F.trans (F.setSendCell w s.status e) (F.putSend _ id { s with
      terminal := some (s.terminal.getD e), held := none, sendOps := [] })
    exact F.trans h1 (F.trans (F.completeOps _ s.sendOps (.error (s.terminal.getD e)))
      (E.markSendDone _))

theorem completeFinishOp (E : EndFrame R id) : R w (w.completeFinishOp id) := by
  unfold World.completeFinishOp
  refine F.trans (F.trans ?_ (E.markSendDone _)) (E.reclaimFinishedSend _)
  split
  · split
    · exact F.trans (F.putSend w id _) (F.completeOp _ _ _)
    · exact F.refl w
  · exact F.refl w

end SendFrame

/-- Both, for every stream, where the whole send side does not matter. -/
structure SideFrame (R : World σ → World σ → Prop) : Prop extends CleanFrame R where
  markAdmit : ∀ w id sd rd,
    R w { w with reg.admission := w.reg.admission.insert id (.registered sd rd) }
  dropRecv : ∀ w id, R w (w.dropRecvEntry id)
  recvCursors : ∀ w id, R w { w with reg := w.reg.dropRecvMemberships id }
  recvDone : ∀ w id, R w (w.emit (.recvDone id))
  sendSide : ∀ {w w'}, SendSide w w' → R w w'

namespace SideFrame

variable (F : SideFrame R) (w : World σ)

include F

theorem sends : SendFrame R where
  toComposes := F.toComposes
  sendEvent w e he := F.sendSide (sendSides.sendEvent w e he)
  sendHalves w sh ns re se hs hse := F.sendSide (sendSides.sendHalves w sh ns re se hs hse)
  sendMap w m := F.sendSide (sendSides.sendMap w m)

theorem ends (id : Nat) : EndFrame R id where
  toComposes := F.toComposes
  eraseAdmit w := F.eraseAdmit w id
  markAdmit w := F.markAdmit w id
  dropRecv w := F.dropRecv w id
  recvCursors w := F.recvCursors w id
  recvDone w := F.recvDone w id
  dropSend w := F.sends.dropSendEntry w id
  sendCursor w := F.sendSide (sendSide_runnable w _)
  sendDone w := F.sends.sendEvent w _ trivial
  finished w _ _ := F.sends.putSend w id _

theorem sendTerminalTransition (id : Nat) (e : SendEnd) : R w (w.sendTerminalTransition id e) :=
  F.sends.sendTerminalTransition w (F.ends id).toDoneFrame e

theorem completeFinishOp (id : Nat) : R w (w.completeFinishOp id) :=
  F.sends.completeFinishOp w (F.ends id)

end SideFrame

end World

end QuicheH3
