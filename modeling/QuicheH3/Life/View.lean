/-
# The life of one stream

What the worker knows of ONE stream: its entries in the registries, how often it stands in the
admission queues, which cursors hold it, the commands for it that are on their way, and the
history.  The functions that end a direction act on this view exactly as the driver's functions
act on the world, and they leave the view of every other stream alone.

The view is the abstract state of the driver as far as one stream is concerned; the machine of
`Life/Machine.lean` runs on it.
-/
import QuicheH3.Life.Provenance

namespace QuicheH3

open Lib

/-! ## 1. The view and its functions -/

@[ext]
structure Life where
  recv : Option Nat
  send : Option StreamSendState
  admission : Option AdmitState
  pend : Option PeerStream
  pendQ : Bool → Nat
  parkQ : Bool → Nat
  readable : Bool
  resume : Bool
  runnable : Bool
  cmds : List DriverCommand
  hist : List Event

/-- All applicable directions of a registered stream are done. -/
def allDone (bidi : Bool) : Option AdmitState → Bool
  | some (.registered sendDone recvDone) => if bidi then sendDone && recvDone else recvDone
  | _ => false

def markRecv : Option AdmitState → Option AdmitState
  | some (.registered sendDone _) => some (.registered sendDone true)
  | a => a

def markSend : Option AdmitState → Option AdmitState
  | some (.registered _ recvDone) => some (.registered true recvDone)
  | a => a

/-- The record of operations completed in order. -/
def resolved (ops : List SendOp) (res : Except SendEnd Unit) (tr : List Event) : List Event :=
  ops.foldl (fun tr op => .resolve op.tok res :: tr) tr

/-- The record of operations dropped in order. -/
def cancelled (ops : List SendOp) (tr : List Event) : List Event :=
  ops.foldl (fun tr op => .cancel op.tok :: tr) tr

namespace Life

def emit (v : Life) (e : Event) : Life := { v with hist := e :: v.hist }

def closeRecv (v : Life) (id : Nat) : Life :=
  match v.recv with
  | none => v
  | some h => { v with recv := none, hist := .recvClose id h :: v.hist }

def closeSend (v : Life) (id : Nat) : Life :=
  match v.send with
  | none => v
  | some s => { v with send := none, hist := .sendClose id s.status :: cancelled s.sendOps v.hist }

/-- Contract A. -/
def settle (v : Life) (id : Nat) : Life :=
  if allDone (isBidi id) v.admission then
    { { v with admission := none }.closeRecv id with
      readable := false, resume := false, runnable := false }
  else v

def reclaim (v : Life) (id : Nat) : Life :=
  match v.send with
  | some s =>
    if s.finished = true ∧ v.recv = none then { v.closeSend id with admission := none } else v
  | none => v

def recvDone (v : Life) (id : Nat) : Life :=
  let v := (v.closeRecv id).emit (.recvDone id)
  ({ v with readable := false, resume := false, admission := markRecv v.admission }.settle
    id).reclaim id

/-- The entry of a finished direction. -/
def finish (s : StreamSendState) : StreamSendState := { s with finished := true }

def sendDone (v : Life) (id : Nat) : Life :=
  { v with
    send := v.send.map finish, hist := .sendDone id :: v.hist, runnable := false
    admission := markSend v.admission }.settle id

/-- The head operation completes. -/
def popOp (v : Life) : Life :=
  match v.send with
  | some s =>
    match s.sendOps with
    | op :: ops =>
      { v with send := some { s with sendOps := ops }, hist := .resolve op.tok (.ok ()) :: v.hist }
    | [] => v
  | none => v

/-- The head operation completes and the direction is finished. -/
def completeFinish (v : Life) (id : Nat) : Life := (v.popOp.sendDone id).reclaim id

end Life

namespace World

variable {σ : Type} {T : QuicConn σ} {w w' w'' : World σ}

/-- What the worker knows of stream `id`. -/
def life (w : World σ) (id : Nat) : Life where
  recv := w.reg.recv.lookup id
  send := w.reg.send.lookup id
  admission := w.reg.admission.lookup id
  pend := w.reg.pendingAdmit.lookup id
  pendQ b := (pendingOf w.reg b).count id
  parkQ b := (parkedOf w.reg b).count id
  readable := w.reg.pendingReadable.has id
  resume := w.reg.pendingResume.has id
  runnable := w.reg.runnableSend.has id
  cmds := (w.inbox ++ w.sh.cmdRx).filter fun c => c.streamId = some id
  hist := w.trace

theorem life_emit (w : World σ) (e : Event) (id : Nat) :
    (w.emit e).life id = (w.life id).emit e := rfl

/-! ## 2. The stream itself -/

theorem life_dropRecvEntry (w : World σ) (id : Nat) :
    (w.dropRecvEntry id).life id = (w.life id).closeRecv id := by
  cases hr : w.reg.recv.lookup id with
  | none => simp only [dropRecvEntry, Life.closeRecv, life, hr]
  | some h =>
    simp only [dropRecvEntry, hr, Life.closeRecv, life]
    simp only [emit, modRecv, Face.emit, Face.modRecv, AList.lookup_erase]
    rfl

theorem foldl_cancelOp (w : World σ) (ops : List SendOp) :
    ∃ n, ops.foldl cancelOp w =
      { w with trace := cancelled ops w.trace, sh := { w.sh with resident := n } } := by
  induction ops generalizing w with
  | nil => exact ⟨w.sh.resident, rfl⟩
  | cons op ops ih =>
    obtain ⟨n, hn⟩ := ih (w.cancelOp op)
    refine ⟨n, ?_⟩
    rw [List.foldl_cons, hn]
    cases op <;> rfl

theorem completeOps_eq (w : World σ) (ops : List SendOp) (res : Except SendEnd Unit) :
    ∃ n, w.completeOps ops res =
      { w with trace := resolved ops res w.trace, sh := { w.sh with resident := n } } := by
  induction ops generalizing w with
  | nil => exact ⟨w.sh.resident, rfl⟩
  | cons op ops ih =>
    obtain ⟨n, hn⟩ := ih (w.completeOp op res)
    refine ⟨n, ?_⟩
    have h1 : w.completeOps (op :: ops) res = (w.completeOp op res).completeOps ops res := rfl
    rw [h1, hn]
    cases op <;> rfl

theorem life_dropSendEntry (w : World σ) (id : Nat) :
    (w.dropSendEntry id).life id = (w.life id).closeSend id := by
  cases hs : w.reg.send.lookup id with
  | none => simp only [dropSendEntry, Life.closeSend, life, hs]
  | some s =>
    obtain ⟨n, hn⟩ := foldl_cancelOp { w with reg.send := w.reg.send.erase id } s.sendOps
    simp only [dropSendEntry, hs, Life.closeSend, hn]
    simp only [life, emit, Face.emit, AList.lookup_erase, hs]
    rfl

theorem life_eraseAdmit (w : World σ) (id : Nat) :
    ({ w with reg.admission := w.reg.admission.erase id } : World σ).life id =
      { w.life id with admission := none } := by
  simp only [life, AList.lookup_erase]
  rfl

theorem life_dropRecvMemberships (w : World σ) (id : Nat) :
    ({ w with reg := w.reg.dropRecvMemberships id } : World σ).life id =
      { w.life id with readable := false, resume := false } := by
  simp only [life, Registry.dropRecvMemberships, OnceQueue.has_drop_self]
  rfl

theorem life_dropSendMembership (w : World σ) (id : Nat) :
    ({ w with reg := w.reg.dropSendMembership id } : World σ).life id =
      { w.life id with runnable := false } := by
  simp only [life, Registry.dropSendMembership, OnceQueue.has_drop_self]
  rfl

theorem allTerminal_eq (w : World σ) (id : Nat) :
    w.reg.allTerminal id = allDone (isBidi id) (w.life id).admission := by
  unfold Registry.allTerminal allDone life
  rfl

theorem life_terminalTransition (w : World σ) (id : Nat) :
    (w.terminalTransition id).life id = (w.life id).settle id := by
  unfold terminalTransition Life.settle
  rw [allTerminal_eq]
  split
  · dsimp only
    generalize hw1 : ({ w with reg.admission := w.reg.admission.erase id } : World σ).dropRecvEntry
      id = w1
    have h1 : w1.life id = { w.life id with admission := none }.closeRecv id := by
      rw [← hw1, life_dropRecvEntry, life_eraseAdmit]
    have h2 := life_dropSendMembership { w1 with reg := w1.reg.dropRecvMemberships id } id
    rw [life_dropRecvMemberships, h1] at h2
    exact h2
  · rfl

theorem life_reclaimFinishedSend (w : World σ) (id : Nat) :
    (w.reclaimFinishedSend id).life id = (w.life id).reclaim id := by
  cases hs : w.reg.send.lookup id with
  | none =>
    have hs' : (w.life id).send = none := hs
    simp only [reclaimFinishedSend, Life.reclaim, hs, hs']
  | some s =>
    have hs' : (w.life id).send = some s := hs
    have hr : (w.life id).recv = w.reg.recv.lookup id := rfl
    simp only [reclaimFinishedSend, Life.reclaim, hs, hs', hr]
    split
    · rw [life_eraseAdmit, life_dropSendEntry]
    · rfl

theorem life_setRecvDone (w : World σ) (id : Nat) :
    ({ w with reg := w.reg.setRecvDone id } : World σ).life id =
      { w.life id with admission := markRecv (w.life id).admission } := by
  have ha : (w.life id).admission = w.reg.admission.lookup id := rfl
  rw [ha]
  unfold Registry.setRecvDone markRecv
  cases hx : w.reg.admission.lookup id with
  | none => simp only [life, hx]
  | some a =>
    cases a with
    | parked p => simp only [life, hx]
    | registered sd rd =>
      simp only [life, AList.lookup_insert]
      rfl

theorem life_setSendDone (w : World σ) (id : Nat) :
    ({ w with reg := w.reg.setSendDone id } : World σ).life id =
      { w.life id with admission := markSend (w.life id).admission } := by
  have ha : (w.life id).admission = w.reg.admission.lookup id := rfl
  rw [ha]
  unfold Registry.setSendDone markSend
  cases hx : w.reg.admission.lookup id with
  | none => simp only [life, hx]
  | some a =>
    cases a with
    | parked p => simp only [life, hx]
    | registered sd rd =>
      simp only [life, AList.lookup_insert]
      rfl

theorem life_markRecvDone (w : World σ) (id : Nat) :
    (w.markRecvDone id).life id = (w.life id).recvDone id := by
  unfold markRecvDone Life.recvDone
  dsimp only
  rw [life_reclaimFinishedSend, life_terminalTransition]
  generalize hw1 : (w.dropRecvEntry id).emit (.recvDone id) = w1
  have h1 : w1.life id = ((w.life id).closeRecv id).emit (.recvDone id) := by
    rw [← hw1, life_emit, life_dropRecvEntry]
  have h2 := life_setRecvDone { w1 with reg := w1.reg.dropRecvMemberships id } id
  rw [life_dropRecvMemberships, h1] at h2
  rw [h2]

theorem life_putSend (w : World σ) (id : Nat) (s : StreamSendState) :
    (w.putSend id s).life id = { w.life id with send := some s } := by
  simp only [life, putSend, AList.lookup_insert]
  rfl

/-- The record and the flags of `mark_send_done`, before contract A. -/
theorem life_sendDoneFlags (w : World σ) (id : Nat) :
    ({ w.emit (.sendDone id) with
      reg := ((w.emit (.sendDone id)).reg.dropSendMembership id).setSendDone id } : World σ).life id
        =
      { w.life id with
        hist := .sendDone id :: w.trace, runnable := false, admission :=
          markSend (w.life id).admission } := by
  have h1 := life_setSendDone { w.emit (.sendDone id) with
    reg := (w.emit (.sendDone id)).reg.dropSendMembership id } id
  rw [life_dropSendMembership, life_emit] at h1
  exact h1

theorem life_markSendDone (w : World σ) (id : Nat) :
    (w.markSendDone id).life id = (w.life id).sendDone id := by
  cases hx : w.reg.send.lookup id with
  | none =>
    have hs : (w.life id).send = none := hx
    simp only [markSendDone, hx, life_terminalTransition, Life.sendDone, hs, Option.map_none]
    rw [life_sendDoneFlags, ← hs]
    rfl
  | some s =>
    have hs : (w.life id).send = some s := hx
    simp only [markSendDone, hx, life_terminalTransition, Life.sendDone, hs, Option.map_some]
    rw [life_sendDoneFlags, life_putSend]
    rfl

theorem life_completeOp (w : World σ) (op : SendOp) (res : Except SendEnd Unit) (id : Nat) :
    (w.completeOp op res).life id = (w.life id).emit (.resolve op.tok res) := by
  cases op <;> rfl

theorem life_completeFinishOp (w : World σ) (id : Nat) :
    (w.completeFinishOp id).life id = (w.life id).completeFinish id := by
  have hs : (w.life id).send = w.reg.send.lookup id := rfl
  unfold completeFinishOp Life.completeFinish Life.popOp
  dsimp only
  rw [life_reclaimFinishedSend, life_markSendDone, hs]
  congr 2
  cases hx : w.reg.send.lookup id with
  | none => rfl
  | some s =>
    dsimp only
    cases ho : s.sendOps with
    | nil => rfl
    | cons op ops =>
      dsimp only
      rw [life_completeOp, life_putSend]
      rfl

end World

end QuicheH3
