/-
# The peer streams waiting for admission

`pending_admit` and the parked entries of `admit` carry a `PeerStream` each.  Its id is the key
it is stored under, and it never carries a receive terminal: nothing in the driver retains one.
Admission therefore always registers a receive entry.

`PeersLe w w'` says that no peer stream begins to wait.  It is the relation of all pieces but
discovery, which makes a record under its own id, and parking, which moves one.

Contents
  1  the functions that end a direction
  2  the other composites
  3  the invariant (`PeersOk`), for every step
-/
import QuicheH3.Driver.Sides

namespace QuicheH3

open Lib

/-- A waiting peer stream is stored under its own id, without a receive terminal. -/
def PeerOk (id : Nat) (p : PeerStream) : Prop := p.id = id ∧ p.pendingRecvTerminal = none

/-- All waiting peer streams are in order. -/
structure PeersOk (r : Registry) : Prop where
  pending : ∀ id p, r.pendingAdmit.lookup id = some p → PeerOk id p
  parked : ∀ id p, r.admission.lookup id = some (.parked p) → PeerOk id p

namespace World

variable {σ : Type} {T : QuicConn σ} {w w' w'' : World σ}

/-- No peer stream begins to wait. -/
structure PeersLe (w w' : World σ) : Prop where
  pending : ∀ id p, w'.reg.pendingAdmit.lookup id = some p →
    w.reg.pendingAdmit.lookup id = some p
  parked : ∀ id p, w'.reg.admission.lookup id = some (.parked p) →
    w.reg.admission.lookup id = some (.parked p)

namespace PeersLe

theorem refl (w : World σ) : PeersLe w w := ⟨fun _ _ h => h, fun _ _ h => h⟩

theorem trans (h : PeersLe w w') (h' : PeersLe w' w'') : PeersLe w w'' :=
  ⟨fun id p hp => h.pending id p (h'.pending id p hp),
    fun id p hp => h.parked id p (h'.parked id p hp)⟩

theorem ok (h : PeersLe w w') (hr : PeersOk w.reg) : PeersOk w'.reg :=
  ⟨fun id p hp => hr.pending id p (h.pending id p hp),
    fun id p hp => hr.parked id p (h.parked id p hp)⟩

theorem of_eq (hp : w'.reg.pendingAdmit = w.reg.pendingAdmit)
    (ha : w'.reg.admission = w.reg.admission) :
    PeersLe w w' :=
  ⟨fun _ _ h => hp ▸ h, fun _ _ h => ha ▸ h⟩

/-- The admit state of an id goes, or is a registered one. -/
theorem of_admission (id : Nat) (x : Option AdmitState) (hx : ∀ p, x ≠ some (.parked p))
    (hp : w'.reg.pendingAdmit = w.reg.pendingAdmit)
    (ha : (fun i => w'.reg.admission.lookup i) =
      Function.update (fun i => w.reg.admission.lookup i) id x) : PeersLe w w' := by
  refine ⟨fun _ _ h => hp ▸ h, fun i p h => ?_⟩
  rw [congrFun ha i] at h
  by_cases hi : i = id
  · subst hi
    rw [Function.update_self] at h
    exact absurd h (hx p)
  · rwa [Function.update_of_ne hi] at h

theorem eraseAdmit (w : World σ) (id : Nat) :
    PeersLe w { w with reg.admission := w.reg.admission.erase id } :=
  of_admission id none (by simp) rfl (lookup_erase _ _)

theorem insertRegistered (w : World σ) (id : Nat) (sd rd : Bool) :
    PeersLe w { w with reg.admission := w.reg.admission.insert id (.registered sd rd) } :=
  of_admission id (some (.registered sd rd)) (by simp) rfl (lookup_insert _ _ _)

theorem erasePending (w : World σ) (id : Nat) :
    PeersLe w { w with reg.pendingAdmit := w.reg.pendingAdmit.erase id } := by
  refine ⟨fun i p h => ?_, fun _ _ h => h⟩
  by_cases hi : i = id
  · subst hi
    rw [AList.lookup_erase] at h
    cases h
  · rwa [AList.lookup_erase_ne hi] at h

end PeersLe

theorem SendSide.peers (h : SendSide w w') : PeersLe w w' := .of_eq h.pendingAdmit h.admission

theorem RecvSide.peers (h : RecvSide w w') : PeersLe w w' := .of_eq h.pendingAdmit h.admission

/-! ## 1. The functions that end a direction -/

theorem peers_frame : SideFrame (PeersLe (σ := σ)) where
  refl := .refl
  trans := .trans
  eraseAdmit := .eraseAdmit
  erasePending := .erasePending
  parked _ _ _ := .of_eq rfl rfl
  pending _ _ _ := .of_eq rfl rfl
  shutdown _ _ _ _ _ := .of_eq rfl rfl
  markAdmit := .insertRegistered
  dropRecv w id := (recvSides.dropRecvEntry w id).peers
  recvCursors _ _ := .of_eq rfl rfl
  recvDone _ _ := .of_eq rfl rfl
  sendSide := SendSide.peers

/-! ## 2. The other composites -/

theorem setPendingOf_peers (w : World σ) (bidi : Bool) (q : List Nat) :
    PeersLe w { w with reg := setPendingOf w.reg bidi q } := by
  cases bidi <;> exact .of_eq rfl rfl

theorem setParkedOf_peers (w : World σ) (bidi : Bool) (q : List Nat) :
    PeersLe w { w with reg := setParkedOf w.reg bidi q } := by
  cases bidi <;> exact .of_eq rfl rfl

theorem Take.peers {r : Registry} {bidi : Bool} {id : Nat} {peer : PeerStream}
    (h : Take w.reg bidi id peer r) : PeersLe w { w with reg := r } := by
  cases h with
  | pending hq ha hr hp => exact (setPendingOf_peers w bidi _).trans (.erasePending _ id)
  | parked hq ha => exact (setParkedOf_peers w bidi _).trans (.eraseAdmit _ id)

theorem Take.peerOk {r r' : Registry} {bidi : Bool} {id : Nat} {peer : PeerStream}
    (h : Take r bidi id peer r') (hr : PeersOk r) : PeerOk id peer := by
  cases h with
  | pending hq ha _ hp => exact hr.pending id peer hp
  | parked hq ha => exact hr.parked id peer ha

theorem buildPeerBidi_peers (w : World σ) (peer : PeerStream) :
    PeersLe w (w.buildPeerBidi peer).2 := by
  have h1 := (recvSides.buildRecv w peer.id peer.pendingRecvTerminal).peers
  have h2 := h1.trans (sendSides.buildSend _ peer.id peer.pendingSendTerminal).peers
  exact h2.trans (.insertRegistered _ _ _ _)

theorem buildPeerUni_peers (w : World σ) (peer : PeerStream) :
    PeersLe w (w.buildPeerUni peer).2 := by
  have h1 := (recvSides.buildRecv w peer.id peer.pendingRecvTerminal).peers
  exact h1.trans (.insertRegistered _ _ _ _)

theorem buildOpen_peers (w : World σ) (bidi : Bool) (id : Nat) :
    PeersLe w (w.buildOpen bidi id).2 := by
  cases bidi with
  | true =>
    have h1 := (recvSides.buildRecv w id none).peers
    exact h1.trans (sendSides.buildSend _ id none).peers
  | false => exact (sendSides.buildSend w id none).peers

theorem opened_peers (w : World σ) (bidi : Bool) (rest : List Nat) :
    PeersLe w (w.opened bidi rest).2 := by
  refine PeersLe.trans ?_ (buildOpen_peers _ bidi _)
  cases bidi <;> exact .of_eq rfl rfl

theorem undeliver_peers (w : World σ) (bidi : Bool) (id : Nat) (ans : Reply) :
    PeersLe w (w.undeliver bidi id ans) := by
  have h1 : PeersLe w (w.dropAnswer ans) := by cases ans <;> exact .of_eq rfl rfl
  have h2 := h1.trans (sendSides.dropSendEntry _ id).peers
  cases bidi with
  | true =>
    have h3 : PeersLe w (((w.dropAnswer ans).dropSendEntry id).emit
      (.streamShutdown id .write h3RequestCancelled)) := h2.trans (.of_eq rfl rfl)
    exact (h3.trans (recvSides.dropRecvEntry _ id).peers).trans (.of_eq rfl rfl)
  | false => exact h2.trans (.of_eq rfl rfl)

theorem noteShutdown_peers (w : World σ) (id : Nat) (bidi : Bool) :
    PeersLe w (w.noteShutdown id bidi) := by
  cases bidi <;> exact .of_eq rfl rfl

theorem applyNow_peers (w : World σ) (cmd : DriverCommand) : PeersLe w (w.applyNow T cmd) := by
  have h0 : PeersLe w (w.emit (.applied cmd)) := .of_eq rfl rfl
  cases cmd with
  | send id | finish id => exact h0.trans (sendSide_enqueueSendOp _ id _).peers
  | reset id code => exact h0.trans (sendSides.ensureSend _ id).peers
  | stopSending id code =>
    have h1 : PeersLe w ((w.emit (.applied (.stopSending id code))).emit
      (.streamShutdown id .read code)) := .of_eq rfl rfl
    exact h1.trans ((peers_frame.ends id).markRecvDone _)
  | connectionDropped => exact h0.trans (peers_frame.cleanUndeliveredPeerStreams _)
  | _ => exact .of_eq rfl rfl

end World

/-! ## 3. The invariant -/

namespace PeersOk

variable {r r' : Registry} {id : Nat} {peer : PeerStream}

theorem insertParked (hr : PeersOk r) (hp : PeerOk id peer)
    (hpend : r'.pendingAdmit = r.pendingAdmit)
    (ha : r'.admission = r.admission.insert id (.parked peer)) : PeersOk r' := by
  refine ⟨fun i p h => hr.pending i p (hpend ▸ h), fun i p h => ?_⟩
  rw [ha, congrFun (lookup_insert _ _ _) i] at h
  by_cases hi : i = id
  · subst hi
    rw [Function.update_self] at h
    cases h
    exact hp
  · rw [Function.update_of_ne hi] at h
    exact hr.parked i p h

theorem insertPending (hr : PeersOk r) (hp : PeerOk id peer)
    (hpend : r'.pendingAdmit = r.pendingAdmit.insert id peer) (ha : r'.admission = r.admission) :
    PeersOk r' := by
  refine ⟨fun i p h => ?_, fun i p h => hr.parked i p (ha ▸ h)⟩
  rw [hpend, congrFun (lookup_insert _ _ _) i] at h
  by_cases hi : i = id
  · subst hi
    rw [Function.update_self] at h
    cases h
    exact hp
  · rw [Function.update_of_ne hi] at h
    exact hr.pending i p h

end PeersOk

theorem pushPendingAdmit_pendingAdmit (r : Registry) (id : Nat) :
    (r.pushPendingAdmit id).pendingAdmit = r.pendingAdmit := by
  unfold Registry.pushPendingAdmit
  split <;> rfl

theorem pushPendingAdmit_admission (r : Registry) (id : Nat) :
    (r.pushPendingAdmit id).admission = r.admission := by
  unfold Registry.pushPendingAdmit
  split <;> rfl

theorem peerOk_mergeStop {id : Nat} {peer : PeerStream} (h : PeerOk id peer)
    (stopped : Option SendEnd) : PeerOk id (World.PeerStream.mergeStop peer stopped) := by
  unfold World.PeerStream.mergeStop
  split <;> exact h

namespace World

variable {σ : Type} {T : QuicConn σ} {w w' : World σ}

theorem intakeOne_peersOk (w : World σ) (id : Nat) (hw : PeersOk w.reg) :
    PeersOk (w.intakeOne id).reg := by
  unfold intakeOne
  split
  · exact PeersLe.ok (w := w) (.of_eq rfl rfl) hw
  · split
    · exact hw
    · have hp : PeerOk id (.new id) := ⟨rfl, rfl⟩
      exact hw.insertPending hp (pushPendingAdmit_pendingAdmit _ id)
        (pushPendingAdmit_admission _ id)

/-- **Every step keeps the waiting peer streams in order.** -/
theorem peersOk_step (hs : Step T w w') (hw : PeersOk w.reg) : PeersOk w'.reg := by
  cases hs with
  | readable id => exact intakeOne_peersOk (w.emit _) id hw
  | recvEnd id h e hr hf =>
    exact ((recvSides.setRecvCell w h e).peers.trans ((peers_frame.ends id).markRecvDone _)).ok hw
  | abandon id h hr hg =>
    have h1 : PeersLe w (w.emit (.streamShutdown id .read h3NoError)) := .of_eq rfl rfl
    exact (h1.trans ((peers_frame.ends id).markRecvDone _)).ok hw
  | stalePending bidi id rest hq hs =>
    exact ((setPendingOf_peers w bidi rest).trans (.erasePending _ id)).ok hw
  | lostPending bidi id rest hq hp => exact (setPendingOf_peers w bidi rest).ok hw
  | skipParked bidi id rest hq ha => exact (setParkedOf_peers w bidi rest).ok hw
  | admitBidi bidi id peer r acts ht hb =>
    exact (ht.peers.trans ((buildPeerBidi_peers _ peer).trans (.of_eq rfl rfl))).ok hw
  | admitUni bidi id peer r acts ht hb =>
    exact (ht.peers.trans ((buildPeerUni_peers _ peer).trans (.of_eq rfl rfl))).ok hw
  | repark bidi front id peer r ht =>
    refine (ht.peers.ok hw).insertParked (ht.peerOk hw) ?_ ?_ <;> cases bidi <;> rfl
  | tear bidi id peer r ht => exact (ht.peers.trans (noteShutdown_peers _ _ _)).ok hw
  | settle id => exact ((peers_frame.ends id).terminalTransition w).ok hw
  | acceptFlag bidi | skipOpen bidi | failOpen bidi => cases bidi <;> exact hw
  | openDeliver bidi r rest acts hq w1 hw1 hw' =>
    subst hw1
    exact ((opened_peers w bidi rest).trans (.of_eq rfl rfl)).ok hw
  | openUndeliver bidi r rest acts c hq w1 hw1 hw' =>
    subst hw1
    have h1 : PeersLe w { (w.opened bidi rest).2.fronts acts with ctl := c } :=
      (opened_peers w bidi rest).trans (.of_eq rfl rfl)
    exact (h1.trans (undeliver_peers _ bidi _ _)).ok hw
  | discover id ans hu =>
    have hp : PeerOk id { PeerStream.new id with pendingSendTerminal := stoppedOf ans } :=
      ⟨rfl, rfl⟩
    exact hw.insertPending hp (pushPendingAdmit_pendingAdmit _ id) (pushPendingAdmit_admission _ id)
  | mergePending id ans peer hs hp =>
    exact hw.insertPending (peerOk_mergeStop (hw.pending id peer hp) _) rfl rfl
  | mergeParked id ans peer hs ha =>
    exact hw.insertParked (peerOk_mergeStop (hw.parked id peer ha) _) rfl rfl
  | flushFin id s buf n t ops c hl hh hr ho hn hm =>
    have h1 : PeersLe w ((w.emit (.streamSend id buf.offered (buf.offerFin true) (.ok n))).putSend
      id
      { s with held := none }) := .of_eq rfl rfl
    exact (h1.trans (peers_frame.completeFinishOp _ id)).ok hw
  | emptyFin id s buf t ops hl hh hr ho =>
    exact ((sendSides.putSend w id _).peers.trans (peers_frame.completeFinishOp _ id)).ok hw
  | loneFin id s n t ops c hl hh ho hn =>
    have h1 : PeersLe w (w.emit (.streamSend id [] true (.ok n))) := .of_eq rfl rfl
    exact (h1.trans (peers_frame.completeFinishOp _ id)).ok hw
  | hold id s buf t permit ops hl hh ho hr =>
    exact ((sendSides.completeOp w _ _).trans (sendSides.putSend _ id _)).peers.ok hw
  | sendEnd id s e hl => exact (peers_frame.sendTerminalTransition w id e).ok hw
  | resetTurn id code s rest hq hs hp =>
    have h1 : PeersLe w ((({ w with reg.runnableSend := rest }.emit (.turn id)).putSend id
      { s with pendingReset := none }).emit (.streamShutdown id .write code)) := .of_eq rfl rfl
    exact (h1.trans ((peers_frame.ends id).markSendDone _)).ok hw
  | apply w1 cmd hp =>
    have h1 : PeersLe w w1 := by cases hp <;> exact .of_eq rfl rfl
    exact (h1.trans (applyNow_peers _ cmd)).ok hw
  | resetEntry id code ha => exact (sendSide_resetEntry w id code).peers.ok hw
  | readOk id h chunk fin hr hp =>
    refine PeersLe.ok (w := w) (.of_eq ?_ ?_) hw <;> unfold placeChunk <;> split <;> rfl
  | park id h acts hr hl w1 hw1 hf =>
    subst hw1
    exact hw
  | _ => exact PeersLe.ok (w := w) (.of_eq rfl rfl) hw

theorem peersOk_steps (hs : Steps T w w') (hw : PeersOk w.reg) : PeersOk w'.reg := by
  induction hs with
  | refl => exact hw
  | tail _ hs ih => exact peersOk_step hs ih

end World

end QuicheH3
