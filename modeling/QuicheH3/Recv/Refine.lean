/-
# The driver makes only moves of the receive machine

`rview` is what the receive machine sees of a world.  Every atomic step of the driver is a
sequence of moves of the machine, most of them a `skip`: the step leaves entries, permits and
cells alone and its events belong to another part.

What the machine guarantees (`RecvOk`: a read is made with a slot in hand, what is placed is what
was read, nothing is placed after the seal) holds of every run this way.

Contents
  1  entries and cells, 2 the functions that end a direction, 3 building halves
  4  the remaining composites
  5  the steps
-/
import QuicheH3.Recv.Machine
import QuicheH3.Registry.Peers
import QuicheH3.Driver.Refine

namespace QuicheH3

open Lib

namespace World

variable {σ : Type} {T : QuicConn σ} {w w' w'' : World σ}

/-- The receive side of a world. -/
def rview (w : World σ) : RecvView where
  entry id := w.reg.recv.lookup id
  permit h := (w.sh.recvHalves h).permit
  cell h := (w.sh.recvHalves h).terminal
  next := w.sh.nextRecv
  hist := w.trace

/-- The receive machine moves from one world to the other. -/
def RecvMoves (w w' : World σ) : Prop := w.rview.Moves w'.rview

namespace RecvMoves

theorem refl (w : World σ) : RecvMoves w w := Relation.ReflTransGen.refl

theorem trans (h : RecvMoves w w') (h' : RecvMoves w' w'') : RecvMoves w w'' :=
  Relation.ReflTransGen.trans h h'

theorem single (h : w.rview.Move w'.rview) : RecvMoves w w' := Relation.ReflTransGen.single h

/-- Entries and halves stay, and the new events are of other parts. -/
theorem keep (hr : w'.reg.recv = w.reg.recv)
    (hp : ∀ h, (w'.sh.recvHalves h).permit = (w.sh.recvHalves h).permit)
    (hc : ∀ h, (w'.sh.recvHalves h).terminal = (w.sh.recvHalves h).terminal)
    (hn : w'.sh.nextRecv = w.sh.nextRecv) (hg : Grows Event.notRecv w.trace w'.trace) :
    RecvMoves w w' := by
  have he : w'.rview = { w.rview with hist := w'.trace } := by
    simp only [rview, hr, hp, hc, hn]
  refine single ?_
  rw [he]
  exact .skip _ _ hg

/-- The registries of other parts, and one event of another part. -/
theorem same (hr : w'.reg.recv = w.reg.recv) (hs : w'.sh.recvHalves = w.sh.recvHalves)
    (hn : w'.sh.nextRecv = w.sh.nextRecv) (hg : Grows Event.notRecv w.trace w'.trace) :
    RecvMoves w w' :=
  keep hr (fun _ => by rw [hs]) (fun _ => by rw [hs]) hn hg

end RecvMoves

theorem notRecv_of_isSend (e : Event) (h : e.isSend) : e.notRecv := by
  cases e <;> first | exact fun h' => h' | exact h.elim

theorem notRecv_of_isFront (e : Event) (h : e.isFront) : e.notRecv := by
  cases e <;> first | exact fun h' => h' | exact h.elim

theorem notRecv_of_isProbe (e : Event) (h : e.isProbe) : e.notRecv := by
  cases e <;> first | exact fun h' => h' | exact h.elim

theorem SendSide.recvMoves (h : SendSide w w') : RecvMoves w w' :=
  .same h.recv h.recvHalves h.nextRecv (h.grows.mono notRecv_of_isSend)

theorem FrontRel.recvMoves {f : Face} (h : FrontRel w.toFace f) :
    RecvMoves w { w with toFace := f } :=
  .keep rfl h.permit h.terminal h.nextRecv (h.grows.mono notRecv_of_isFront)

theorem fronts_recvMoves (w : World σ) (acts : List FrontAct) : RecvMoves w (w.fronts acts) :=
  FrontRel.recvMoves (Face.fronts_rel acts w.toFace)

/-- An event of another part. -/
theorem emit_recvMoves (w : World σ) (e : Event) (he : e.notRecv) : RecvMoves w (w.emit e) :=
  .same rfl rfl rfl (.one he)

/-! ## 1. Entries and cells -/

/-- A change of a half, as the machine sees it. -/
theorem modRecv_rview (w : World σ) (h : Nat) (g : RecvHalf → RecvHalf) :
    (w.modRecv h g).rview =
      { w.rview with
        permit := Function.update w.rview.permit h (g (w.sh.recvHalves h)).permit
        cell := Function.update w.rview.cell h (g (w.sh.recvHalves h)).terminal } := by
  simp only [rview, modRecv, Face.modRecv]
  congr 1
  · funext k
    by_cases hk : k = h
    · subst hk
      simp only [Function.update_self]
    · simp only [Function.update_of_ne hk]
  · funext k
    by_cases hk : k = h
    · subst hk
      simp only [Function.update_self]
    · simp only [Function.update_of_ne hk]

/-- A change of a half that the machine does not see. -/
theorem modRecv_recvMoves (w : World σ) (h : Nat) (g : RecvHalf → RecvHalf)
    (hp : ∀ r, (g r).permit = r.permit) (hc : ∀ r, (g r).terminal = r.terminal) :
    RecvMoves w (w.modRecv h g) := by
  have he : (w.modRecv h g).rview = w.rview := by
    rw [modRecv_rview, hp, hc]
    simp only [rview, Function.update_eq_self]
  unfold RecvMoves
  rw [he]

theorem txOpen_rview (w : World σ) (h : Nat) (b : Bool) :
    (w.modRecv h fun r => { r with txOpen := b }).rview = w.rview := by
  rw [modRecv_rview]
  simp only [rview, Function.update_eq_self]

theorem emit_rview (w : World σ) (e : Event) :
    (w.emit e).rview = { w.rview with hist := e :: w.trace } := rfl

theorem dropRecvEntry_rview {id h : Nat} (w : World σ) (hr : w.reg.recv.lookup id = some h) :
    (w.dropRecvEntry id).rview = w.rview.close id h := by
  simp only [dropRecvEntry, hr, emit_rview]
  rw [txOpen_rview]
  simp only [RecvView.close, rview, lookup_erase]
  rfl

theorem dropRecvEntry_recvMoves (w : World σ) (id : Nat) : RecvMoves w (w.dropRecvEntry id) := by
  cases hr : w.reg.recv.lookup id with
  | none =>
    simp only [dropRecvEntry, hr]
    exact .refl w
  | some h =>
    refine .single ?_
    rw [dropRecvEntry_rview w hr]
    exact .close _ id h hr

theorem setRecvCell_rview (w : World σ) (h : Nat) (e : RecvEnd) :
    (w.setRecvCell h e).rview = w.rview.set h e := by
  unfold setRecvCell RecvView.set
  cases ht : (w.sh.recvHalves h).terminal with
  | some e' => simp only [rview, ht]
  | none =>
    dsimp only
    rw [emit_rview, modRecv_rview]
    simp only [rview, ht, Function.update_eq_self]
    rfl

/-! ## 2. The functions that end a direction -/

theorem recvMoves_frame : SideFrame (RecvMoves (σ := σ)) where
  refl := .refl
  trans := .trans
  eraseAdmit _ _ := .same rfl rfl rfl (.refl _ _)
  erasePending _ _ := .same rfl rfl rfl (.refl _ _)
  parked _ _ _ := .same rfl rfl rfl (.refl _ _)
  pending _ _ _ := .same rfl rfl rfl (.refl _ _)
  shutdown _ _ _ _ _ := .same rfl rfl rfl (.one fun h => h)
  markAdmit _ _ _ _ := .same rfl rfl rfl (.refl _ _)
  dropRecv := dropRecvEntry_recvMoves
  recvCursors _ _ := .same rfl rfl rfl (.refl _ _)
  recvDone w id := emit_recvMoves w (.recvDone id) fun h => h
  sendSide := SendSide.recvMoves

/-! ## 3. Building halves -/

theorem dropRecvEntry_lookup (w : World σ) (id : Nat) :
    (w.dropRecvEntry id).reg.recv.lookup id = none := by
  cases hr : w.reg.recv.lookup id with
  | none => simp only [dropRecvEntry, hr]
  | some h =>
    simp only [dropRecvEntry, hr]
    exact AList.lookup_erase (β := fun _ => Nat) id w.reg.recv

theorem insertRecv_rview (w : World σ) (id h : Nat) :
    (w.insertRecv id h).rview =
      { (w.dropRecvEntry id).rview with
        entry := Function.update (w.dropRecvEntry id).rview.entry id (some h)
        hist := .recvOpen id h :: (w.dropRecvEntry id).trace } := by
  simp only [insertRecv, emit_rview]
  rw [txOpen_rview]
  simp only [rview, lookup_insert]
  rfl

/-- Opening an entry over the next free half. -/
def opensNext (v : RecvView) (id : Nat) : RecvView :=
  { entry := Function.update v.entry id (some v.next)
    permit := Function.update v.permit v.next false
    cell := Function.update v.cell v.next none
    next := v.next + 1
    hist := .recvOpen id v.next :: v.hist }

theorem buildRecv_rview (w : World σ) (id : Nat) :
    (w.buildRecv id none).2.rview = opensNext (w.dropRecvEntry id).rview id := by
  generalize hw1 : ({ w with
      sh.nextRecv := w.sh.nextRecv + 1
      sh.senders := w.sh.senders + 1
      sh.recvHalves := Function.update w.sh.recvHalves w.sh.nextRecv
        { (default : RecvHalf) with
          id := id, depth := max w.recvChannelDepth 1, holder := .handoff } } : World σ) = w1
  have h0 : (w.buildRecv id none).2 = w1.insertRecv id w.sh.nextRecv := by rw [← hw1]; rfl
  have h1 : w1.rview = { w.rview with
      permit := Function.update w.rview.permit w.rview.next false
      cell := Function.update w.rview.cell w.rview.next none
      next := w.rview.next + 1 } := by
    subst hw1
    simp only [rview]
    congr 1
    · funext k
      by_cases hk : k = w.sh.nextRecv
      · subst hk
        simp only [Function.update_self]
        rfl
      · simp only [Function.update_of_ne hk]
    · funext k
      by_cases hk : k = w.sh.nextRecv
      · subst hk
        simp only [Function.update_self]
        rfl
      · simp only [Function.update_of_ne hk]
  have hreg : w1.reg.recv = w.reg.recv := by rw [← hw1]
  rw [h0, insertRecv_rview]
  cases hr : w.reg.recv.lookup id with
  | none =>
    have e1 : w1.dropRecvEntry id = w1 := by simp only [dropRecvEntry, hreg, hr]
    have e2 : w.dropRecvEntry id = w := by simp only [dropRecvEntry, hr]
    rw [e1, e2, h1, ← hw1]
    rfl
  | some h =>
    have e1 := dropRecvEntry_rview w1 (hreg ▸ hr)
    have e2 := dropRecvEntry_rview w hr
    have e3 : (w1.dropRecvEntry id).trace = .recvClose id h :: w.trace := by
      have := congrArg RecvView.hist e1
      rw [h1] at this
      exact this
    rw [e1, e2, e3, h1]
    rfl

/-- A new half, registered: the entry of the id is closed if there is one, then opened. -/
theorem buildRecv_recvMoves (w : World σ) (id : Nat) : RecvMoves w (w.buildRecv id none).2 := by
  refine (dropRecvEntry_recvMoves w id).trans (.single ?_)
  rw [buildRecv_rview]
  exact .opens _ id (dropRecvEntry_lookup w id)

theorem buildPeerBidi_recvMoves (w : World σ) {peer : PeerStream}
    (hp : peer.pendingRecvTerminal = none) : RecvMoves w (w.buildPeerBidi peer).2 := by
  simp only [buildPeerBidi, hp]
  have h1 := buildRecv_recvMoves w peer.id
  have h2 := h1.trans (sendSides.buildSend _ peer.id peer.pendingSendTerminal).recvMoves
  exact h2.trans (.same rfl rfl rfl (.refl _ _))

theorem buildPeerUni_recvMoves (w : World σ) {peer : PeerStream}
    (hp : peer.pendingRecvTerminal = none) : RecvMoves w (w.buildPeerUni peer).2 := by
  simp only [buildPeerUni, hp]
  exact (buildRecv_recvMoves w peer.id).trans (.same rfl rfl rfl (.refl _ _))

theorem buildOpen_recvMoves (w : World σ) (bidi : Bool) (id : Nat) :
    RecvMoves w (w.buildOpen bidi id).2 := by
  cases bidi with
  | true => exact (buildRecv_recvMoves w id).trans (sendSides.buildSend _ id none).recvMoves
  | false => exact (sendSides.buildSend w id none).recvMoves

theorem opened_recvMoves (w : World σ) (bidi : Bool) (rest : List Nat) :
    RecvMoves w (w.opened bidi rest).2 := by
  have h1 : RecvMoves w (((w.setOpenOf bidi rest).emit
      (.streamPriority (w.nextIdOf bidi) true)).advanceNextId bidi) := by
    cases bidi <;> exact .same rfl rfl rfl (.one (fun h => h))
  exact h1.trans (buildOpen_recvMoves _ bidi _)

/-! ## 4. The remaining composites -/

theorem cmdSend_same (f : Face) (cmd : DriverCommand) :
    (f.cmdSend cmd).sh.recvHalves = f.sh.recvHalves ∧
      (f.cmdSend cmd).sh.nextRecv = f.sh.nextRecv ∧
      Grows Event.notRecv f.trace (f.cmdSend cmd).trace := by
  unfold Face.cmdSend
  split
  · exact ⟨rfl, rfl, .refl _ _⟩
  · exact ⟨rfl, rfl, .one (fun h => h)⟩

theorem dropSendHandoff_recvMoves (w : World σ) (c : Nat) :
    RecvMoves w { w with toFace := w.toFace.dropSendHandoff c } := by
  have h := cmdSend_same ((w.toFace.modSend c fun s => { s with holder := .gone }).emit
    (.sendDropped c)) (.finish (w.sh.sendHalves c).id w.sh.nextTok)
  have hg : Grows Event.notRecv w.trace (.sendDropped c :: w.trace) :=
    .one (fun h => h)
  exact .same rfl h.1 h.2.1 (hg.trans h.2.2)

theorem dropRecvHandoff_recvMoves (w : World σ) (h : Nat) :
    RecvMoves w { w with toFace := w.toFace.dropRecvHandoff h } := by
  have h0 := modRecv_recvMoves w h (fun r => { r with holder := .gone, bytes := [] })
    (fun _ => rfl) (fun _ => rfl)
  have h1 := h0.trans (emit_recvMoves _ (.recvDropped h) fun h => h)
  have h2 := cmdSend_same ((w.modRecv h fun r => { r with holder := .gone, bytes := [] }).emit
    (.recvDropped h)).toFace (.stopSending (w.sh.recvHalves h).id 0)
  exact h1.trans (.same rfl h2.1 h2.2.1 h2.2.2)

theorem dropAnswer_recvMoves (w : World σ) (ans : Reply) : RecvMoves w (w.dropAnswer ans) := by
  cases ans with
  | bidi h c => exact (dropSendHandoff_recvMoves w c).trans (dropRecvHandoff_recvMoves _ h)
  | uni c => exact dropSendHandoff_recvMoves w c
  | _ => exact .refl w

theorem undeliver_recvMoves (w : World σ) (bidi : Bool) (id : Nat) (ans : Reply) :
    RecvMoves w (w.undeliver bidi id ans) := by
  have h1 := (dropAnswer_recvMoves w ans).trans (sendSides.dropSendEntry _ id).recvMoves
  have h2 := h1.trans (emit_recvMoves _ (.streamShutdown id .write h3RequestCancelled) fun h => h)
  cases bidi with
  | true => exact (h2.trans (dropRecvEntry_recvMoves _ id)).trans (emit_recvMoves _ _ fun h => h)
  | false => exact h2

theorem applyNow_recvMoves (w : World σ) (cmd : DriverCommand) :
    RecvMoves w (w.applyNow T cmd) := by
  have h0 := emit_recvMoves w (.applied cmd) fun h => h
  cases cmd with
  | send id | finish id => exact h0.trans (sendSide_enqueueSendOp _ id _).recvMoves
  | reset id code => exact h0.trans (sendSides.ensureSend _ id).recvMoves
  | stopSending id code =>
    have h1 := h0.trans (emit_recvMoves _ (.streamShutdown id .read code) fun h => h)
    exact h1.trans ((recvMoves_frame.ends id).markRecvDone _)
  | connectionDropped =>
    exact h0.trans (recvMoves_frame.cleanUndeliveredPeerStreams _)
  | _ => exact .same rfl rfl rfl (.one (fun h => h))

/-! ## 5. The steps -/

/-- A permit is taken, given back or spent. -/
theorem permit_rview (w : World σ) (h : Nat) (g : RecvHalf → RecvHalf) (b : Bool)
    (hp : (g (w.sh.recvHalves h)).permit = b)
    (hc : (g (w.sh.recvHalves h)).terminal = (w.sh.recvHalves h).terminal) :
    (w.modRecv h g).rview = { w.rview with permit := Function.update w.rview.permit h b } := by
  rw [modRecv_rview, hp, hc]
  simp only [rview, Function.update_eq_self]

theorem intakeOne_recvMoves (w : World σ) (id : Nat) : RecvMoves w (w.intakeOne id) := by
  refine recvMoves_frame.intakeOne w (.same rfl rfl rfl (.refl _ _)) (.same ?_ rfl rfl (.refl _ _))
  unfold Registry.pushPendingAdmit
  split <;> rfl

theorem Take.recv {r r' : Registry} {bidi : Bool} {id : Nat} {peer : PeerStream}
    (h : Take r bidi id peer r') : r'.recv = r.recv := by
  cases h <;> cases bidi <;> rfl

/-- **Every step is made of moves of the receive machine.** -/
theorem recvMoves_step (hs : Step T w w') (hw : PeersOk w.reg) : RecvMoves w w' := by
  cases hs with
  | front a => exact FrontRel.recvMoves (Face.front_rel w.toFace a)
  | probe e he => exact emit_recvMoves w e (notRecv_of_isProbe e he)
  | mergePending | mergeParked | popRunnable | popReadable _ h =>
    exact .same rfl rfl rfl (.one (fun h => h))
  | capacity | sendErr | drain _ h => exact emit_recvMoves w _ fun h => h
  | readable id =>
    exact (emit_recvMoves w (.readableNext id _) fun h => h).trans (intakeOne_recvMoves _ id)
  | popResume id h rest hp hr =>
    have h1 : RecvMoves w { w with reg.pendingResume := rest } := .same rfl rfl rfl (.refl _ _)
    refine h1.trans (RecvMoves.trans ?_ (emit_recvMoves _ (.drain h) fun h => h))
    exact modRecv_recvMoves _ h _ (fun _ => rfl) (fun _ => rfl)
  | setBlocked id h b hr hl => exact modRecv_recvMoves w h _ (fun _ => rfl) (fun _ => rfl)
  | park id h acts hr hl w1 hw1 hf =>
    subst hw1
    refine RecvMoves.trans ?_ (emit_recvMoves _ (.parkFull h) fun h => h)
    refine RecvMoves.trans ?_ (fronts_recvMoves _ acts)
    exact modRecv_recvMoves w h _ (fun _ => rfl) (fun _ => rfl)
  | reserve id h hr hg hf =>
    refine .single ?_
    rw [emit_rview, permit_rview w h _ true rfl rfl]
    exact .reserve _ id h hr
  | readErr id h err hr hp =>
    refine .single ?_
    rw [permitDrop, emit_rview, permit_rview _ h _ false rfl rfl]
    exact .readErr w.rview id h err hr hp
  | readOk id h chunk fin hr hp =>
    have hm := RecvView.Move.readOk w.rview id h chunk fin hr hp
    refine .single ?_
    unfold placeChunk
    by_cases hc : chunk = []
    · simp only [hc, ne_eq, not_true_eq_false, if_false] at hm ⊢
      rw [permitDrop, emit_rview, permit_rview _ h _ false rfl rfl]
      exact hm
    · simp only [ne_eq, hc, not_false_eq_true, if_true] at hm ⊢
      rw [permitSend, emit_rview, permit_rview _ h _ false rfl rfl]
      exact hm
  | recvEnd id h e hr hf =>
    have hreg : (w.setRecvCell h e).reg.recv.lookup id = some h := by
      unfold setRecvCell
      split <;> exact hr
    refine RecvMoves.trans (.single ?_) ((recvMoves_frame.ends id).markRecvDone_rest (w.setRecvCell h e))
    rw [dropRecvEntry_rview _ hreg, setRecvCell_rview]
    exact .ends w.rview id h e hr hf
  | abandon id h hr hg =>
    exact (emit_recvMoves w (.streamShutdown id .read h3NoError) fun h => h).trans
      ((recvMoves_frame.ends id).markRecvDone _)
  | stalePending bidi | lostPending bidi | skipParked bidi | acceptFlag bidi | skipOpen bidi =>
    cases bidi <;> exact .same rfl rfl rfl (.refl _ _)
  | admitBidi bidi id peer r acts ht hb =>
    have h1 : RecvMoves w { w with reg := r } := .same ht.recv rfl rfl (.refl _ _)
    have h2 := h1.trans (buildPeerBidi_recvMoves _ (ht.peerOk hw).2)
    have h3 := h2.trans (fronts_recvMoves _ acts)
    exact h3.trans (.same rfl rfl rfl (.one (fun h => h)))
  | admitUni bidi id peer r acts ht hb =>
    have h1 : RecvMoves w { w with reg := r } := .same ht.recv rfl rfl (.refl _ _)
    have h2 := h1.trans (buildPeerUni_recvMoves _ (ht.peerOk hw).2)
    have h3 := h2.trans (fronts_recvMoves _ acts)
    exact h3.trans (.same rfl rfl rfl (.one (fun h => h)))
  | repark bidi front id peer r ht =>
    have h1 : RecvMoves w { w with reg := r } := .same ht.recv rfl rfl (.refl _ _)
    refine h1.trans ?_
    cases bidi <;> exact .same rfl rfl rfl (.refl _ _)
  | tear bidi id peer r ht =>
    have h1 : RecvMoves w { w with reg := r } := .same ht.recv rfl rfl (.refl _ _)
    exact h1.trans (recvMoves_frame.noteShutdown (fun w _ => emit_recvMoves w _ fun h => h) _ _)
  | settle id => exact (recvMoves_frame.ends id).terminalTransition w
  | failOpen bidi r rest t hq hw' =>
    cases bidi <;> exact .same rfl rfl rfl (.one (fun h => h))
  | openDeliver bidi r rest acts hq w1 hw1 hw' =>
    subst hw1
    have h1 := (opened_recvMoves w bidi rest).trans (fronts_recvMoves _ acts)
    exact h1.trans (.same rfl rfl rfl (.one (fun h => h)))
  | openUndeliver bidi r rest acts c hq w1 hw1 hw' =>
    have h1 := (opened_recvMoves w bidi rest).trans (fronts_recvMoves _ acts)
    have h2 : RecvMoves w w1 := h1.trans (hw1 ▸ .same rfl rfl rfl (.refl _ _))
    exact h2.trans (undeliver_recvMoves _ bidi _ _)
  | discover id ans hu =>
    refine .same ?_ rfl rfl (.cons (fun h => h) (.one (fun h => h)))
    unfold discovered Registry.pushPendingAdmit
    dsimp only
    split <;> rfl
  | flush id | offer id =>
    exact (emit_recvMoves w (.streamSend id _ _ _) fun h => h).trans
      (sendSides.putSend _ id _).recvMoves
  | flushFin id s buf n t ops c hl hh hr ho hn hm =>
    have h1 := (emit_recvMoves w (.streamSend id buf.offered (buf.offerFin true) (.ok n))
      fun h => h).trans (sendSides.putSend _ id { s with held := none }).recvMoves
    exact h1.trans (recvMoves_frame.completeFinishOp _ id)
  | emptyFin id s buf t ops hl hh hr ho =>
    exact (sendSides.putSend w id _).recvMoves.trans (recvMoves_frame.completeFinishOp _ id)
  | loneFin id s n t ops c hl hh ho hn =>
    exact (emit_recvMoves w (.streamSend id [] true (.ok n)) fun h => h).trans
      (recvMoves_frame.completeFinishOp _ id)
  | hold id s buf t permit ops hl hh ho hr =>
    exact ((sendSides.completeOp w _ _).trans (sendSides.putSend _ id _)).recvMoves
  | accept id s buf t permit ops n c hl hh ho hr hn hm =>
    have h1 := (emit_recvMoves w (.streamSend id buf.offered false (.ok n)) fun h => h).trans
      (sendSides.putSend _ id { s with sendOps := ops }).recvMoves
    exact h1.trans (sendSides.completeOp _ _ _).recvMoves
  | skipWrite id s buf t permit ops hl hh ho hr =>
    exact ((sendSides.putSend w id _).trans (sendSides.completeOp _ _ _)).recvMoves
  | sendEnd id s e hl => exact recvMoves_frame.sendTerminalTransition w id e
  | resetTurn id code s rest hq hs hp =>
    have h0 : RecvMoves w ({ w with reg.runnableSend := rest }.emit (.turn id)) :=
      .same rfl rfl rfl (.one (fun h => h))
    have h1 := h0.trans (sendSides.putSend _ id { s with pendingReset := none }).recvMoves
    have h2 := h1.trans (emit_recvMoves _ (.streamShutdown id .write code) fun h => h)
    exact h2.trans ((recvMoves_frame.ends id).markSendDone _)
  | apply w1 cmd hp =>
    have h1 : RecvMoves w w1 := by cases hp <;> exact .same rfl rfl rfl (.refl _ _)
    exact h1.trans (applyNow_recvMoves _ cmd)
  | resetEntry id code ha => exact (sendSide_resetEntry w id code).recvMoves
  | _ => exact .same rfl rfl rfl (.refl _ _)

end World

end QuicheH3
