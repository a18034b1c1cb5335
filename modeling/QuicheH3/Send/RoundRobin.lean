/-
# Round-robin service of the runnable streams

`runnable_send` is the queue the send stage serves: a stream is put at its tail by five call
sites, taken from its head for a turn, and taken out of its middle when its direction or the
whole stream ends.  A stage serves at most `WRITE_BUDGET` turns and leaves the queue for the next.

`QueueStep` says what ONE atomic step can do to the queue and to the record of turns: nothing, a
push, the removal of a stream that ends, or a turn of the head.  The rest is about sequences of
steps, which is why the end of a stage does not show in it: a stream in the queue waits for those
in front of it and for nobody else (`Lib.OnceQueue.Waits`).

What this comes to for the code: over any `run` of callbacks a queued stream is served, ends, or
moves up (`run_waits`), and one `stage_send` serves everybody with fewer than `WRITE_BUDGET`
streams in front (`stageSend_serves`), so nobody waits longer than its place in the queue says.

Contents
  1-2  turns in the history; what leaves the queue alone
  3-4  the end of a direction; what one step can do (`queueStep`)
  5    waiting along a sequence of steps
  6    `round_robin`
  7    a stage, and a run
  8    two streams that take turns
-/
import QuicheH3.Lib.RoundRobin
import QuicheH3.Driver.Sides
import QuicheH3.Driver.Refine
import QuicheH3.Registry.Cursors
import QuicheH3.Mock

namespace QuicheH3

open Lib

/-! ## 1. Turns in the history -/

/-- Every event but a service turn. -/
def Event.offTurn : Event → Prop
  | .turn _ => False
  | _ => True

/-- The stream an event gives a turn to. -/
def Event.turnOf : Event → Option Nat
  | .turn id => some id
  | _ => none

/-- The streams served by these events, oldest first. -/
def turnsOf (evs : List Event) : List Nat := picked Event.turnOf evs

theorem turnsOf_append (evs evs' : List Event) :
    turnsOf (evs' ++ evs) = turnsOf evs ++ turnsOf evs' := picked_append _ evs evs'

theorem turnsOf_offTurn {evs : List Event} (h : ∀ e ∈ evs, e.offTurn) : turnsOf evs = [] := by
  refine picked_eq_nil fun e he => ?_
  have hoff := h e he
  cases e <;> first | rfl | exact hoff.elim

theorem offTurn_of_isSend (e : Event) (h : e.isSend) : e.offTurn := by
  cases e <;> first | exact h.elim | trivial

theorem offTurn_of_isRecvReg (e : Event) (h : e.isRecvReg) : e.offTurn := by
  cases e <;> first | exact h.elim | trivial

theorem offTurn_of_isFront (e : Event) (h : e.isFront) : e.offTurn := by
  cases e <;> first | exact h.elim | trivial

theorem offTurn_of_isProbe (e : Event) (h : e.isProbe) : e.offTurn := by
  cases e <;> first | exact h.elim | trivial

namespace World

variable {σ : Type} {T : QuicConn σ} {w w' w'' : World σ} {id : Nat}

/-- The event was recorded on the way from `w` to `w'`. -/
def Recorded (w w' : World σ) (e : Event) : Prop := ∃ evs, w'.trace = evs ++ w.trace ∧ e ∈ evs

theorem Recorded.emit (w : World σ) (e : Event) : Recorded w (w.emit e) e :=
  ⟨[e], rfl, List.mem_singleton_self e⟩

theorem Recorded.before {e : Event} (h : Recorded w' w'' e) (hs : w.trace <:+ w'.trace) :
    Recorded w w'' e := by
  obtain ⟨evs, htr, he⟩ := h
  obtain ⟨old, hold⟩ := hs
  exact ⟨evs ++ old, by rw [htr, ← hold, List.append_assoc], List.mem_append_left _ he⟩

theorem Recorded.after {e : Event} (h : Recorded w w' e) (hs : w'.trace <:+ w''.trace) :
    Recorded w w'' e := by
  obtain ⟨evs, htr, he⟩ := h
  obtain ⟨new, hnew⟩ := hs
  exact ⟨new ++ evs, by rw [← hnew, htr, List.append_assoc], List.mem_append_right _ he⟩

theorem Recorded.mem {e : Event} {evs : List Event} (h : Recorded w w' e)
    (htr : w'.trace = evs ++ w.trace) : e ∈ evs := by
  obtain ⟨evs', htr', he⟩ := h
  rw [htr'] at htr
  rwa [← List.append_cancel_right htr]

/-! ## 2. What leaves the queue alone -/

/-- The queue is as before and no turn was taken. -/
structure OffTurn (w w' : World σ) : Prop where
  queue : w'.reg.runnableSend = w.reg.runnableSend
  grows : Grows Event.offTurn w.trace w'.trace

namespace OffTurn

theorem refl (w : World σ) : OffTurn w w := ⟨rfl, .refl _ _⟩

theorem trans (h : OffTurn w w') (h' : OffTurn w' w'') : OffTurn w w'' :=
  ⟨h'.queue.trans h.queue, h.grows.trans h'.grows⟩

theorem still (hq : w'.reg.runnableSend = w.reg.runnableSend) (ht : w'.trace = w.trace) :
    OffTurn w w' := ⟨hq, ht ▸ .refl _ _⟩

theorem emit (w : World σ) (e : Event) (he : e.offTurn) : OffTurn w (w.emit e) :=
  ⟨rfl, .one he⟩

theorem sends : SendFrame (OffTurn (σ := σ)) where
  refl := refl
  trans := trans
  sendEvent w e he := emit w e (offTurn_of_isSend e he)
  sendHalves _ _ _ _ _ _ _ := still rfl rfl
  sendMap _ _ := still rfl rfl

theorem recvs : RecvFrame (OffTurn (σ := σ)) where
  toComposes := sends.toComposes
  recvEvent w e he := emit w e (offTurn_of_isRecvReg e he)
  modRecv _ _ _ _ := still rfl rfl
  newRecv _ _ := still rfl rfl
  recvMap _ _ := still rfl rfl

theorem clean_frame : CleanFrame (OffTurn (σ := σ)) where
  toComposes := sends.toComposes
  eraseAdmit _ _ := still rfl rfl
  erasePending _ _ := still rfl rfl
  parked _ _ _ := still rfl rfl
  pending _ _ _ := still rfl rfl
  shutdown _ _ _ _ _ := ⟨rfl, .one trivial⟩

/-! The other tasks. -/

theorem front (w : World σ) (a : FrontAct) : OffTurn w (w.front a) :=
  ⟨rfl, (Face.front_rel w.toFace a).grows.mono offTurn_of_isFront⟩

theorem fronts (w : World σ) (acts : List FrontAct) : OffTurn w (w.fronts acts) := by
  induction acts generalizing w with
  | nil => exact refl w
  | cons a acts ih => exact (front w a).trans (ih _)

theorem dropAnswer (w : World σ) (ans : Reply) : OffTurn w (w.dropAnswer ans) :=
  ⟨by cases ans <;> rfl, (dropAnswer_grows w ans).mono offTurn_of_isFront⟩

/-! Admission. -/

theorem take {r : Registry} {bidi : Bool} {peer : PeerStream} (ht : Take w.reg bidi id peer r) :
    OffTurn w { w with reg := r } := by
  cases ht <;> cases bidi <;> exact still rfl rfl

theorem buildPeerBidi (w : World σ) (peer : PeerStream) : OffTurn w (w.buildPeerBidi peer).2 := by
  have h1 := (recvs.buildRecv w peer.id peer.pendingRecvTerminal).trans
    (sends.buildSend _ peer.id peer.pendingSendTerminal)
  exact ⟨h1.queue, h1.grows⟩

theorem buildPeerUni (w : World σ) (peer : PeerStream) : OffTurn w (w.buildPeerUni peer).2 := by
  have h1 := recvs.buildRecv w peer.id peer.pendingRecvTerminal
  exact ⟨h1.queue, h1.grows⟩

theorem noteShutdown (w : World σ) (id : Nat) (bidi : Bool) : OffTurn w (w.noteShutdown id bidi) :=
  clean_frame.noteShutdown (fun w _ => emit w _ trivial) w bidi

theorem pushPendingAdmit (w : World σ) (id : Nat) (m : Map PeerStream) :
    OffTurn w { w with reg := { w.reg with pendingAdmit := m }.pushPendingAdmit id } := by
  refine still ?_ rfl
  unfold Registry.pushPendingAdmit
  split <;> rfl

theorem intakeOne (w : World σ) (id : Nat) : OffTurn w (w.intakeOne id) :=
  clean_frame.intakeOne w (still rfl rfl) (pushPendingAdmit w id _)

/-! Opening. -/

theorem setOpenOf (w : World σ) (bidi : Bool) (q : List Nat) : OffTurn w (w.setOpenOf bidi q) := by
  cases bidi <;> exact still rfl rfl

theorem advanceNextId (w : World σ) (bidi : Bool) : OffTurn w (w.advanceNextId bidi) := by
  cases bidi <;> exact still rfl rfl

theorem opened (w : World σ) (bidi : Bool) (rest : List Nat) :
    OffTurn w (w.opened bidi rest).2 := by
  have h1 := (setOpenOf w bidi rest).trans (emit _ (.streamPriority (w.nextIdOf bidi) true) trivial)
  have h2 := h1.trans (advanceNextId _ bidi)
  cases bidi with
  | true => exact h2.trans ((recvs.buildRecv _ _ none).trans (sends.buildSend _ _ none))
  | false => exact h2.trans (sends.buildSend _ _ none)

theorem undeliver (w : World σ) (bidi : Bool) (id : Nat) (ans : Reply) :
    OffTurn w (w.undeliver bidi id ans) := by
  have h1 := (dropAnswer w ans).trans (sends.dropSendEntry _ id)
  have h2 := h1.trans (emit _ (.streamShutdown id .write h3RequestCancelled) trivial)
  unfold World.undeliver
  dsimp only
  split
  · exact (h2.trans (recvs.dropRecvEntry _ id)).trans (emit _ _ trivial)
  · exact h2

end OffTurn

/-! ## 3. The end of a direction -/

/-- At most `id` left the queue, and no turn was taken. -/
structure Sheds (id : Nat) (w w' : World σ) : Prop where
  queue : w'.reg.runnableSend = w.reg.runnableSend ∨
    w'.reg.runnableSend = w.reg.runnableSend.drop id
  grows : Grows Event.offTurn w.trace w'.trace

namespace Sheds

theorem of (h : OffTurn w w') : Sheds id w w' := ⟨.inl h.queue, h.grows⟩

theorem trans (h : Sheds id w w') (h' : Sheds id w' w'') : Sheds id w w'' := by
  refine ⟨?_, h.grows.trans h'.grows⟩
  rcases h.queue with hq | hq <;> rcases h'.queue with hq' | hq' <;> rw [hq', hq]
  · exact .inl rfl
  · exact .inr rfl
  · exact .inr rfl
  · exact .inr (OnceQueue.drop_drop _ id)

theorem ends (id : Nat) : EndFrame (Sheds (σ := σ) id) id where
  refl w := of (.refl w)
  trans := trans
  eraseAdmit _ := of (.still rfl rfl)
  markAdmit _ _ _ := of (.still rfl rfl)
  dropRecv w := of (OffTurn.recvs.dropRecvEntry w id)
  dropSend w := of (OffTurn.sends.dropSendEntry w id)
  recvCursors _ := of (.still rfl rfl)
  sendCursor _ := ⟨.inr rfl, .refl _ _⟩
  recvDone w := of (.emit w _ trivial)
  sendDone w := of (.emit w _ trivial)
  finished w _ _ := of (OffTurn.sends.putSend w id _)

theorem sendTerminalTransition (w : World σ) (id : Nat) (e : SendEnd) :
    Sheds id w (w.sendTerminalTransition id e) := by
  unfold World.sendTerminalTransition
  split
  · exact of (.refl w)
  · exact (of (.trans (OffTurn.sends.setSendCell w _ e)
      (.trans (OffTurn.sends.putSend _ id _) (OffTurn.sends.completeOps _ _ _)))).trans
      ((ends id).markSendDone _)

end Sheds

theorem markRecvDone_recorded (w : World σ) (id : Nat) :
    Recorded w (w.markRecvDone id) (.recvDone id) := by
  have h1 : Recorded w ((w.dropRecvEntry id).emit (.recvDone id)) (.recvDone id) :=
    (Recorded.emit _ _).before (recvSides.dropRecvEntry w id).grows.suffix
  have h2 (v : World σ) (r : Registry) :
      v.trace <:+ (({ v with reg := r }.terminalTransition id).reclaimFinishedSend id).trace :=
    (((Sheds.ends id).terminalTransition { v with reg := r }).trans
      ((Sheds.ends id).reclaimFinishedSend _)).grows.suffix
  exact h1.after (h2 _ _)

theorem markSendDone_recorded (w : World σ) (id : Nat) :
    Recorded w (w.markSendDone id) (.sendDone id) := by
  have h1 (v : World σ) : Recorded v (({ v.emit (.sendDone id) with
      reg := (v.reg.dropSendMembership id).setSendDone id }).terminalTransition id)
        (.sendDone id) :=
    (Recorded.emit v _).after ((Sheds.ends id).terminalTransition { v.emit (.sendDone id) with
      reg := (v.reg.dropSendMembership id).setSendDone id }).grows.suffix
  unfold markSendDone
  cases hs : w.reg.send.lookup id with
  | none => exact h1 w
  | some s =>
    exact (h1 _).before (OffTurn.sends.putSend w id { s with finished := true }).grows.suffix

/-! ## 4. What a step does to the queue -/

/-- The stream ends on the way from `w` to `w'`: one of its directions is marked done, or all of
them were when the step began. -/
def OwnEnd (id : Nat) (w w' : World σ) : Prop :=
  Recorded w w' (.sendDone id) ∨ Recorded w w' (.recvDone id) ∨ w.reg.allTerminal id = true

/-- What one step can do to the queue and to the record of turns. -/
inductive QueueStep (w w' : World σ) : Prop
  | same (h : OffTurn w w')
  | push (id : Nat) (hq : w'.reg.runnableSend = w.reg.runnableSend.push id)
      (hg : Grows Event.offTurn w.trace w'.trace)
  | ends (id : Nat) (h : Sheds id w w') (ho : OwnEnd id w w')
  | turn (id : Nat) (hp : w.reg.runnableSend.pop = some (id, w'.reg.runnableSend))
      (hg : Grows Event.offTurn (.turn id :: w.trace) w'.trace)

theorem QueueStep.suffix (h : QueueStep w w') : w.trace <:+ w'.trace := by
  cases h with
  | same h | ends _ h => exact h.grows.suffix
  | push id hq hg => exact hg.suffix
  | turn id hp hg => exact (List.suffix_cons _ _).trans hg.suffix

theorem applyNow_queueStep (h : OffTurn w w') (cmd : DriverCommand) :
    QueueStep w (w'.applyNow T cmd) := by
  have h1 := h.trans (.emit w' (.applied cmd) trivial)
  have henq (id : Nat) (op : SendOp) :
      QueueStep w ((w'.emit (.applied cmd)).enqueueSendOp id op) := by
    have h2 := h1.trans (OffTurn.sends.ensureSend _ id)
    unfold enqueueSendOp
    dsimp only
    split
    · exact .same h2
    · split
      · exact .same (h2.trans (OffTurn.sends.completeOp _ op _))
      · exact .push id (by rw [← h2.queue]; rfl) h2.grows
  cases cmd with
  | recvResume | openBidi | openUni => exact .same (h1.trans (.still rfl rfl))
  | send id | finish id => exact henq id _
  | reset id code => exact .same (h1.trans (OffTurn.sends.ensureSend _ id))
  | stopSending id code =>
    have h2 := h1.trans (.emit _ (.streamShutdown id .read code) trivial)
    exact .ends id ((Sheds.of h2).trans ((Sheds.ends id).markRecvDone _))
      (.inr (.inl ((markRecvDone_recorded _ id).before h2.grows.suffix)))
  | connectionDropped => exact .same (h1.trans (OffTurn.clean_frame.cleanUndeliveredPeerStreams _))
  | _ => exact .same h1

theorem resetEntry_queueStep (w : World σ) (id code : Nat) :
    QueueStep w (w.resetEntry id code) := by
  unfold resetEntry
  split
  · exact .same (.refl w)
  · rename_i s hs
    split
    · exact .same (.refl w)
    · have h1 := (OffTurn.sends.setSendCell w s.status (.reset code)).trans
        (OffTurn.sends.putSend _ id { s with
        pendingReset := some code, terminal := some (.reset code), sendOps := [], held := none })
      have h2 := h1.trans (OffTurn.sends.completeOps _ s.sendOps (.error (.reset code)))
      exact .push id (by rw [← h2.queue]; rfl) h2.grows

/-- A direction marked done after a piece that does not concern the queue. -/
theorem QueueStep.recvDone (h : OffTurn w w') (id : Nat) : QueueStep w (w'.markRecvDone id) :=
  .ends id ((Sheds.of h).trans ((Sheds.ends id).markRecvDone w'))
    (.inr (.inl ((markRecvDone_recorded w' id).before h.grows.suffix)))

theorem QueueStep.finished (h : OffTurn w w') (id : Nat) :
    QueueStep w (w'.completeFinishOp id) := by
  have hdone (v : World σ) (hv : OffTurn w v) :
      QueueStep w ((v.markSendDone id).reclaimFinishedSend id) := by
    have hr := (Sheds.ends id).reclaimFinishedSend (v.markSendDone id)
    refine .ends id (((Sheds.of hv).trans ((Sheds.ends id).markSendDone v)).trans hr) (.inl ?_)
    exact ((markSendDone_recorded v id).before hv.grows.suffix).after hr.grows.suffix
  unfold completeFinishOp
  dsimp only
  split
  · split
    · exact hdone _ (h.trans (.trans (OffTurn.sends.putSend _ id _)
        (OffTurn.sends.completeOp _ _ _)))
    · exact hdone _ h
  · exact hdone _ h

/-- **What a step does to the queue**, whatever the step. -/
theorem queueStep (hs : Step T w w') : QueueStep w w' := by
  cases hs with
  | front a => exact .same (.front w a)
  | ctl | requeue | skipResume | skipReadable | setBlocked | forgetRecv | toInbox =>
    exact .same (.still rfl rfl)
  | probe e he => exact .same (.emit w e (offTurn_of_isProbe e he))
  | readable id =>
    have h1 := OffTurn.emit w (.readableNext id (w.reg.readTracked id)) trivial
    exact .same (h1.trans (.intakeOne _ id))
  | drain | capacity | sendErr => exact .same (.emit w _ trivial)
  | park id h acts hr hl v hv hf =>
    subst hv
    have h1 : OffTurn w (w.modRecv h fun r => { r with blocked := true }) := .still rfl rfl
    exact .same ((h1.trans (.fronts _ acts)).trans (.emit _ _ trivial))
  | readErr id h err hr hp =>
    exact .same ⟨rfl, .cons trivial (.one trivial)⟩
  | readOk id h chunk fin hr hp =>
    have h1 := OffTurn.emit w (.streamRecv id (.ok (chunk, fin))) trivial
    unfold placeChunk
    split
    · exact .same (h1.trans ⟨rfl, .one trivial⟩)
    · exact .same (h1.trans ⟨rfl, .one trivial⟩)
  | recvEnd id h e hr hf => exact .recvDone (OffTurn.recvs.setRecvCell w h e) id
  | abandon id h hr hg =>
    exact .recvDone (.emit w (.streamShutdown id .read h3NoError) trivial) id
  | stalePending bidi | lostPending bidi | skipParked bidi | acceptFlag bidi =>
    cases bidi <;> exact .same (.still rfl rfl)
  | admitBidi bidi id peer r acts ht hb =>
    have h1 := (OffTurn.take ht).trans (.trans (.buildPeerBidi _ peer) (.fronts _ acts))
    exact .same (h1.trans ⟨rfl, .one trivial⟩)
  | admitUni bidi id peer r acts ht hb =>
    have h1 := (OffTurn.take ht).trans (.trans (.buildPeerUni _ peer) (.fronts _ acts))
    exact .same (h1.trans ⟨rfl, .one trivial⟩)
  | repark bidi front id peer r ht =>
    refine .same ((OffTurn.take ht).trans ?_)
    cases bidi <;> exact .still rfl rfl
  | tear bidi id peer r ht => exact .same ((OffTurn.take ht).trans (.noteShutdown _ _ _))
  | settle id =>
    -- the removal of a stream all of whose directions are terminal
    by_cases ht : w.reg.allTerminal id = true
    · exact .ends id ((Sheds.ends id).terminalTransition w) (.inr (.inr ht))
    · rw [terminalTransition, if_neg ht]
      exact .same (.refl w)
  | skipOpen bidi r rest hq hw => exact .same (.setOpenOf w bidi rest)
  | failOpen bidi r rest t hq hw =>
    exact .same ((OffTurn.setOpenOf w bidi rest).trans ⟨rfl, .one trivial⟩)
  | openDeliver bidi r rest acts hq v hv hw =>
    subst hv
    have h1 := (OffTurn.opened w bidi rest).trans (.fronts _ acts)
    exact .same (h1.trans ⟨rfl, .one trivial⟩)
  | openUndeliver bidi r rest acts c hq v hv hw =>
    subst hv
    have h1 := (OffTurn.opened w bidi rest).trans (.fronts _ acts)
    have h2 : OffTurn w { (w.opened bidi rest).2.fronts acts with ctl := c } :=
      h1.trans (.still rfl rfl)
    exact .same (h2.trans (.undeliver _ bidi _ _))
  | discover id ans hu =>
    have h1 := (OffTurn.emit w (.writableNext id false) trivial).trans
      (.emit _ (.streamCapacity id ans) trivial)
    exact .same (h1.trans (.pushPendingAdmit _ id _))
  | markRunnable id hs => exact .push id rfl (.refl _ _)
  | popRunnable id rest hp hn => exact .turn id hp (.refl _ _)
  | flushFin id s buf n t ops c hl hh hr ho hn hm =>
    have h1 := OffTurn.emit w (.streamSend id buf.offered (buf.offerFin true) (.ok n)) trivial
    exact .finished (h1.trans (OffTurn.sends.putSend _ id { s with held := none })) id
  | emptyHeld id s buf hl hh hr => exact .same (OffTurn.sends.putSend w id _)
  | emptyFin id s buf t ops hl hh hr ho => exact .finished (OffTurn.sends.putSend w id _) id
  | loneFin id s n t ops c hl hh ho hn =>
    exact .finished (.emit w (.streamSend id [] true (.ok n)) trivial) id
  | hold id s buf t permit ops hl hh ho hr =>
    exact .same (.trans (OffTurn.sends.completeOp w _ _) (OffTurn.sends.putSend _ id _))
  | accept id s buf t permit ops n c hl hh ho hr hn hm =>
    have h1 := (OffTurn.emit w (.streamSend id buf.offered false (.ok n)) trivial).trans
      (OffTurn.sends.putSend _ id { s with sendOps := ops })
    exact .same (h1.trans (OffTurn.sends.completeOp _ _ _))
  | skipWrite id s buf t permit ops hl hh ho hr =>
    exact .same (.trans (OffTurn.sends.putSend w id _) (OffTurn.sends.completeOp _ _ _))
  | sendEnd id s e hl =>
    refine .ends id (.sendTerminalTransition w id e) (.inl ?_)
    unfold sendTerminalTransition
    rw [hl.entry]
    refine (markSendDone_recorded _ id).before ?_
    exact (OffTurn.trans (OffTurn.sends.setSendCell w _ e)
      (.trans (OffTurn.sends.putSend _ id _) (OffTurn.sends.completeOps _ _ _))).grows.suffix
  | resetTurn id code s rest hq hs hp =>
    -- the stream has left the queue with the pop, so marking it done removes nothing
    have h1 := (Sheds.of (.trans (OffTurn.sends.putSend
      ({ w with reg.runnableSend := rest }.emit (.turn id)) id
      { s with pendingReset := none }) (.emit _ (.streamShutdown id .write code) trivial))).trans
      ((Sheds.ends id).markSendDone _)
    refine .turn id ?_ h1.grows
    rw [hq]
    rcases h1.queue with h | h
    · exact congrArg (fun q => some (id, q)) h.symm
    · have hnone : rest.drop id = rest := OnceQueue.drop_of_not_mem (OnceQueue.not_mem_of_pop hq)
      exact congrArg (fun q => some (id, q)) (h.trans hnone).symm
  | apply v cmd hp =>
    have h0 : OffTurn w v := by
      cases hp <;> exact .still rfl rfl
    exact applyNow_queueStep h0 cmd
  | resetEntry id code ha => exact resetEntry_queueStep w id code
  | _ => exact .same ⟨rfl, .one trivial⟩

/-! ## 5. Waiting along a run -/

/-- `id` is in `runnable_send`. -/
def Runnable (w : World σ) (id : Nat) : Prop := id ∈ w.reg.runnableSend.queue

/-- The step is a service turn of `id`. -/
def Serves (T : QuicConn σ) (id : Nat) (w w' : World σ) : Prop :=
  Step T w w' ∧ Recorded w w' (.turn id)

/-- The step removes `id` from the queue by the stream's own terminal or end. -/
structure Ends (id : Nat) (w w' : World σ) : Prop where
  queued : w.Runnable id
  gone : ¬ w'.Runnable id
  own : OwnEnd id w w'

/-- A sequence of steps none of which removes `id` by its own end. -/
abbrev SparingSteps (T : QuicConn σ) (id : Nat) : World σ → World σ → Prop :=
  Relation.ReflTransGen fun w w' => Step T w w' ∧ ¬ Ends id w w'

/-- A stream leaves the queue for its turn, or by its own end. -/
theorem removed_by (hs : Step T w w') (hq : w.Runnable id) (hg : ¬ w'.Runnable id) :
    Serves T id w w' ∨ Ends id w w' := by
  cases queueStep hs with
  | same h =>
    rw [Runnable, h.queue] at hg
    exact absurd hq hg
  | push x hx _ =>
    rw [Runnable, hx] at hg
    exact absurd (OnceQueue.mem_push_of_mem hq x) hg
  | ends x h ho =>
    by_cases hx : x = id
    · subst hx
      exact .inr ⟨hq, hg, ho⟩
    · rw [Runnable] at hg
      rcases h.queue with h | h <;> rw [h] at hg
      · exact absurd hq hg
      · exact absurd (OnceQueue.mem_drop_of_ne hq (Ne.symm hx)) hg
  | turn x hp hgr =>
    rw [Runnable, OnceQueue.queue_of_pop hp, List.mem_cons] at hq
    rcases hq with rfl | hq
    · exact .inl ⟨hs, (Recorded.emit w (.turn id)).after hgr.suffix⟩
    · exact absurd hq hg

/-- A turn is a turn of the head of the queue. -/
theorem Serves.pop (h : Serves T id w w') :
    w.reg.runnableSend.pop = some (id, w'.reg.runnableSend) := by
  obtain ⟨hs, hr⟩ := h
  have hoff (hg : Grows Event.offTurn w.trace w'.trace) : False := by
    obtain ⟨evs, htr, hev⟩ := hg
    exact hev _ (hr.mem htr)
  cases queueStep hs with
  | same h | ends _ h => exact (hoff h.grows).elim
  | push x _ hg => exact (hoff hg).elim
  | turn x hp hg =>
    obtain ⟨evs, htr, hev⟩ := hg
    have hm : Event.turn id ∈ evs ++ [.turn x] :=
      hr.mem (by rw [htr, List.append_assoc, List.singleton_append])
    rcases List.mem_append.mp hm with hm | hm
    · exact (hev _ hm).elim
    · cases List.mem_singleton.mp hm
      exact hp

/-- A stream that enters the queue enters it at the tail. -/
theorem enters_at_tail (hs : Step T w w') (hq : ¬ w.Runnable id) (hn : w'.Runnable id) :
    w'.reg.runnableSend.queue = w.reg.runnableSend.queue ++ [id] := by
  rw [Runnable] at hn
  cases queueStep hs with
  | same h =>
    rw [h.queue] at hn
    exact absurd hn hq
  | push x hx _ =>
    rw [hx] at hn ⊢
    unfold OnceQueue.push at hn ⊢
    split at hn
    · exact absurd hn hq
    · rename_i hm
      rw [if_neg hm]
      rcases List.mem_append.mp hn with hn | hn
      · exact absurd hn hq
      · rw [List.mem_singleton.mp hn]
  | ends x h _ =>
    rcases h.queue with h | h <;> rw [h] at hn
    · exact absurd hn hq
    · exact absurd (OnceQueue.mem_of_mem_drop hn) hq
  | turn x hp _ =>
    refine absurd ?_ hq
    rw [Runnable, OnceQueue.queue_of_pop hp]
    exact List.mem_cons_of_mem _ hn

/-- One step of a wait: the stream is served, or waits on behind the same streams. -/
theorem waits_step {ahead served : List Nat} (hs : Step T w w') (hsp : ¬ Ends id w w')
    (h : w.reg.runnableSend.Waits id ahead served) :
    ∃ evs, w'.trace = evs ++ w.trace ∧
      (.turn id ∈ evs ∨ w'.reg.runnableSend.Waits id ahead (served ++ turnsOf evs)) := by
  have hquiet (hg : Grows Event.offTurn w.trace w'.trace)
      (hw : w'.reg.runnableSend.Waits id ahead served) : ∃ evs, w'.trace = evs ++ w.trace ∧
      (.turn id ∈ evs ∨ w'.reg.runnableSend.Waits id ahead (served ++ turnsOf evs)) := by
    obtain ⟨evs, htr, hev⟩ := hg
    refine ⟨evs, htr, .inr ?_⟩
    rwa [turnsOf_offTurn hev, List.append_nil]
  cases queueStep hs with
  | same hq => exact hquiet hq.grows (hq.queue ▸ h)
  | push x hq hg => exact hquiet hg (hq ▸ h.push x)
  | ends x hq ho =>
    refine hquiet hq.grows ?_
    by_cases hx : id = x
    · subst hx
      -- its own end is excluded, so it is still there
      have hin : w'.Runnable id := by
        by_contra hg
        exact hsp ⟨h.mem, hg, ho⟩
      rcases hq.queue with hq | hq
      · exact hq ▸ h
      · rw [Runnable, hq] at hin
        rw [hq, OnceQueue.drop_of_not_mem (OnceQueue.not_mem_of_mem_drop hin)]
        exact h
    · rcases hq.queue with hq | hq
      · exact hq ▸ h
      · exact hq ▸ h.drop hx
  | turn x hp hg =>
    obtain ⟨evs, htr, hev⟩ := hg
    refine ⟨evs ++ [.turn x], by rw [htr, List.append_assoc, List.singleton_append], ?_⟩
    by_cases hx : x = id
    · exact .inl (List.mem_append_right _ (hx ▸ List.mem_singleton_self _))
    · refine .inr ?_
      rw [turnsOf_append, turnsOf_offTurn hev, List.append_nil]
      exact h.pop hp hx

/-- The wait along a sequence of steps. -/
theorem waits_steps {ahead : List Nat} (hs : SparingSteps T id w w')
    (h : w.reg.runnableSend.Waits id ahead []) :
    ∃ evs, w'.trace = evs ++ w.trace ∧
      (.turn id ∈ evs ∨ w'.reg.runnableSend.Waits id ahead (turnsOf evs)) := by
  induction hs with
  | refl => exact ⟨[], rfl, .inr h⟩
  | tail _ hstep ih =>
    obtain ⟨evs, htr, hturn | hw⟩ := ih
    · obtain ⟨new, hnew⟩ := (queueStep hstep.1).suffix
      exact ⟨new ++ evs, by rw [← hnew, htr, List.append_assoc],
        .inl (List.mem_append_right _ hturn)⟩
    · obtain ⟨new, hnew, hd⟩ := waits_step hstep.1 hstep.2 hw
      refine ⟨new ++ evs, by rw [hnew, htr, List.append_assoc], ?_⟩
      rcases hd with hd | hd
      · exact .inl (List.mem_append_left _ hd)
      · rw [turnsOf_append]
        exact .inr hd

/-! ## 6. Round robin -/

/-- Round-robin service, from the state `w` on. -/
structure RoundRobin (T : QuicConn σ) (w : World σ) : Prop where
  /-- A stream leaves the queue for its turn or by its own terminal or end, and for nothing
  else. -/
  removed : ∀ {id : Nat} {w' : World σ}, Step T w w' → w.Runnable id → ¬ w'.Runnable id →
    Serves T id w w' ∨ Ends id w w'
  /-- `a` takes a turn in `w` while `b` is queued: by the next turn of `a`, `b` has had one. -/
  yields : ∀ {a b : Nat} {w₁ w₂ w₃ : World σ}, Serves T a w w₁ → w.Runnable b → b ≠ a →
    SparingSteps T b w₁ w₂ → Serves T a w₂ w₃ → Recorded w₁ w₂ (.turn b)
  /-- `b` becomes runnable in `w`: until its turn the streams served, and then those in front of
  it, are streams queued in `w`, each once and in that order. -/
  behind : ∀ {b : Nat} {w₁ w₂ : World σ}, Step T w w₁ → ¬ w.Runnable b → w₁.Runnable b →
    SparingSteps T b w₁ w₂ → Recorded w₁ w₂ (.turn b) ∨
      ∃ evs front post, w₂.trace = evs ++ w₁.trace ∧
        w₂.reg.runnableSend.queue = front ++ b :: post ∧
        (turnsOf evs ++ front).Sublist w.reg.runnableSend.queue

/-- **Round robin.**  In every state of every run of the driver (`run_steps`: a run of ticks is a
sequence of steps), between two turns of a stream every other stream queued at the first has its
turn, unless it is removed by its own end; and a stream that becomes runnable waits for those then
queued only.  The steps cross the end of a stage, so the budget of a stage changes nothing. -/
theorem round_robin (T : QuicConn σ) (isServer : Bool) (bidiCap uniCap depth : Nat)
    (cap : Option Nat) (c : σ) (script : List (List FrontAct)) (w : World σ)
    (hw : Steps T (withBuffers isServer bidiCap uniCap depth cap c script) w) :
    RoundRobin T w where
  removed := removed_by
  yields := by
    intro a b w₁ w₂ w₃ h₁ hb hne hs h₃
    have hpop := OnceQueue.queue_of_pop h₁.pop
    have hnd : w.reg.runnableSend.queue.Nodup := (synced_steps hw
      ⟨OnceQueue.synced_empty, OnceQueue.synced_empty, OnceQueue.synced_empty⟩).runnable.nodup
    have hb₁ : b ∈ w₁.reg.runnableSend.queue := by
      rw [Runnable, hpop, List.mem_cons] at hb
      exact hb.resolve_left hne
    obtain ⟨front, post, hq⟩ := List.append_of_mem hb₁
    obtain ⟨evs, htr, hturn | hwait⟩ := waits_steps hs (.start hq)
    · exact ⟨evs, htr, hturn⟩
    · -- `a` would stand in front of `b`, where it was not after its first turn
      have hfront := hwait.head_mem (OnceQueue.queue_of_pop h₃.pop) (Ne.symm hne)
      rw [hpop, List.nodup_cons, hq] at hnd
      exact absurd (List.mem_append_left _ hfront) hnd.1
  behind := by
    intro b w₁ w₂ h₁ hq hq₁ hs
    have hwait : w₁.reg.runnableSend.Waits b w.reg.runnableSend.queue [] :=
      .start (enters_at_tail h₁ hq hq₁)
    obtain ⟨evs, htr, hturn | ⟨front, post, hf, hsub⟩⟩ := waits_steps hs hwait
    · exact .inl ⟨evs, htr, hturn⟩
    · exact .inr ⟨evs, front, post, htr, hf, hsub⟩

/-! ## 7. Stages and runs -/

/-- Somewhere on the way from `w` to `w'` the stream leaves the queue by its own end. -/
def EndsAmid (T : QuicConn σ) (id : Nat) (w w' : World σ) : Prop :=
  ∃ u u', Steps T w u ∧ Step T u u' ∧ Ends id u u' ∧ Steps T u' w'

theorem sparing_or_ends (hs : Steps T w w') : SparingSteps T id w w' ∨ EndsAmid T id w w' := by
  induction hs with
  | refl => exact .inl .refl
  | @tail u v hu hstep ih =>
    rcases ih with ih | ⟨x, y, hx, hxy, he, hy⟩
    · by_cases he : Ends id u v
      · exact .inr ⟨u, v, hu, hstep, he, .refl⟩
      · exact .inl (ih.tail ⟨hstep, he⟩)
    · exact .inr ⟨x, y, hx, hxy, he, hy.tail hstep⟩

/-- **A queued stream along a run.**  Whatever the callbacks and the other tasks are, it has had
its turn, or has left by its own end, or waits on: those served meanwhile, and those still in
front of it, stood in front of it at the start, each once and in that order. -/
theorem run_waits {ahead post : List Nat} (hq : w.reg.runnableSend.queue = ahead ++ id :: post)
    (ticks : List (Tick σ)) :
    Recorded w (w.run T ticks) (.turn id) ∨ EndsAmid T id w (w.run T ticks) ∨
      ∃ evs, (w.run T ticks).trace = evs ++ w.trace ∧
        (w.run T ticks).reg.runnableSend.Waits id ahead (turnsOf evs) := by
  have hd : SparingSteps T id w _ ∨ EndsAmid T id w _ := sparing_or_ends (run_steps ticks w)
  rcases hd with hs | he
  · obtain ⟨evs, htr, ht | hw⟩ := waits_steps hs (.start hq)
    · exact .inl ⟨evs, htr, ht⟩
    · exact .inr (.inr ⟨evs, htr, hw⟩)
  · exact .inr (.inl he)

/-- The loop of `stage_send` gives `n` turns, or leaves the queue empty. -/
theorem sendLoop_turns : ∀ (n : Nat) (w : World σ), ∃ evs, (sendLoop T n w).trace = evs ++ w.trace ∧
    ((sendLoop T n w).reg.runnableSend.queue = [] ∨ n ≤ (turnsOf evs).length)
  | 0, w => by
    unfold sendLoop
    split <;> exact ⟨[], rfl, .inr (Nat.zero_le _)⟩
  | n + 1, w => by
    unfold sendLoop
    split
    · rename_i hp
      exact ⟨[], rfl, .inl (OnceQueue.pop_eq_none.mp hp)⟩
    · rename_i x rest hp
      -- one turn is recorded before the stream is served
      have hturn := suffix_frame.serviceSendTurn (T := T)
        ({ w with reg.runnableSend := rest }.emit (.turn x)) x
      have hrest (v : World σ) (hv : .turn x :: w.trace <:+ v.trace) :
          ∃ evs, (sendLoop T n v).trace = evs ++ w.trace ∧
            ((sendLoop T n v).reg.runnableSend.queue = [] ∨ n + 1 ≤ (turnsOf evs).length) := by
        obtain ⟨evs, htr, hd⟩ := sendLoop_turns n v
        obtain ⟨mid, hmid⟩ := hv
        refine ⟨evs ++ (mid ++ [.turn x]), by rw [htr, ← hmid]; simp, hd.imp_right fun hn => ?_⟩
        have hone : turnsOf [Event.turn x] = [x] := rfl
        rw [turnsOf_append, turnsOf_append, hone]
        simp only [List.length_append, List.length_singleton]
        omega
      dsimp only
      split
      · rename_i v he
        rw [he] at hturn
        exact hrest _ hturn
      · rename_i v _ he
        rw [he] at hturn
        exact hrest _ hturn

/-- **A stage reaches `WRITE_BUDGET` streams.**  A stream with fewer than that in front of it gets
its turn in the very next `stage_send`, unless it leaves the queue by its own end. -/
theorem stageSend_serves {ahead post : List Nat}
    (hq : w.reg.runnableSend.queue = ahead ++ id :: post) (hlen : ahead.length < writeBudget) :
    Recorded w (w.stageSend T) (.turn id) ∨ EndsAmid T id w (w.stageSend T) := by
  have hd : SparingSteps T id w _ ∨ EndsAmid T id w _ :=
    sparing_or_ends (sendLoop_steps writeBudget w)
  rcases hd with hs | he
  · obtain ⟨evs, htr, ht | hw⟩ := waits_steps hs (.start hq)
    · exact .inl ⟨evs, htr, ht⟩
    · -- it would still be queued after a full budget of turns of streams in front of it
      obtain ⟨evs', htr', hempty | hfull⟩ := sendLoop_turns (T := T) writeBudget w
      · have hmem := hw.mem
        rw [hempty] at hmem
        cases hmem
      · have hle := hw.served_sublist.length_le
        rw [List.append_cancel_right (htr'.symm.trans htr)] at hfull
        omega
  · exact .inr he

/-! ## 8. Two streams -/

/-- The writable scan finds a registered stream. -/
def marked (w : World σ) (id : Nat) : World σ := { w with reg := w.reg.markSendRunnable id }

theorem marked_step (hs : (w.reg.send.lookup id).isSome = true) : Step T w (w.marked id) :=
  .markRunnable w id hs

/-- A client has opened two streams, 0 and 4. -/
def twoOpen : World MockConn :=
  (withBuffers false 4 4 8 none { streamsLeftBidi := 2 } []).run mockConn
    [.front .openBidi, .front .openBidi, .processWrites]

/-- The head of the queue is popped for its turn. -/
def popped (w : World σ) : World σ :=
  match w.reg.runnableSend.pop with
  | none => w
  | some (id, rest) => { w with reg.runnableSend := rest }.emit (.turn id)

theorem serves_popped (id : Nat) (hq : w.reg.runnableSend.queue.head? = some id)
    (hn : (w.reg.send.lookup id).bind (·.pendingReset) = none) : Serves T id w w.popped := by
  obtain ⟨rest, hp⟩ : ∃ rest, w.reg.runnableSend.pop = some (id, rest) := by
    unfold OnceQueue.pop
    split
    · rename_i h
      simp [h] at hq
    · rename_i h
      simp only [h, List.head?_cons, Option.some.injEq] at hq
      exact ⟨_, by rw [hq]⟩
  have hpop : w.popped = { w with reg.runnableSend := rest }.emit (.turn id) := by
    unfold popped
    rw [hp]
  rw [hpop]
  refine ⟨.popRunnable w id rest hp fun s hs => ?_, .emit _ _⟩
  rwa [hs] at hn

theorem not_ends_of_queued (h : w'.Runnable id) : ¬ Ends id w w' := fun he => he.gone h

/-- A turn is no end. -/
theorem not_ends_popped (hr : w.reg.allTerminal id = false) : ¬ Ends id w w.popped := by
  have htr : ∃ evs, w.popped.trace = evs ++ w.trace ∧ ∀ e ∈ evs, ¬ e.offTurn := by
    unfold popped
    split
    · exact ⟨[], rfl, by simp⟩
    · exact ⟨[.turn _], rfl, by simp [Event.offTurn]⟩
  obtain ⟨evs, htr, hev⟩ := htr
  intro he
  rcases he.own with h | h | h
  · exact hev _ (h.mem htr) trivial
  · exact hev _ (h.mem htr) trivial
  · simp [hr] at h

/-- Both streams are runnable: stream 0 takes a turn and is requeued, and stream 4 has had its
turn when stream 0 takes the next. -/
theorem twoOpen_round_robin :
    ((twoOpen.marked 0).marked 4).Runnable 4 ∧
      Recorded ((twoOpen.marked 0).marked 4).popped
        (((twoOpen.marked 0).marked 4).popped.marked 0).popped (.turn 4) := by
  have hreach : Steps mockConn (withBuffers false 4 4 8 none { streamsLeftBidi := 2 } [])
      ((twoOpen.marked 0).marked 4) :=
    ((run_steps _ _).tail (marked_step (by decide +kernel))).tail (marked_step (by decide +kernel))
  have hq : ((twoOpen.marked 0).marked 4).Runnable 4 := by
    unfold Runnable
    decide +kernel
  have hq' : (((twoOpen.marked 0).marked 4).popped.marked 0).Runnable 4 := by
    unfold Runnable
    decide +kernel
  have hsparing : SparingSteps mockConn 4 ((twoOpen.marked 0).marked 4).popped
      (((twoOpen.marked 0).marked 4).popped.marked 0).popped :=
    .tail (.single ⟨marked_step (by decide +kernel), not_ends_of_queued hq'⟩)
      ⟨(serves_popped 4 (by decide +kernel) (by decide +kernel)).1,
        not_ends_popped (by decide +kernel)⟩
  exact ⟨hq, (round_robin mockConn false 4 4 8 none { streamsLeftBidi := 2 } [] _ hreach).yields
    (serves_popped 0 (by decide +kernel) (by decide +kernel)) hq (by decide) hsparing
    (serves_popped 0 (by decide +kernel) (by decide +kernel))⟩

end World

end QuicheH3
