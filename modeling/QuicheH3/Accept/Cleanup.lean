/-
# What a dropped connection leaves behind

Dropping the connection handle sends `ConnectionDropped`, then closes the bidi receiver, then
the uni receiver: three steps of another task, with the worker free to run in between.  The
command makes the worker shut down every stream that is parked or pending.  A stream discovered
later finds a closed receiver and is shut down when admission comes to it.

A stream discovered IN BETWEEN, after the command was applied and before the receiver was
closed, can be parked once more: the queue is still open, and full.  Nobody will set the resume
bit any more, no second command comes, and the worker does not look at the class again.
`leftBehind` is a run.  The result holds of every run in which the worker takes the command up
with both receivers closed (`DropsClosed`).
-/
import QuicheH3.Accept.Hall
import QuicheH3.Mock

namespace QuicheH3

open Lib

/-! ## 1. The sweep that is owed -/

/-- `ConnectionDropped` is on its way to the worker. -/
def Owed (inbox : List DriverCommand) (f : Face) : Prop :=
  .connectionDropped ∈ inbox ∨ .connectionDropped ∈ f.sh.cmdRx

/-- A dropped connection is still owed its sweep, unless nothing is parked any more (`P`). -/
structure SweptFace (inbox : List DriverCommand) (P : Prop) (f : Face) : Prop where
  dropping : f.sh.connStage = .dropping → Owed inbox f
  dropped : f.sh.connStage = .dropped → Owed inbox f ∨ P

section Front

variable {inbox : List DriverCommand} {P : Prop} {f f' : Face}

theorem Owed.mono (h : Owed inbox f) (hc : f.sh.cmdRx ⊆ f'.sh.cmdRx) : Owed inbox f' :=
  h.imp_right (hc ·)

/-- The connection stays where it is in its drop, and no command is lost. -/
theorem SweptFace.same (h : SweptFace inbox P f) (hs : f'.sh.connStage = f.sh.connStage)
    (hc : f.sh.cmdRx ⊆ f'.sh.cmdRx) : SweptFace inbox P f' :=
  ⟨fun hx => (h.dropping (hs ▸ hx)).mono hc, fun hx => (h.dropped (hs ▸ hx)).imp_left (·.mono hc)⟩

theorem SweptFace.frontDoor (h : SweptFace inbox P f) (hl : World.Lobby f.sh)
    (hd : Face.FrontDoor f f') : SweptFace inbox P f' := by
  cases hd with
  | outside ho => exact h.same (congrArg (fun x => x.2.1) ho.hall) ho.appends.subset
  | dequeue _ _ _ _ _ hh hc | swap _ _ hh hc =>
    exact h.same (congrArg (fun x => x.2.1) hh) (hc ▸ List.Subset.refl _)
  | signal b hp hh hc =>
    rw [hl.listening] at hc
    exact h.same (congrArg (fun x => x.2.1) hh) (hc ▸ List.subset_append_left _ _)
  | leave hs hh hc =>
    -- the drop begins: the command is sent
    rw [hl.listening] at hc
    have howed : Owed inbox f' := .inr (by rw [hc]; exact List.mem_append_right _ List.mem_cons_self)
    exact ⟨fun _ => howed, fun _ => .inl howed⟩
  | shut b st hs hst hd hu hh hc =>
    have howed : Owed inbox f' := (h.dropping hs).mono hc.subset
    exact ⟨fun _ => howed, fun _ => .inl howed⟩

theorem SweptFace.frontDoors (h : SweptFace inbox P f) (hl : World.Lobby f.sh)
    (hd : Face.FrontDoors f f') : SweptFace inbox P f' := by
  induction hd with
  | refl => exact h
  | tail hds hd ih => exact ih.frontDoor (hl.frontDoors hds) hd

/-- A connection is dropped for good. -/
theorem Face.FrontDoor.stayDropped (hd : Face.FrontDoor f f') (h : f.sh.connStage = .dropped) :
    f'.sh.connStage = .dropped := by
  cases hd with
  | outside ho => exact (congrArg (fun x => x.2.1) ho.hall : f'.sh.connStage = _).trans h
  | dequeue _ _ _ _ _ hh | swap _ _ hh | signal _ _ hh =>
    exact (congrArg (fun x => x.2.1) hh : f'.sh.connStage = _).trans h
  | leave hs | shut _ _ hs =>
    rw [hs] at h
    cases h

end Front

namespace World

variable {σ : Type} {T : QuicConn σ} {w w' w'' : World σ} {b : Bool}

theorem Calm.stayDropped (hc : Calm w w') (h : w.sh.connStage = .dropped) :
    w'.sh.connStage = .dropped := by
  have hd := hc.doors
  generalize w.toFace = f at hd h
  generalize w'.toFace = f' at hd
  induction hd with
  | refl => exact h
  | tail _ hd ih => exact hd.stayDropped ih

def Swept (w : World σ) : Prop := SweptFace w.inbox (∀ b, parkedOf w.reg b = []) w.toFace

theorem Swept.of_eq (h : Swept w) (hi : w'.inbox = w.inbox)
    (hp : (∀ b, parkedOf w.reg b = []) → ∀ b, parkedOf w'.reg b = [])
    (hs : w'.sh.connStage = w.sh.connStage) (hc : w'.sh.cmdRx = w.sh.cmdRx) : Swept w' := by
  have h1 : SweptFace w.inbox (∀ b, parkedOf w.reg b = []) w'.toFace :=
    SweptFace.same h hs (hc ▸ List.Subset.refl _)
  unfold Swept
  rw [hi]
  exact ⟨h1.dropping, fun hx => (h1.dropped hx).imp_right hp⟩

/-- **Admission never parks a stream once the receivers are closed.** -/
theorem swept_inv : HallInv fun w : World σ => Lobby w.sh ∧ Swept w where
  calm := by
    intro w w' hc h
    refine ⟨h.1.calm hc, ?_⟩
    have h1 : SweptFace w.inbox (∀ b, parkedOf w.reg b = []) w'.toFace :=
      SweptFace.frontDoors h.2 h.1 hc.doors
    unfold Swept
    rw [hc.inbox]
    exact ⟨h1.dropping, fun hx => (h1.dropped hx).imp_right fun hp b => (hc.parked b).trans (hp b)⟩
  unpark w c q hq h := by
    refine ⟨h.1, h.2.of_eq rfl (fun hp b => ?_) rfl rfl⟩
    change parkedOf (setParkedOf w.reg c q) b = []
    rw [parkedOf_setParkedOf]
    split
    · rw [hp c] at hq
      exact List.suffix_nil.mp hq
    · exact hp b
  push hp h := ⟨lobby_inv.push hp h.1, h.2.of_eq hp.inbox (fun hq b => (hp.parked b).trans (hq b))
    (congrArg (fun x => x.2.1) hp.hall) hp.cmdRx⟩
  park w c front id peer ho hc h := by
    refine ⟨h.1, h.2.dropping, fun hx => ?_⟩
    -- the door is open, so the connection is not dropped
    rw [h.1.dropped hx c] at ho
    cases ho
  arm w c h := ⟨lobby_inv.arm w c h.1, h.2.of_eq (by cases c <;> rfl)
    (fun hq b => by cases c <;> exact hq b) (by cases c <;> rfl) (by cases c <;> rfl)⟩

/-! ## 2. Iterations -/

/-- Dropping the connection left nothing behind, in a state of a run. -/
structure Sweep (T : QuicConn σ) (w : World σ) : Prop where
  reached : Reached T w
  lobby : Lobby w.sh
  swept : Swept w

namespace Sweep

theorem keep (h : Sweep T w) (hs : Steps T w w')
    (hk : Lobby w.sh ∧ Swept w → Lobby w'.sh ∧ Swept w') : Sweep T w' :=
  ⟨h.reached.steps hs, (hk ⟨h.lobby, h.swept⟩).1, (hk ⟨h.lobby, h.swept⟩).2⟩

theorem calm (h : Sweep T w) (hc : Calm w w') (hs : Steps T w w') : Sweep T w' :=
  h.keep hs (swept_inv.calm hc)

/-- Clearing a resume bit is nothing to a sweep. -/
theorem promoteParked (h : Sweep T w) (b : Bool) : Sweep T (w.promoteParked T b) := by
  refine h.keep (promoteParked_steps b w) fun hk => ?_
  have h1 := calm_interleave w
  unfold World.promoteParked
  dsimp only
  split
  · have h2 := h1.trans (calm_interleave w.interleave)
    have hw2 : Reached T (w.interleave.interleave.setAcceptResume b false) :=
      (h.reached.steps ((interleave_steps w).trans (interleave_steps _))).step (.acceptFlag _ b false)
    obtain ⟨hl, hsw⟩ := swept_inv.calm h2 hk
    refine swept_inv.promoteLoop b promoteBudget _ hw2 ⟨?_, ?_⟩
    · exact hl.of_hall (setAcceptResume_hall _ b false) (update_same _ _ _ rfl)
        (update_same _ _ _ rfl)
    · exact hsw.of_eq (by cases b <;> rfl) (fun hq c => by cases b <;> exact hq c)
        (by cases b <;> rfl) (by cases b <;> rfl)
  · exact swept_inv.calm h1 hk

theorem runReadPump (h : Sweep T w) : Sweep T (w.runReadPump T) := by
  have hc := ((calm_frame.intakeReadable (T := T) w).trans (calm_frame.drainResumed (T := T) _)).trans
    (calm_frame.phase1RegisteredDrain (T := T) _)
  have hs := ((intakeLoop_steps (T := T) discoveryBudget w).trans
    (drainResumedLoop_steps recvResumeBudget _)).trans (phase1Loop_steps readableBudget _)
  have h1 := h.calm hc hs
  have h2 := h1.keep (phase2Admission_steps _) (swept_inv.phase2Admission h1.reached)
  exact (h2.promoteParked true).promoteParked false

end Sweep

/-- Stage (a) takes `ConnectionDropped` up only when both accept receivers are closed. -/
def DropsClosed (T : QuicConn σ) : Nat → World σ → Prop
  | 0, _ => True
  | n + 1, w =>
    match w.nextCommand with
    | (none, _) => True
    | (some cmd, w) =>
      (cmd = .connectionDropped → ∀ b, (w.sh.door b).isOpen = false) ∧
        DropsClosed T n (w.applyCommand T cmd)

instance DropsClosed.decidable : ∀ n (w : World σ), Decidable (DropsClosed T n w)
  | 0, _ => .isTrue trivial
  | n + 1, w => by
    unfold DropsClosed
    exact match w.nextCommand with
    | (none, _) => .isTrue trivial
    | (some cmd, w) => @instDecidableAnd _ _ _ (DropsClosed.decidable n (w.applyCommand T cmd))

/-- The command that is taken was the only one that is missing afterwards. -/
theorem nextCommand_owed {cmd : DriverCommand} (h : Lobby w.sh ∧ Swept w)
    (he : w.nextCommand = (some cmd, w')) (hc : cmd ≠ .connectionDropped) :
    Lobby w'.sh ∧ Swept w' := by
  have howed : ∀ {inbox inbox' : List DriverCommand} {f f' : Face}, Owed inbox f →
      (∀ c ∈ inbox ++ f.sh.cmdRx, c = cmd ∨ c ∈ inbox' ++ f'.sh.cmdRx) → Owed inbox' f' := by
    intro inbox inbox' f f' ho hsub
    rcases hsub _ (List.mem_append.mpr ho) with hx | hx
    · exact absurd hx.symm hc
    · exact List.mem_append.mp hx
  unfold nextCommand at he
  split at he
  · rename_i c rest hi
    cases he
    refine ⟨h.1, fun hx => howed (h.2.dropping hx) ?_, fun hx => (h.2.dropped hx).imp_left ?_⟩
    · simp [hi]
    · exact fun ho => howed ho (by simp [hi])
  · rename_i hi
    obtain ⟨hl, hs⟩ := swept_inv.calm (calm_interleave w) h
    dsimp only at he
    split at he
    · rename_i c rest hq
      cases he
      refine ⟨⟨hl.listening, hl.room, hl.alive, hl.dropped, hl.uni⟩,
        fun hx => howed (hs.dropping hx) ?_, fun hx => (hs.dropped hx).imp_left ?_⟩
      · simp [hq, or_left_comm]
      · exact fun ho => howed ho (by simp [hq, or_left_comm])
    · cases he

namespace Sweep

theorem applyLoop : ∀ (n : Nat) (w : World σ), DropsClosed T n w → Sweep T w →
    Sweep T (applyLoop T n w)
  | 0, w => by
    intro _ h
    refine h.calm ?_ (applyLoop_steps 0 w)
    unfold World.applyLoop
    split
    · exact calm_frame.iterate w
    · exact .refl w
  | n + 1, w => by
    intro hd h
    unfold DropsClosed at hd
    unfold World.applyLoop
    rcases nextCommand_cases (T := T) w with ⟨w', he, hs⟩ | ⟨cmd, w1, w', he, hs, hp⟩
    · rw [he]
      refine h.keep hs fun hk => ?_
      have hq : w' = w.interleave := by
        unfold nextCommand at he
        split at he
        · cases he
        · dsimp only at he
          split at he
          · cases he
          · cases he
            rfl
      rw [hq]
      exact swept_inv.calm (calm_interleave w) hk
    · rw [he] at hd ⊢
      refine applyLoop n _ hd.2 (h.keep (hs.trans (applyCommand_steps hp)) fun hk => ?_)
      by_cases hc : cmd = .connectionDropped
      · -- the sweep itself: nothing is parked afterwards, and nothing will be
        subst hc
        have hl : Lobby w'.sh := by
          have h0 := Lobby.calm (calm_interleave w) hk.1
          unfold nextCommand at he
          split at he
          · cases he
            exact hk.1
          · dsimp only at he
            split at he
            · cases he
              exact ⟨h0.listening, h0.room, h0.alive, h0.dropped, h0.uni⟩
            · cases he
        have hst : w'.sh.connStage = .dropped := hl.uni (hd.1 rfl false)
        refine ⟨lobby_inv.applyCommand _ hl, fun hx => ?_, fun _ => .inr fun b => ?_⟩
        · have hst' : (w'.applyCommand T .connectionDropped).sh.connStage = .dropped :=
            (cleaned_calm (T := T) (w'.emit (.applied .connectionDropped))).stayDropped hst
          rw [hst'] at hx
          cases hx
        · exact parkedOf_cleaned (T := T) (w'.emit (.applied .connectionDropped)) b
      · exact swept_inv.applyCommand cmd (nextCommand_owed hk he hc)

end Sweep

/-- The condition on a tick. -/
def TickDropsClosed (T : QuicConn σ) (w : World σ) : Tick σ → Prop
  | .processWrites => DropsClosed T cmdBudget w.startIteration
  | _ => True

instance (w : World σ) : ∀ t, Decidable (TickDropsClosed T w t)
  | .processWrites => inferInstanceAs (Decidable (DropsClosed T _ _))
  | .processReads => .isTrue trivial
  | .waitForData => .isTrue trivial
  | .transport _ => .isTrue trivial
  | .front _ => .isTrue trivial

theorem Sweep.tick (t : Tick σ) (ht : TickDropsClosed T w t) (h : Sweep T w) :
    Sweep T (w.tick T t) := by
  cases t with
  | processReads =>
    have h0 : Sweep T (w.beginIteration true) :=
      h.calm (.aside (fun _ => rfl) rfl rfl rfl) (ctl_steps w _)
    exact h0.runReadPump
  | processWrites =>
    have hstart : Calm w w.startIteration := by
      unfold startIteration
      split
      · exact .refl w
      · exact .aside (fun _ => rfl) rfl rfl rfl
    have h1 := Sweep.applyLoop cmdBudget _ ht (h.calm hstart (startIteration_steps w))
    have h2 : Sweep T (if !w.ctl.readsRanThisIter then
        (w.startIteration.applyInbox T).runReadPump T else w.startIteration.applyInbox T) := by
      split
      · exact h1.runReadPump
      · exact h1
    have h3 := h2.calm (calm_frame.stageOpen (T := T) _)
      ((openLoop_steps true openBudget _).trans (openLoop_steps false openBudget _))
    have h4 := h3.calm (calm_frame.stageWritable (T := T) _) (writableLoop_steps writableBudget _)
    have h5 := h4.calm (calm_frame.stageSend (T := T) _) (sendLoop_steps writeBudget _)
    exact h5.calm (endIteration_calm _) (endIteration_steps _)
  | waitForData =>
    have hw := waitForData_waited w
    obtain ⟨f, hd, hh, hcmds⟩ := hw.doors
    have hst : w.waitForData.sh.connStage = f.sh.connStage := congrArg (fun x => x.2.1) hh
    have hf := SweptFace.frontDoors h.swept h.lobby hd
    have howed : Owed w.inbox f → Owed w.waitForData.inbox w.waitForData.toFace := fun ho =>
      ho.elim (fun hx => .inl (hw.inbox _ hx)) fun hx => (hcmds _ hx).symm
    refine ⟨h.reached.steps (waitForData_steps w), ?_, ?_, ?_⟩
    · exact (h.lobby.frontDoors hd).of_hall (f := f) (d := f.sh.door) hh (fun _ => rfl) fun _ => rfl
    · exact fun hx => howed (hf.dropping (hst.symm.trans hx))
    · exact fun hx => (hf.dropped (hst.symm.trans hx)).imp howed
        fun hp b => (hw.parked b).trans (hp b)
  | transport c => exact h.calm (calm_frame.qconn w c) (ctl_steps w _)
  | front a =>
    refine h.calm ⟨fun _ => rfl, .single (Face.front_door w.toFace a), rfl⟩ ?_
    exact .single (.front w a)

/-! ## 3. The result -/

/-- **A dropped connection leaves no undelivered stream behind.**  Take any transport, any
interleaving of the drop with the worker's iterations and with newly discovered streams, and let
the worker take `ConnectionDropped` up when both accept receivers are closed.  Whenever the
receivers are closed, the channel is empty, and the worker has ended an iteration and is about
to block, no stream is pending or parked; and every peer stream that was discovered was handed
over or shut down in all its directions. -/
theorem nothing_left_behind (T : QuicConn σ) (isServer : Bool) (bidiCap uniCap depth : Nat)
    (cap : Option Nat) (c : σ) (script : List (List FrontAct)) (ticks : List (Tick σ))
    (hdrops : Throughout T (TickDropsClosed T)
      (withBuffers isServer bidiCap uniCap depth cap c script) ticks)
    (w : World σ) (hw : w = (withBuffers isServer bidiCap uniCap depth cap c script).run T ticks)
    (hended : w.ctl.readsRanThisIter = false) (hblock : w.waitDecision = .recv)
    (hclosed : ∀ b, (w.sh.door b).isOpen = false) (hempty : w.sh.cmdRx = []) :
    (∀ id, w.reg.pendingAdmit.lookup id = none ∧ isParked (w.reg.admission.lookup id) = false) ∧
    ∀ id, serverInitiated id ≠ isServer → Discovered id w.trace →
      .handOver id ∈ w.trace ∨ Shut id w.trace := by
  have hsrv : w.isServer = isServer := by
    subst hw
    exact isServer_steps (run_steps ticks _)
  have hinv : Sweep T w ∧ Rested w := by
    subst hw
    refine Throughout.keeps T (P := fun w => Sweep T w ∧ Rested w)
      (fun w t ht h => ⟨h.1.tick t ht, rested_tick w t h.2⟩) hdrops
      ⟨⟨⟨isServer, bidiCap, uniCap, depth, cap, c, script, .refl⟩, lobby_withBuffers .., ?_, ?_⟩,
        rested_withBuffers isServer bidiCap uniCap depth cap c script⟩
    · intro hx
      cases hx
    · intro hx
      cases hx
  obtain ⟨hsweep, hrest⟩ := hinv
  obtain ⟨hinbox, hneeds⟩ := idle_of_recv hblock
  have hparked : ∀ b, parkedOf w.reg b = [] := by
    rcases hsweep.swept.dropped (hsweep.lobby.uni (hclosed false)) with (hx | hx) | hx
    · rw [hinbox] at hx
      cases hx
    · rw [hempty] at hx
      cases hx
    · exact hx
  have hnone := hsweep.reached.nothingWaits hparked fun b => hrest hended hneeds b (hparked b)
  refine ⟨hnone, fun id hpeer hdisc => ?_⟩
  rcases (hsweep.reached.handed id).fate (hsrv ▸ hpeer) hdisc with hx | hx | hx | hx
  · have h1 : (w.reg.pendingAdmit.lookup id).isSome := hx
    rw [(hnone id).1] at h1
    cases h1
  · have h1 : isParked (w.reg.admission.lookup id) = true := hx
    rw [(hnone id).2] at h1
    cases h1
  · exact .inl hx
  · exact .inr hx

/-- A server whose accept queue holds one stream parks a second one; then the connection is
dropped at once, while an opener stays alive. -/
def droppedWhole : List (Tick MockConn) :=
  [.transport { readableNext := [0, 4] }, .processReads, .processWrites, .front .cloneOpener,
    .front .dropConnection, .front .closeAcceptBidi, .front .closeAcceptUni, .waitForData,
    .processWrites]

/-- The stream that was handed over is discarded by the application, the other shut down. -/
theorem droppedWhole_clean :
    Discovered 4 ((withBuffers true 1 4 8 none {} []).run mockConn droppedWhole).trace ∧
    (∀ id, ((withBuffers true 1 4 8 none {} []).run mockConn
        droppedWhole).reg.pendingAdmit.lookup id = none ∧
      isParked (((withBuffers true 1 4 8 none {} []).run mockConn
        droppedWhole).reg.admission.lookup id) = false) ∧
    ∀ id, serverInitiated id ≠ true →
      Discovered id ((withBuffers true 1 4 8 none {} []).run mockConn droppedWhole).trace →
      .handOver id ∈ ((withBuffers true 1 4 8 none {} []).run mockConn droppedWhole).trace ∨
        Shut id ((withBuffers true 1 4 8 none {} []).run mockConn droppedWhole).trace :=
  ⟨by decide +kernel, nothing_left_behind mockConn true 1 4 8 none {} [] droppedWhole
    (by decide +kernel) _ rfl (by decide +kernel) (by decide +kernel) (by decide +kernel)
    (by decide +kernel)⟩

/-- The worker applies the command before the receivers are closed, and stream 4 is discovered
in between. -/
def droppedInParts : List (Tick MockConn) :=
  [.transport { readableNext := [0] }, .processReads, .processWrites, .front .cloneOpener,
    .front .dropConnection, .waitForData, .processWrites,
    .transport { readableNext := [4] }, .processReads, .processWrites,
    .front .closeAcceptBidi, .front .closeAcceptUni, .waitForData, .processWrites]

/-- **Stream 4 is left behind.**  The receivers are closed, the channel is empty, the worker is
about to block, and the stream is parked: neither handed over nor shut down. -/
theorem leftBehind :
    let w := (withBuffers true 1 4 8 none {} []).run mockConn droppedInParts
    w.ctl.readsRanThisIter = false ∧ w.waitDecision = .recv ∧
    (∀ b, (w.sh.door b).isOpen = false) ∧ w.sh.cmdRx = [] ∧
    isParked (w.reg.admission.lookup 4) = true ∧ Discovered 4 w.trace ∧
    .handOver 4 ∉ w.trace ∧ .streamShutdown 4 .read h3NoError ∉ w.trace := by
  decide +kernel

end World

end QuicheH3
