/-
# No lost accept resume

A peer stream that finds the accept queue of its class full is parked, and the worker looks at
the class again only when the accepting task has made room: the task dequeues, sets the resume
bit, and sends a command if the bit was not set.  The worker clears the bit BEFORE it retries,
and goes to sleep if no bit is set.  `Watched` is what makes this safe: while something is
parked, the queue is not empty, or the task has dequeued and not yet set the bit, or the bit is
set.

Promotion breaks it for a moment: the bit is cleared, and the queue may be empty.  It is whole
again as soon as one stream is promoted, or none is left.  But `promote_parked` spends its
budget of 32 on every id it takes out of the queue, also on one that is parked no longer
(`reclaim_finished_send` drops the admission state of a stream and leaves its id in the queue).
With 32 such ids in front, promotion ends before it reaches a stream that waits, with the bit
cleared and the accept queue empty: `stranded` is a run.  `Reaches` excludes just that.
-/
import QuicheH3.Accept.Hall
import QuicheH3.Mock

namespace QuicheH3

open Lib

/-! ## 1. Something that will bring the worker back -/

/-- The accepting task will find something, or is about to set the bit, or has set it. -/
def Door.Armed (d : Door) : Prop := 0 < d.waiting ∨ d.pc = .dequeued ∨ d.resume = true

namespace Face

variable {f f' : Face} {b : Bool}

theorem FrontDoor.notAlive (hd : FrontDoor f f') (h : f.sh.connStage ≠ .alive) :
    f'.sh.connStage ≠ .alive := by
  have key (g : Face) : g.sh.connStage = g.hall.2.1 := rfl
  cases hd with
  | outside ho => rwa [key, ho.hall, ← key]
  | dequeue c n hs => exact absurd hs h
  | swap _ _ hh | signal _ _ hh => rwa [key, hh, ← key]
  | leave hs => exact absurd hs h
  | shut c st hs hst hd hu hh => rwa [key, hh]

/-- The steps of the accepting task hand the watch on, from the queue to the poll, and from the
poll to the bit. -/
theorem FrontDoor.armed (hd : FrontDoor f f')
    (h : f.sh.connStage = .alive → (f.sh.door b).Armed) (ha : f'.sh.connStage = .alive) :
    (f'.sh.door b).Armed := by
  have h : (f.sh.door b).Armed := h (by
    by_contra hn
    exact hd.notAlive hn ha)
  cases hd with
  | outside ho =>
    have hdoor : f'.sh.door = f.sh.door := congrArg Prod.fst ho.hall
    rwa [hdoor]
  | dequeue c n hs hp hw hh hc =>
    rw [door_updated hh]
    split
    · exact .inr (.inl rfl)
    · exact h
  | swap c hp hh hc =>
    rw [door_updated hh]
    split
    · exact .inr (.inr rfl)
    · exact h
  | signal c hp hh hc =>
    rw [door_updated hh]
    split
    · rename_i hbc
      subst hbc
      rcases h with h | h | h
      · exact .inl h
      · rw [hp] at h
        cases h
      · exact .inr (.inr h)
    · exact h
  | leave hs hh hc =>
    have hst : f'.sh.connStage = .dropping := congrArg (fun x => x.2.1) hh
    rw [hst] at ha
    cases ha
  | shut c st hs hst hd hu hh hc =>
    have hstage : f'.sh.connStage = st := congrArg (fun x => x.2.1) hh
    exact absurd (hstage.symm.trans ha) hst

theorem FrontDoors.notAlive (hd : FrontDoors f f') (h : f.sh.connStage ≠ .alive) :
    f'.sh.connStage ≠ .alive := by
  induction hd with
  | refl => exact h
  | tail _ hd ih => exact hd.notAlive ih

theorem FrontDoors.armed (hd : FrontDoors f f')
    (h : f.sh.connStage = .alive → (f.sh.door b).Armed) :
    f'.sh.connStage = .alive → (f'.sh.door b).Armed := by
  induction hd with
  | refl => exact h
  | tail _ hd ih => exact hd.armed ih

end Face

namespace World

variable {σ : Type} {T : QuicConn σ} {w w' w'' : World σ} {b : Bool}

/-- While a live connection has something parked, something will bring the worker back. -/
def Watched (b : Bool) (w : World σ) : Prop :=
  w.sh.connStage = .alive → parkedOf w.reg b ≠ [] → (w.sh.door b).Armed

theorem Watched.calm (hc : Calm w w') (h : Watched b w) : Watched b w' := by
  intro ha hp
  have hp0 : parkedOf w.reg b ≠ [] := by rwa [hc.parked b] at hp
  exact hc.doors.armed (fun h0 => h h0 hp0) ha

theorem watched_inv (b : Bool) : HallInv fun w : World σ => Lobby w.sh ∧ Watched b w where
  calm hc h := ⟨h.1.calm hc, h.2.calm hc⟩
  unpark w c q hq h := by
    refine ⟨h.1, fun ha hp => h.2 ha fun h0 => ?_⟩
    rw [parkedOf_setParkedOf] at hp
    split at hp
    · rename_i hbc
      rw [← hbc, h0] at hq
      exact hp (List.suffix_nil.mp hq)
    · exact hp h0
  push := by
    intro w w' c hp h
    refine ⟨lobby_inv.push hp h.1, fun ha hq => ?_⟩
    have hst : w'.sh.connStage = w.sh.connStage := congrArg (fun x => x.2.1) hp.hall
    rw [hst] at ha
    rw [hp.parked b] at hq
    rw [Face.door_updated hp.hall]
    split
    · exact .inl (Nat.succ_pos _)
    · exact h.2 ha hq
  park w c front id peer ho hc h := by
    refine ⟨h.1, fun ha hp => ?_⟩
    by_cases hbc : b = c
    · subst hbc
      exact .inl (Nat.lt_of_lt_of_le (h.1.room b) hc)
    · refine h.2 ha ?_
      change parkedOf (setParkedOf _ c _) b ≠ [] at hp
      rw [parkedOf_setParkedOf, if_neg hbc] at hp
      cases b <;> exact hp
  arm w c h := by
    refine ⟨lobby_inv.arm w c h.1, fun ha hp => ?_⟩
    have hh := setAcceptResume_hall w c true
    have hst : (w.setAcceptResume c true).sh.connStage = w.sh.connStage :=
      congrArg (fun x => x.2.1) hh
    rw [hst] at ha
    rw [Face.door_updated hh]
    split
    · exact .inr (.inr rfl)
    · exact h.2 ha (by cases c <;> exact hp)

/-! ## 2. Promotion -/

/-- Promotion with budget `n` empties the parked queue of the class, or comes to a stream that
is still parked. -/
def Reaches (n : Nat) (r : Registry) (b : Bool) : Prop :=
  (parkedOf r b).length ≤ n ∨
    ∃ id ∈ (parkedOf r b).take n, isParked (r.admission.lookup id) = true

instance (n : Nat) (r : Registry) (b : Bool) : Decidable (Reaches n r b) :=
  inferInstanceAs (Decidable (_ ∨ _))

/-- A stream taken out of its queue and not refused leaves its class watched: it was pushed into
the accept queue, or else the connection is gone. -/
theorem Admission.watched {x : AdmitResult × World σ} (ha : Admission w b x)
    (hb : w.interleave.interleave.sh.Backed 0) (hl : Lobby w.sh) (hx : ∀ p, x.1 ≠ .full p) :
    Watched b x.2 := by
  cases ha with
  | registered h1 h2 h3 =>
    refine Watched.calm h3 fun _ _ => .inl ?_
    rw [Face.door_updated h2.hall, if_pos rfl]
    exact Nat.succ_pos _
  | full h1 ho hc => exact absurd rfl (hx _)
  | shut ho h1 =>
    intro ha
    have h0 : w.interleave.sh.connStage ≠ .alive := fun hn => by
      rw [(hl.calm (calm_interleave w)).alive hn b] at ho
      cases ho
    exact absurd ha (h1.doors.notAlive h0)
  | orphan hs h1 =>
    intro ha
    have h0 : w.interleave.interleave.sh.connStage ≠ .alive := fun hn => by
      have := hb.senders_pos (by rw [hn]; simp)
      omega
    exact absurd ha (h1.doors.notAlive h0)

/-- **Promotion that reaches a parked stream restores the watch it gave up.** -/
theorem promoteLoop_watched (b : Bool) : ∀ (n : Nat) (w : World σ), Reached T w → Lobby w.sh →
    Reaches n w.reg b → Watched b (promoteLoop T b n w)
  | 0, w => by
    intro _ _ hr _ hp
    rcases hr with hr | ⟨id, hid, -⟩
    · exact absurd (List.eq_nil_of_length_eq_zero (Nat.le_zero.mp hr)) hp
    · simp at hid
  | n + 1, w => by
    intro hw hl hr
    unfold promoteLoop
    split
    · rename_i hq
      exact fun _ hp => absurd hq hp
    · rename_i id rest hq
      dsimp only
      split
      · -- a stream that is still parked: from here on the class is watched
        rename_i peer ha
        rw [setParkedOf_admission] at ha
        have ht : Take w.reg b id peer _ := .parked hq ha
        have hstep := admitOne_steps (T := T) ht
        have hdoor := admitOne_admission (T := T) ({ w with
          reg := { setParkedOf w.reg b rest with
            admission := (setParkedOf w.reg b rest).admission.erase id } }) peer
        rw [hw.takeClass ht] at hdoor
        have hback : w.interleave.interleave.sh.Backed 0 :=
          (hw.steps ((interleave_steps w).trans (interleave_steps _))).backed
        split
        · rename_i w1 he
          rw [he] at hdoor hstep
          have h1 : Lobby w1.sh ∧ Watched b w1 :=
            ⟨lobby_inv.admitted hdoor hl, hdoor.watched hback hl (by simp)⟩
          exact ((watched_inv b).promoteLoop b n w1 (hw.steps hstep) h1).2
        · rename_i peer1 w1 he
          rw [he] at hdoor
          cases hdoor with
          | full h1 ho hc =>
            exact fun _ _ => .inl (Nat.lt_of_lt_of_le ((Lobby.calm h1 hl).room b) hc)
        · rename_i w1 he
          rw [he] at hdoor
          exact hdoor.watched hback hl (by simp)
      · -- a stale id: it costs one unit of the budget
        rename_i hn
        rw [setParkedOf_admission] at hn
        refine promoteLoop_watched b n _ (hw.step (.skipParked w b id rest hq hn)) hl ?_
        have hrest : parkedOf (setParkedOf w.reg b rest) b = rest := by
          rw [parkedOf_setParkedOf, if_pos rfl]
        unfold Reaches at hr ⊢
        rw [hq] at hr
        rw [hrest, setParkedOf_admission]
        rcases hr with hr | ⟨i, hi, hp⟩
        · exact .inl (Nat.le_of_succ_le_succ hr)
        · rw [List.take_succ_cons] at hi
          rcases List.mem_cons.mp hi with rfl | hi
          · cases ha : w.reg.admission.lookup i with
            | none => simp [ha, isParked] at hp
            | some a =>
              cases a with
              | parked p => exact absurd ha (hn p)
              | registered sd rd => simp [ha, isParked] at hp
          · exact .inr ⟨i, hi, hp⟩

/-- The promotion of the class, if its bit is set, reaches a parked stream. -/
def Promotes (w : World σ) (b : Bool) : Prop :=
  acceptResumeOf w.interleave.sh b = true → Reaches promoteBudget w.reg b

instance (w : World σ) (b : Bool) : Decidable (Promotes w b) :=
  inferInstanceAs (Decidable (_ → _))

theorem promoteParked_watched (hw : Reached T w) (hl : Lobby w.sh) (h : ∀ c, Watched c w)
    (b : Bool) (hp : Promotes w b) :
    Lobby (w.promoteParked T b).sh ∧ ∀ c, Watched c (w.promoteParked T b) := by
  have h1 := calm_interleave w
  unfold promoteParked
  dsimp only
  split
  · rename_i hres
    have h2 := h1.trans (calm_interleave w.interleave)
    have hw2 : Reached T (w.interleave.interleave.setAcceptResume b false) :=
      (hw.steps ((interleave_steps w).trans (interleave_steps _))).step (.acceptFlag _ b false)
    have hhall := setAcceptResume_hall w.interleave.interleave b false
    have hl2 : Lobby (w.interleave.interleave.setAcceptResume b false).sh :=
      (hl.calm h2).of_hall hhall (update_same _ _ _ rfl) (update_same _ _ _ rfl)
    refine ⟨lobby_inv.promoteLoop b promoteBudget _ hw2 hl2, fun c => ?_⟩
    by_cases hcb : c = b
    · subst hcb
      refine promoteLoop_watched c promoteBudget _ hw2 hl2 ?_
      have hreg : (w.interleave.interleave.setAcceptResume c false).reg = w.reg := by
        cases c <;> rfl
      rw [hreg]
      exact hp hres
    · -- the bit of the other class is not touched
      refine ((watched_inv c).promoteLoop b promoteBudget _ hw2 ⟨hl2, fun ha hq => ?_⟩).2
      have hst : (w.interleave.interleave.setAcceptResume b false).sh.connStage =
        w.interleave.interleave.sh.connStage := congrArg (fun x => x.2.1) hhall
      rw [hst] at ha
      rw [Face.door_updated hhall, if_neg hcb]
      exact (h c).calm h2 ha (by cases b <;> exact hq)
  · exact ⟨hl.calm h1, fun c => (h c).calm h1⟩

/-! ## 3. Iterations -/

/-- The read pump up to the first promotion. -/
def beforePromotion (T : QuicConn σ) (w : World σ) : World σ :=
  (((w.intakeReadable T).drainResumed T).phase1RegisteredDrain T).phase2Admission T

/-- Both promotions of a pump reach a parked stream. -/
def PumpPromotes (T : QuicConn σ) (w : World σ) : Prop :=
  Promotes (w.beforePromotion T) true ∧ Promotes ((w.beforePromotion T).promoteParked T true) false

instance (w : World σ) : Decidable (PumpPromotes T w) := inferInstanceAs (Decidable (_ ∧ _))

/-- The promotions of a tick reach a parked stream. -/
def TickPromotes (T : QuicConn σ) (w : World σ) : Tick σ → Prop
  | .processReads => PumpPromotes T (w.beginIteration true)
  | .processWrites =>
    w.ctl.readsRanThisIter = false → PumpPromotes T (w.startIteration.applyInbox T)
  | _ => True

instance (w : World σ) : ∀ t, Decidable (TickPromotes T w t)
  | .processReads => inferInstanceAs (Decidable (PumpPromotes T _))
  | .processWrites => inferInstanceAs (Decidable (_ → _))
  | .waitForData => .isTrue trivial
  | .transport _ => .isTrue trivial
  | .front _ => .isTrue trivial

/-- Both classes are watched. -/
structure Watch (T : QuicConn σ) (w : World σ) : Prop where
  reached : Reached T w
  lobby : Lobby w.sh
  watched : ∀ b, Watched b w

namespace Watch

theorem calm (h : Watch T w) (hc : Calm w w') (hs : Steps T w w') : Watch T w' :=
  ⟨h.reached.steps hs, h.lobby.calm hc, fun b => (h.watched b).calm hc⟩

/-- What keeps the watch of each class keeps the watch. -/
theorem keep (h : Watch T w) (hs : Steps T w w')
    (hk : ∀ b, Lobby w.sh ∧ Watched b w → Lobby w'.sh ∧ Watched b w') : Watch T w' :=
  ⟨h.reached.steps hs, (hk true ⟨h.lobby, h.watched true⟩).1,
    fun b => (hk b ⟨h.lobby, h.watched b⟩).2⟩

theorem promoteParked (h : Watch T w) (b : Bool) (hp : Promotes w b) :
    Watch T (w.promoteParked T b) := by
  obtain ⟨h1, h2⟩ := promoteParked_watched h.reached h.lobby h.watched b hp
  exact ⟨h.reached.steps (promoteParked_steps b w), h1, h2⟩

theorem runReadPump (h : Watch T w) (hp : PumpPromotes T w) : Watch T (w.runReadPump T) := by
  have hc := ((calm_frame.intakeReadable (T := T) w).trans
    (calm_frame.drainResumed (T := T) _)).trans
    (calm_frame.phase1RegisteredDrain (T := T) _)
  have hs := ((intakeLoop_steps (T := T) discoveryBudget w).trans
    (drainResumedLoop_steps recvResumeBudget _)).trans (phase1Loop_steps readableBudget _)
  have h1 := h.calm hc hs
  have h2 : Watch T (w.beforePromotion T) := h1.keep (phase2Admission_steps _) fun b hb =>
    (watched_inv b).phase2Admission h1.reached hb
  exact (h2.promoteParked true hp.1).promoteParked false hp.2

/-- Taking a command changes nothing at the doors, and applying it keeps the watch. -/
theorem nextCommand (h : Watch T w) :
    Lobby w.nextCommand.2.sh ∧ ∀ b, Watched b w.nextCommand.2 := by
  have hl := h.lobby.calm (calm_interleave w)
  have hb (b : Bool) := (h.watched b).calm (calm_interleave w)
  unfold World.nextCommand
  split
  · exact ⟨h.lobby, h.watched⟩
  · dsimp only
    split
    · exact ⟨⟨hl.listening, hl.room, hl.alive, hl.dropped, hl.uni⟩, fun b ha hp => hb b ha hp⟩
    · exact ⟨hl, hb⟩

theorem applyLoop : ∀ (n : Nat) (w : World σ), Watch T w → Watch T (applyLoop T n w)
  | 0, w => by
    intro h
    refine h.calm ?_ (applyLoop_steps 0 w)
    unfold World.applyLoop
    split
    · exact calm_frame.iterate w
    · exact .refl w
  | n + 1, w => by
    intro h
    have hn := h.nextCommand
    unfold World.applyLoop
    rcases nextCommand_cases (T := T) w with ⟨w', he, hs⟩ | ⟨cmd, w1, w', he, hs, hp⟩
    · rw [he] at hn ⊢
      exact ⟨h.reached.steps hs, hn.1, hn.2⟩
    · rw [he] at hn ⊢
      refine applyLoop n _ ⟨h.reached.steps (hs.trans (applyCommand_steps hp)), ?_, fun b => ?_⟩
      · exact lobby_inv.applyCommand cmd hn.1
      · exact ((watched_inv b).applyCommand cmd ⟨hn.1, hn.2 b⟩).2

theorem tick (t : Tick σ) (ht : TickPromotes T w t) (h : Watch T w) : Watch T (w.tick T t) := by
  cases t with
  | processReads =>
    have h0 : Watch T (w.beginIteration true) :=
      h.calm (.aside (fun _ => rfl) rfl rfl rfl) (ctl_steps w _)
    exact h0.runReadPump ht
  | processWrites =>
    have hstart : Calm w w.startIteration := by
      unfold startIteration
      split
      · exact .refl w
      · exact .aside (fun _ => rfl) rfl rfl rfl
    have h1 := applyLoop cmdBudget _ (h.calm hstart (startIteration_steps w))
    have h2 : Watch T (if !w.ctl.readsRanThisIter then
        (w.startIteration.applyInbox T).runReadPump T else w.startIteration.applyInbox T) := by
      split
      · rename_i hn
        exact h1.runReadPump (ht (by simpa using hn))
      · exact h1
    have h3 := h2.calm (calm_frame.stageOpen (T := T) _)
      ((openLoop_steps true openBudget _).trans (openLoop_steps false openBudget _))
    have h4 := h3.calm (calm_frame.stageWritable (T := T) _) (writableLoop_steps writableBudget _)
    have h5 := h4.calm (calm_frame.stageSend (T := T) _) (sendLoop_steps writeBudget _)
    exact h5.calm (endIteration_calm _) (endIteration_steps _)
  | waitForData =>
    have hw := waitForData_waited w
    obtain ⟨f, hd, hh, -⟩ := hw.doors
    have hdoor : w.waitForData.sh.door = f.sh.door := congrArg Prod.fst hh
    have hst : w.waitForData.sh.connStage = f.sh.connStage := congrArg (fun x => x.2.1) hh
    refine ⟨h.reached.steps (waitForData_steps w), ?_, fun b ha hp => ?_⟩
    · exact (h.lobby.frontDoors hd).of_hall (f := f) (d := f.sh.door) hh (fun _ => rfl) fun _ => rfl
    · change (w.waitForData.sh.door b).Armed
      rw [hdoor]
      refine hd.armed (fun h0 => h.watched b h0 ?_) (hst.symm.trans ha)
      change parkedOf w.waitForData.reg b ≠ [] at hp
      rwa [hw.parked b] at hp
  | transport c => exact h.calm (calm_frame.qconn w c) (ctl_steps w _)
  | front a =>
    refine h.calm ⟨fun _ => rfl, .single (Face.front_door w.toFace a), rfl⟩ ?_
    exact .single (.front w a)

theorem init (isServer : Bool) (bidiCap uniCap depth : Nat) (cap : Option Nat) (c : σ)
    (script : List (List FrontAct)) :
    Watch T (withBuffers isServer bidiCap uniCap depth cap c script) where
  reached := ⟨isServer, bidiCap, uniCap, depth, cap, c, script, .refl⟩
  lobby := lobby_withBuffers ..
  watched b _ hp := by
    cases b <;> exact absurd rfl hp

end Watch

/-! ## 4. Between iterations -/

/-- The command that follows the bit is on its way. -/
def Due (b : Bool) (inbox : List DriverCommand) (f : Face) : Prop :=
  (f.sh.door b).pc = .swapped ∨ resumeCmd b ∈ f.sh.cmdRx ∨ resumeCmd b ∈ inbox

/-- A bit that is set is followed by its command. -/
def Prompt (b : Bool) (inbox : List DriverCommand) (f : Face) : Prop :=
  f.sh.connStage = .alive → (f.sh.door b).resume = true → Due b inbox f

theorem Due.mono {inbox : List DriverCommand} {f f' : Face} (h : Due b inbox f)
    (hd : f'.sh.door b = f.sh.door b) (hc : f.sh.cmdRx ⊆ f'.sh.cmdRx) : Due b inbox f' :=
  h.imp (fun h => by rwa [hd]) (Or.imp_left (hc ·))

/-- The poll that sets the bit is the one that sends the command. -/
theorem Prompt.frontDoor {inbox : List DriverCommand} {f f' : Face} (h : Prompt b inbox f)
    (hl : Lobby f.sh) (hd : Face.FrontDoor f f') : Prompt b inbox f' := by
  intro ha hr
  have h0 : f.sh.connStage = .alive := by
    by_contra hn
    exact hd.notAlive hn ha
  cases hd with
  | outside ho =>
    have hdoor : f'.sh.door b = f.sh.door b := congrFun (congrArg Prod.fst ho.hall) b
    rw [hdoor] at hr
    exact (h h0 hr).mono hdoor ho.appends.subset
  | dequeue c n hs hp hw hh hc =>
    have hcs : f.sh.cmdRx ⊆ f'.sh.cmdRx := hc ▸ List.Subset.refl _
    have hdoor := Face.door_updated hh b
    by_cases hbc : b = c
    · subst hbc
      rw [if_pos rfl] at hdoor
      rw [hdoor] at hr
      rcases h h0 hr with h | h | h
      · rw [hp] at h
        cases h
      · exact .inr (.inl (hcs h))
      · exact .inr (.inr h)
    · rw [if_neg hbc] at hdoor
      exact (h h0 (hdoor ▸ hr)).mono hdoor hcs
  | swap c hp hh hc =>
    have hcs : f.sh.cmdRx ⊆ f'.sh.cmdRx := hc ▸ List.Subset.refl _
    have hdoor := Face.door_updated hh b
    by_cases hbc : b = c
    · subst hbc
      rw [if_pos rfl] at hdoor
      cases hold : (f.sh.door b).resume with
      | false =>
        refine .inl ?_
        rw [hdoor, hold]
        rfl
      | true =>
        rcases h h0 hold with h | h | h
        · rw [hp] at h
          cases h
        · exact .inr (.inl (hcs h))
        · exact .inr (.inr h)
    · rw [if_neg hbc] at hdoor
      exact (h h0 (hdoor ▸ hr)).mono hdoor hcs
  | signal c hp hh hc =>
    rw [hl.listening] at hc
    have hcs : f.sh.cmdRx ⊆ f'.sh.cmdRx := hc ▸ List.subset_append_left _ _
    have hdoor := Face.door_updated hh b
    by_cases hbc : b = c
    · subst hbc
      refine .inr (.inl ?_)
      rw [hc]
      exact List.mem_append_right _ List.mem_cons_self
    · rw [if_neg hbc] at hdoor
      exact (h h0 (hdoor ▸ hr)).mono hdoor hcs
  | leave hs hh hc =>
    have hst : f'.sh.connStage = .dropping := congrArg (fun x => x.2.1) hh
    rw [hst] at ha
    cases ha
  | shut c st hs hst hd hu hh hc =>
    have hstage : f'.sh.connStage = st := congrArg (fun x => x.2.1) hh
    exact absurd (hstage.symm.trans ha) hst

theorem Prompt.frontDoors {inbox : List DriverCommand} {f f' : Face} (h : Prompt b inbox f)
    (hl : Lobby f.sh) (hd : Face.FrontDoors f f') : Prompt b inbox f' := by
  induction hd with
  | refl => exact h
  | tail hds hd ih => exact ih.frontDoor (hl.frontDoors hds) hd

/-- Between iterations, with something parked, every bit is followed by its command. -/
def Prompted (w : World σ) : Prop :=
  w.ctl.readsRanThisIter = false → w.ctl.needsIteration = false →
    ∀ b, parkedOf w.reg b ≠ [] → Prompt b w.inbox w.toFace

theorem prompted_tick (w : World σ) (t : Tick σ) (hl : Lobby w.sh) (h : Prompted w) :
    Prompted (w.tick T t) := by
  cases t with
  | processReads =>
    intro hr
    have := doProcessReads_reads (T := T) w
    exact absurd (this.symm.trans hr) (by simp)
  | processWrites =>
    -- the worker sleeps only if the bit is clear
    intro _ hn b hp _ hr
    have hclear := (hasRunnableRemainder_false (endIteration_needs _ hn) b).2 hp
    exact absurd (hclear.symm.trans hr) (by simp)
  | waitForData =>
    have hw := waitForData_waited w
    obtain ⟨f, hd, hh, hcmds⟩ := hw.doors
    intro hr hn b hp ha hres
    have hn0 : w.ctl.needsIteration = false := by
      by_contra hx
      have := hw.needs (by simpa using hx)
      exact absurd (this.symm.trans hn) (by simp)
    have hp0 : parkedOf w.reg b ≠ [] := by
      change parkedOf w.waitForData.reg b ≠ [] at hp
      rwa [hw.parked b] at hp
    have hf := (h (hw.reads.symm.trans hr) hn0 b hp0).frontDoors hl hd
    have hdoor : w.waitForData.sh.door b = f.sh.door b := congrFun (congrArg Prod.fst hh) b
    have hst : w.waitForData.sh.connStage = f.sh.connStage := congrArg (fun x => x.2.1) hh
    rcases hf (hst.symm.trans ha) (hdoor ▸ hres) with hx | hx | hx
    · exact .inl ((congrArg Door.pc hdoor).trans hx)
    · exact .inr (hcmds _ hx)
    · exact .inr (.inr (hw.inbox _ hx))
  | transport c => exact h
  | front a =>
    intro hr hn b hp
    exact (h hr hn b hp).frontDoor hl (Face.front_door w.toFace a)

/-! ## 5. The result -/

/-- **No lost accept resume.**  Take any transport, any interleaving of the worker's iterations
on both paths with the accept polls of a live connection, and let every promotion come to a
stream that is still parked, or to the end of its queue, within its budget.  Whenever the worker
has ended an iteration and is about to block on its command channel, and a peer stream waits for
admission or is parked, then the accept queue of its class is not empty, or the resume command
of the class is in the channel, or the accepting task is between its dequeue and its signal. -/
theorem accept_resume_not_lost (T : QuicConn σ) (isServer : Bool) (bidiCap uniCap depth : Nat)
    (cap : Option Nat) (c : σ) (script : List (List FrontAct)) (ticks : List (Tick σ))
    (hpromotes : Throughout T (TickPromotes T)
      (withBuffers isServer bidiCap uniCap depth cap c script) ticks)
    (w : World σ) (hw : w = (withBuffers isServer bidiCap uniCap depth cap c script).run T ticks)
    (hended : w.ctl.readsRanThisIter = false) (hblock : w.waitDecision = .recv)
    (halive : w.sh.connStage = .alive) (id : Nat)
    (hwaits : (w.reg.pendingAdmit.lookup id).isSome ∨
      isParked (w.reg.admission.lookup id) = true) :
    0 < (w.sh.door (isBidi id)).waiting ∨ resumeCmd (isBidi id) ∈ w.sh.cmdRx ∨
      (w.sh.door (isBidi id)).pc ≠ .idle := by
  have hinv : Watch T w ∧ Rested w ∧ Prompted w := by
    subst hw
    refine Throughout.keeps T (P := fun w => Watch T w ∧ Rested w ∧ Prompted w)
      (fun w t ht h => ?_) hpromotes
      ⟨.init .., rested_withBuffers isServer bidiCap uniCap depth cap c script, ?_⟩
    · exact ⟨h.1.tick t ht, rested_tick w t h.2.1, prompted_tick w t h.1.lobby h.2.2⟩
    · intro _ _ b hp
      cases b <;> exact absurd rfl hp
  obtain ⟨hwatch, hrest, hprompt⟩ := hinv
  obtain ⟨hinbox, hneeds⟩ := idle_of_recv hblock
  -- what waits is queued, and what is pending waits behind something parked
  have hparked : parkedOf w.reg (isBidi id) ≠ [] := by
    intro hempty
    have hq := hwatch.reached.queued id
    rcases hwaits with hx | hx
    · have h1 : 0 < (pendingOf w.reg (isBidi id)).count id := hq.pend hx
      rw [hrest hended hneeds _ hempty] at h1
      simp at h1
    · have h1 : 0 < (parkedOf w.reg (isBidi id)).count id := hq.parked hx
      rw [hempty] at h1
      simp at h1
  rcases hwatch.watched _ halive hparked with hx | hx | hx
  · exact .inl hx
  · exact .inr (.inr (by rw [hx]; simp))
  · rcases hprompt hended hneeds _ hparked halive hx with hx | hx | hx
    · exact .inr (.inr (by rw [hx]; simp))
    · exact .inr (.inl hx)
    · rw [hinbox] at hx
      cases hx

/-- A server with room for one stream in its accept queue meets two. -/
def fullQueue : List (Tick MockConn) :=
  [.transport { readableNext := [0, 4] }, .processReads, .processWrites]

/-- The second stream is parked, the worker blocks, and the first one waits to be accepted. -/
theorem fullQueue_watched :
    isParked (((withBuffers true 1 4 8 none {} []).run mockConn fullQueue).reg.admission.lookup 4) =
      true ∧
    (0 < (((withBuffers true 1 4 8 none {} []).run mockConn fullQueue).sh.door true).waiting ∨
      .acceptBidiResume ∈ ((withBuffers true 1 4 8 none {} []).run mockConn fullQueue).sh.cmdRx ∨
      (((withBuffers true 1 4 8 none {} []).run mockConn fullQueue).sh.door true).pc ≠ .idle) := by
  have hwaits : isParked
      (((withBuffers true 1 4 8 none {} []).run mockConn fullQueue).reg.admission.lookup 4) =
      true := by decide +kernel
  exact ⟨hwaits, accept_resume_not_lost mockConn true 1 4 8 none {} [] fullQueue (by decide +kernel)
    _ rfl (by decide +kernel) (by decide +kernel) (by decide +kernel) 4 (.inr hwaits)⟩

/-- The ids of the streams that will be stale. -/
def staleIds : List Nat := (List.range 32).map (· * 4)

/-- Each stream is registered and accepted, its receive direction ends with FIN, and its send
direction with STOP_SENDING. -/
def endAll : List (Tick MockConn) :=
  staleIds.flatMap (fun id =>
    [.transport { readableNext := [id], recvScript := fun _ => [.ok ([7], true)] }, .processReads,
      .processWrites, .front .acceptBidi, .front .acceptBidiSwap, .front .acceptBidiSignal]) ++
  [.transport { writableNext := staleIds, capacity := fun _ => .error (.streamStopped 5) },
    .processWrites]

/-- Stream 400 fills the accept queue; the ended streams are reported readable again and are
parked behind it, and stream 404 behind them. -/
def parkAll : List (Tick MockConn) :=
  [.transport { readableNext := [400] }, .processReads, .processWrites,
    .transport { readableNext := staleIds.take 31 }, .processReads, .processWrites,
    .transport { readableNext := staleIds.drop 31 ++ [404] }] ++
  (List.range 33).flatMap fun _ => [.processReads, .processWrites]

/-- The application stops the ended streams, which drops their admission states, and then
accepts stream 400. -/
def stopAndAccept : List (Tick MockConn) :=
  (List.range 32).map (fun h => .front (.recvStopSending h 0)) ++
  [.processWrites, .front .acceptBidi, .front .acceptBidiSwap, .front .acceptBidiSignal,
    .waitForData, .processWrites]

-- the kernel evaluates the whole run
set_option maxRecDepth 1000000 in
/-- **Stream 404 is stranded.**  The worker is about to block, the accept queue is empty, no
resume command is on its way and the accepting task waits. -/
theorem stranded :
    let w := (withBuffers true 1 4 8 none {} []).run mockConn (endAll ++ parkAll ++ stopAndAccept)
    w.ctl.readsRanThisIter = false ∧ w.waitDecision = .recv ∧ w.sh.connStage = .alive ∧
    isParked (w.reg.admission.lookup 404) = true ∧ w.sh.door true = ⟨0, 1, true, false, .idle⟩ ∧
    w.sh.cmdRx = [] := by
  decide +kernel

end World

end QuicheH3
