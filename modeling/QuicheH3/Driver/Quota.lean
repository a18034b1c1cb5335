/-
# Quotas never strand work

Every stage works within a budget, and what it leaves behind must bring the worker back.  The
promise is kept in two ways: a stage that stops at its budget sets `needs_iteration` itself, and
the end of the iteration looks at the queues once more (`has_runnable_remainder`).  Between the
two nothing lowers the flag, which is what `Quota` says of every stage, together with the count
that ties the chunks delivered to the read budget.

An acting iteration is `process_reads` followed by `process_writes`, or `process_writes` alone;
the first half leaves the mark `reads_ran_this_iter` by which the second knows that the pump has
run.
-/
import QuicheH3.Close.Teardown

namespace QuicheH3

open Lib

/-- The number of chunks placed in byte queues, over all streams. -/
def chunks : List Event → Nat
  | [] => 0
  | .place _ _ :: tr => chunks tr + 1
  | _ :: tr => chunks tr

theorem blind_chunks {C : Event → Prop} (hC : ∀ h chunk, ¬ C (.place h chunk)) :
    Blind C chunks := by
  intro e tr he
  cases e with
  | place h chunk => exact absurd he (hC h chunk)
  | _ => rfl

namespace World

variable {σ : Type} {T : QuicConn σ} {w w' w'' : World σ}

/-! ## 1. Budgets and the flag, stage by stage -/

/-- What a stage keeps of budget and flags. -/
structure Quota (w w' : World σ) : Prop where
  needs : w.ctl.needsIteration = true → w'.ctl.needsIteration = true
  reads : w'.ctl.readsRanThisIter = w.ctl.readsRanThisIter
  budget : w'.ctl.readBudget + chunks w'.trace = w.ctl.readBudget + chunks w.trace

theorem Quota.of_eq (hc : w'.ctl.needsIteration = w.ctl.needsIteration)
    (hr : w'.ctl.readsRanThisIter = w.ctl.readsRanThisIter)
    (hb : w'.ctl.readBudget = w.ctl.readBudget) (ht : chunks w'.trace = chunks w.trace) :
    Quota w w' := ⟨fun h => hc.trans h, hr, by rw [hb, ht]⟩

theorem Quota.trans (h : Quota w w') (h' : Quota w' w'') : Quota w w'' where
  needs hn := h'.needs (h.needs hn)
  reads := h'.reads.trans h.reads
  budget := h'.budget.trans h.budget

theorem chunks_front {tr tr' : List Event} (h : Grows Event.isFront tr tr') :
    chunks tr' = chunks tr :=
  (blind_chunks (C := Event.isFront) fun _ _ hp => hp).grows h

theorem quota_frame : AdmitFrame (Quota (σ := σ)) where
  refl _ := .of_eq rfl rfl rfl rfl
  trans := Quota.trans
  interleave w := .of_eq rfl rfl rfl
    (chunks_front (Face.fronts_rel (w.ctl.script.headD []) w.toFace).grows)
  qconn _ _ := .of_eq rfl rfl rfl rfl
  iterate _ := ⟨fun _ => rfl, rfl, rfl⟩
  emit w e he := .of_eq rfl rfl rfl (blind_chunks (C := Event.isStage) (fun _ _ hp => hp) e _ he)
  place w h chunk hb := ⟨id, rfl, by
    change w.ctl.readBudget - 1 + (chunks w.trace + 1) = w.ctl.readBudget + chunks w.trace
    omega⟩
  halves _ _ _ _ _ _ _ _ _ _ := .of_eq rfl rfl rfl rfl
  reply _ _ _ := .of_eq rfl rfl rfl rfl
  dropAnswer w ans := by
    have hc := dropAnswer_ctl w ans
    exact .of_eq (by rw [hc]) (by rw [hc]) (by rw [hc]) (chunks_front (dropAnswer_grows w ans))
  reg _ _ _ := .of_eq rfl rfl rfl rfl
  opens _ _ _ _ _ := .of_eq rfl rfl rfl rfl
  pending _ _ _ := .of_eq rfl rfl rfl rfl
  parked _ _ _ := .of_eq rfl rfl rfl rfl
  acceptFlag w bidi b := by cases bidi <;> exact .of_eq rfl rfl rfl rfl
  handBidi _ _ _ := .of_eq rfl rfl rfl rfl
  handUni _ _ _ := .of_eq rfl rfl rfl rfl

theorem nextCommand_quota (w : World σ) : Quota w w.nextCommand.2 := by
  unfold nextCommand
  split
  · exact .of_eq rfl rfl rfl rfl
  · dsimp only
    split
    · exact (quota_frame.interleave w).trans (.of_eq rfl rfl rfl rfl)
    · exact quota_frame.interleave w

theorem applyCommand_quota (w : World σ) (cmd : DriverCommand) :
    Quota w (w.applyCommand T cmd) := by
  cases cmd with
  | close code reason =>
    unfold applyCommand
    dsimp only
    split <;> exact .of_eq rfl rfl rfl rfl
  | _ =>
    exact quota_frame.applyCommand w _ (fun _ _ h => nomatch h) (.of_eq rfl rfl rfl rfl)

theorem applyInbox_quota (w : World σ) : Quota w (w.applyInbox T) :=
  quota_frame.applyLoop (fun w cmd _ => (nextCommand_quota w).trans (applyCommand_quota _ cmd))
    (fun w _ => nextCommand_quota w) cmdBudget w

/-! ## 2. The schedule of an acting iteration -/

/-- The stages of an acting iteration. -/
inductive Stage
  | commands
  | pump
  | opens
  | writable
  | sends
  deriving DecidableEq, Repr

def Stage.run (T : QuicConn σ) (w : World σ) : Stage → World σ
  | .commands => w.applyInbox T
  | .pump => w.runReadPump T
  | .opens => w.stageOpen T
  | .writable => w.stageWritable T
  | .sends => w.stageSend T

theorem Stage.quota (s : Stage) (w : World σ) : Quota w (Stage.run T w s) := by
  cases s with
  | commands => exact applyInbox_quota w
  | pump => exact quota_frame.runReadPump w
  | opens => exact quota_frame.stageOpen w
  | writable => exact quota_frame.stageWritable w
  | sends => exact quota_frame.stageSend w

/-- A sequence of stages. -/
def stages (T : QuicConn σ) (l : List Stage) (w : World σ) : World σ := l.foldl (Stage.run T) w

theorem stages_quota (l : List Stage) (w : World σ) : Quota w (stages T l w) := by
  induction l generalizing w with
  | nil => exact quota_frame.refl w
  | cons s l ih => exact (s.quota w).trans (ih _)

/-- One acting iteration: with a packet `process_reads` runs first. -/
def iteration (T : QuicConn σ) (packet : Bool) (w : World σ) : World σ :=
  if packet then (w.doProcessReads T).doProcessWrites T else w.doProcessWrites T

/-- The stages in the order they run. -/
def schedule (packet : Bool) : List Stage :=
  if packet then [.pump, .commands, .opens, .writable, .sends]
  else [.commands, .pump, .opens, .writable, .sends]

/-- The signals of the iteration before are cleared. -/
def beginIteration (packet : Bool) (w : World σ) : World σ :=
  { w with
    ctl.needsIteration := false
    ctl.readBudget := readBudgetMax
    ctl.readsRanThisIter := packet }

/-- An iteration is its schedule, in one piece. -/
theorem iteration_eq (packet : Bool) (w : World σ)
    (hw : packet = false → w.ctl.readsRanThisIter = false) :
    iteration T packet w =
      (stages T (schedule packet) (w.beginIteration packet)).endIteration T := by
  cases packet with
  | true =>
    have hr : (w.doProcessReads T).ctl.readsRanThisIter = true :=
      (Stage.quota (T := T) .pump (w.beginIteration true)).reads
    have h1 : (w.doProcessReads T).doProcessWrites T =
        ((((((w.doProcessReads T).applyInbox T).stageOpen T).stageWritable T).stageSend
          T)).endIteration T := by
      unfold doProcessWrites startIteration
      simp only [hr, Bool.not_true, Bool.false_eq_true, if_false, if_true]
    exact h1
  | false =>
    have hr := hw rfl
    have hb : w.startIteration = w.beginIteration false := by
      unfold startIteration beginIteration
      simp only [hr, Bool.false_eq_true, if_false]
    unfold iteration doProcessWrites
    simp only [hr, hb, Bool.false_eq_true, if_false, Bool.not_false, if_true]
    rfl

theorem schedule_pump (packet : Bool) : (schedule packet).count .pump = 1 := by
  cases packet <;> rfl

/-! ## 3. Stages that stop at their budget -/

/-- The readable scan took all ids its budget allows and left the cursor. -/
def intakeExhausted (T : QuicConn σ) : Nat → World σ → Bool
  | 0, _ => true
  | n + 1, w =>
    match T.streamReadableNext w.ctl.qconn with
    | (none, _) => false
    | (some id, c) =>
      intakeExhausted T n
        (({ w with ctl.qconn := c }.emit (.readableNext id (w.reg.readTracked id))).intakeOne id)

theorem intakeLoop_exhausted : ∀ (n : Nat) (w : World σ), intakeExhausted T n w = true →
    (intakeLoop T n w).ctl.needsIteration = true
  | 0, _, _ => rfl
  | n + 1, w, h => by
    unfold intakeExhausted at h
    unfold intakeLoop
    rcases hc : T.streamReadableNext w.ctl.qconn with ⟨_ | id, c⟩
    · simp [hc] at h
    · simp only [hc] at h ⊢
      exact intakeLoop_exhausted n _ h

/-- The writable scan took all ids its budget allows and left the cursor. -/
def writableExhausted (T : QuicConn σ) : Nat → World σ → Bool
  | 0, _ => true
  | n + 1, w =>
    match T.streamWritableNext w.ctl.qconn with
    | (none, _) => false
    | (some id, c) =>
      writableExhausted T n
        (({ w with ctl.qconn := c }.emit (.writableNext id (w.reg.writeTracked id))).writableOne T
          id)

theorem writableLoop_exhausted : ∀ (n : Nat) (w : World σ), writableExhausted T n w = true →
    (writableLoop T n w).ctl.needsIteration = true
  | 0, _, _ => rfl
  | n + 1, w, h => by
    unfold writableExhausted at h
    unfold writableLoop
    rcases hc : T.streamWritableNext w.ctl.qconn with ⟨_ | id, c⟩
    · simp [hc] at h
    · simp only [hc] at h ⊢
      exact writableLoop_exhausted n _ h

/-- The peer's credit for the class as the open stage read it last; `acc` is the reading before. -/
def lastCredit (T : QuicConn σ) (bidi : Bool) : Nat → Option Nat → World σ → Option Nat
  | 0, acc, _ => acc
  | n + 1, acc, w =>
    match w.openOf bidi with
    | [] => acc
    | r :: rest =>
      let w := (w.setOpenOf bidi rest).interleave
      if w.sh.replies r ≠ .waiting then lastCredit T bidi n acc w
      else if creditOf T w.ctl.qconn bidi = 0 then some 0
      else
        let credit := creditOf T w.ctl.qconn bidi
        let w := w.interleave
        if w.sh.senders = 0 then lastCredit T bidi n (some credit) (w.replyErr r w.openTerminal)
        else lastCredit T bidi n (some credit) (w.materialize T bidi r)

/-- A request is left waiting only with the flag set or without credit. -/
theorem openLoop_left (bidi : Bool) : ∀ (n : Nat) (acc : Option Nat) (w : World σ),
    (openLoop T bidi n w).openOf bidi ≠ [] →
    (openLoop T bidi n w).ctl.needsIteration = true ∨ lastCredit T bidi n acc w = some 0
  | 0, acc, w, h => by
    unfold openLoop at h ⊢
    split at h
    · rename_i hq
      rw [if_pos hq]
      exact .inl rfl
    · rename_i hq
      exact absurd h hq
  | n + 1, acc, w, h => by
    unfold openLoop at h ⊢
    unfold lastCredit
    cases hq : w.openOf bidi with
    | nil =>
      simp only [hq] at h
      exact absurd rfl h
    | cons r rest =>
      simp only [hq] at h ⊢
      split at h
      · rename_i hw
        rw [if_pos hw, if_pos hw]
        exact openLoop_left bidi n acc _ h
      · rename_i hw
        rw [if_neg hw, if_neg hw]
        split at h
        · rename_i hc
          rw [if_pos hc, if_pos hc]
          exact .inr rfl
        · rename_i hc
          rw [if_neg hc, if_neg hc]
          split at h
          · rename_i hs
            rw [if_pos hs, if_pos hs]
            exact openLoop_left bidi n _ _ h
          · rename_i hs
            rw [if_neg hs, if_neg hs]
            exact openLoop_left bidi n _ _ h

/-! ## 4. The end of an iteration -/

/-- The state in which a stage of the iteration starts. -/
def beforeStage (T : QuicConn σ) (packet : Bool) (s : Stage) (w : World σ) : World σ :=
  stages T ((schedule packet).takeWhile (· ≠ s)) (w.beginIteration packet)

/-- The credit of a class as the open stage of the iteration read it last. -/
def creditRead (T : QuicConn σ) (packet : Bool) (w : World σ) : Bool → Option Nat
  | true => lastCredit T true openBudget none (w.beforeStage T packet .opens)
  | false => lastCredit T false openBudget none ((w.beforeStage T packet .opens).stageOpenBidi T)

/-- What an iteration from `w` to `w'` has left to do. -/
inductive WorkLeft (T : QuicConn σ) (packet : Bool) (w w' : World σ) : Prop
  | inbox (h : w'.inbox ≠ [])
  | resume (h : w'.reg.pendingResume.queue ≠ [])
  | readable (h : w'.reg.pendingReadable.queue ≠ [])
  | runnable (h : w'.reg.runnableSend.queue ≠ [])
  | admission (bidi : Bool) (hq : pendingOf w'.reg bidi ≠ []) (hp : parkedOf w'.reg bidi = [])
  | opening (bidi : Bool) (hq : w'.openOf bidi ≠ []) (hc : creditRead T packet w bidi ≠ some 0)
  | readCursor (h : intakeExhausted T discoveryBudget (w.beforeStage T packet .pump) = true)
  | writeCursor (h : writableExhausted T writableBudget (w.beforeStage T packet .writable) = true)

/-- The worker's own queues are untouched. -/
structure Settled (w w' : World σ) : Prop where
  reg : w'.reg = w.reg
  inbox : w'.inbox = w.inbox
  opens : ∀ b, w'.openOf b = w.openOf b
  needs : w'.ctl.needsIteration = w.ctl.needsIteration
  quota : Quota w w'

theorem callClose_settled (w : World σ) (code : Nat) (reason : Bytes) (msg : String) :
    Settled w (w.callClose T code reason msg) := by
  have h : (w.callClose T code reason msg).reg = w.reg ∧
      (w.callClose T code reason msg).inbox = w.inbox ∧
      (w.callClose T code reason msg).openBidi = w.openBidi ∧
      (w.callClose T code reason msg).openUni = w.openUni ∧
      (w.callClose T code reason msg).ctl.needsIteration = w.ctl.needsIteration ∧
      Quota w (w.callClose T code reason msg) := by
    unfold callClose
    dsimp only
    split <;> exact ⟨rfl, rfl, rfl, rfl, rfl, .of_eq rfl rfl rfl rfl⟩
  obtain ⟨hr, hi, hb, hu, hn, hq⟩ := h
  refine ⟨hr, hi, fun b => ?_, hn, hq⟩
  cases b
  · exact hu
  · exact hb

theorem applyCloseBarrier_settled (w : World σ) : Settled w (w.applyCloseBarrier T) := by
  have hrefl : Settled w w := ⟨rfl, rfl, fun _ => rfl, rfl, quota_frame.refl w⟩
  unfold applyCloseBarrier
  split
  · exact hrefl
  · split
    · rename_i code reason hp
      have h := callClose_settled (T := T) { w with ctl.pendingClose := none } code reason
        "explicit qconn.close returned an unexpected error"
      exact ⟨h.reg, h.inbox, h.opens, h.needs, ⟨h.quota.needs, h.quota.reads, h.quota.budget⟩⟩
    · split
      · exact callClose_settled w _ _ _
      · exact hrefl

/-- The end of an iteration: the flag is what the stages left of it or what still stands in the
queues; everything else of the worker stays. -/
theorem endIteration_flag (w : World σ) :
    (w.endIteration T).reg = w.reg ∧ (w.endIteration T).inbox = w.inbox ∧
    (∀ b, (w.endIteration T).openOf b = w.openOf b) ∧
    (w.endIteration T).ctl.readBudget + chunks (w.endIteration T).trace =
      w.ctl.readBudget + chunks w.trace ∧
    ∃ sh, (w.endIteration T).ctl.needsIteration =
      (w.ctl.needsIteration || hasRunnableRemainder w.reg sh) := by
  have h := applyCloseBarrier_settled (T := T)
    { ({ w with ctl.readsRanThisIter := false } : World σ).interleave with
      ctl.needsIteration := w.ctl.needsIteration ||
        hasRunnableRemainder w.reg ({ w with ctl.readsRanThisIter := false } :
          World σ).interleave.sh }
  have hi := chunks_front
    (Face.fronts_rel (w.ctl.script.headD []) w.toFace).grows
  refine ⟨h.reg, h.inbox, h.opens, ?_, _, h.needs⟩
  refine h.quota.budget.trans ?_
  exact congrArg (w.ctl.readBudget + ·) hi

/-- What `has_runnable_remainder` sees whatever the resume bits are. -/
theorem hasRunnableRemainder_of (r : Registry) (sh : Shared)
    (h : r.pendingResume.queue ≠ [] ∨ r.pendingReadable.queue ≠ [] ∨ r.runnableSend.queue ≠ [] ∨
      ∃ bidi, pendingOf r bidi ≠ [] ∧ parkedOf r bidi = []) :
    hasRunnableRemainder r sh = true := by
  unfold hasRunnableRemainder
  rcases h with h | h | h | ⟨bidi, hq, hp⟩
  · simp [h]
  · simp [h]
  · simp [h]
  · cases bidi with
    | true =>
      have hq' : r.pendingAdmitBidi ≠ [] := hq
      have hp' : r.parkedBidi = [] := hp
      simp [hq', hp']
    | false =>
      have hq' : r.pendingAdmitUni ≠ [] := hq
      have hp' : r.parkedUni = [] := hp
      simp [hq', hp']

/-! ## 5. The stages after the open stage leave the requests alone -/

/-- The requests that wait to be opened are as before. -/
def SameOpens (w w' : World σ) : Prop := ∀ b, w'.openOf b = w.openOf b

theorem sameOpens_frame : Frame (SameOpens (σ := σ)) where
  refl _ _ := rfl
  trans h h' b := (h' b).trans (h b)
  interleave _ _ := rfl
  qconn _ _ _ := rfl
  iterate _ _ := rfl
  emit _ _ _ _ := rfl
  place _ _ _ _ _ := rfl
  halves _ _ _ _ _ _ _ _ _ _ _ := rfl
  reg _ _ _ _ := rfl

theorem replyErr_sameOpens (w : World σ) (r : Nat) (t : ConnTerminal) :
    SameOpens w (w.replyErr r t) := by
  unfold replyErr
  dsimp only
  split <;> exact fun _ => rfl

theorem materialize_sameOpens (w : World σ) (bidi : Bool) (r : Nat) :
    SameOpens w (w.materialize T bidi r) := by
  have F : Frame (SameOpens (σ := σ)) := sameOpens_frame
  have h1 : SameOpens w (w.streamPriority T (w.nextIdOf bidi) 127 true).2 := fun _ => rfl
  unfold materialize
  dsimp only
  rcases hw1 : w.streamPriority T (w.nextIdOf bidi) 127 true with ⟨ok, w1⟩
  rw [hw1] at h1
  cases ok with
  | false => exact F.trans h1 (replyErr_sameOpens w1 r _)
  | true =>
    have h2 : SameOpens w1 (w1.advanceNextId bidi) := by
      cases bidi <;> exact fun _ => rfl
    have h3 := F.trans h1 (F.trans h2 (F.buildOpen _ bidi (w.nextIdOf bidi)))
    refine F.trans h3 ?_
    unfold deliver
    dsimp only
    split
    · exact fun _ => rfl
    · refine F.trans ?_ (F.cleanupUndeliverableOpen _ _ bidi)
      intro b
      generalize ((w1.advanceNextId bidi).buildOpen bidi (w.nextIdOf bidi)).1 = ans
      cases ans <;> rfl

/-- Opening one class leaves the requests of the other alone. -/
theorem openLoop_other (bidi : Bool) : ∀ (n : Nat) (w : World σ),
    (openLoop T bidi n w).openOf (!bidi) = w.openOf (!bidi)
  | 0, w => by
    unfold openLoop
    split <;> rfl
  | n + 1, w => by
    have hset (v : World σ) (q : List Nat) : (v.setOpenOf bidi q).openOf (!bidi) =
      v.openOf (!bidi) := by
      cases bidi <;> rfl
    unfold openLoop
    split
    · rfl
    · rename_i r rest hq
      have h1 := hset w rest
      dsimp only
      split
      · exact (openLoop_other bidi n _).trans h1
      · split
        · exact (hset _ _).trans h1
        · split
          · exact (openLoop_other bidi n _).trans ((replyErr_sameOpens _ r _ _).trans h1)
          · exact (openLoop_other bidi n _).trans ((materialize_sameOpens _ bidi r _).trans h1)

/-! ## 6. Nothing is stranded -/

/-- The open stage leaves a request only with the flag set or without credit. -/
theorem stageOpen_left (bidi : Bool) (w : World σ)
    (h : (w.stageOpen T).openOf bidi ≠ []) : (w.stageOpen T).ctl.needsIteration = true ∨
      (match bidi with
        | true => lastCredit T true openBudget none w
        | false => lastCredit T false openBudget none (w.stageOpenBidi T)) = some 0 := by
  cases bidi with
  | true =>
    have hq : (w.stageOpenBidi T).openOf true ≠ [] := fun h0 =>
      h ((openLoop_other (T := T) false openBudget (w.stageOpenBidi T)).trans h0)
    refine (openLoop_left true openBudget none w hq).imp_left fun hn => ?_
    exact (quota_frame.openLoop (T := T) false openBudget (w.stageOpenBidi T)).needs hn
  | false => exact openLoop_left false openBudget none _ h

/-- The stages that follow `s`. -/
def afterStage (packet : Bool) (s : Stage) : List Stage :=
  ((schedule packet).dropWhile (· ≠ s)).tail

theorem schedule_split (packet : Bool) (s : Stage) :
    schedule packet = (schedule packet).takeWhile (· ≠ s) ++ s :: afterStage packet s := by
  cases packet <;> cases s <;> rfl

theorem stages_split (packet : Bool) (s : Stage) (w : World σ) :
    stages T (schedule packet) (w.beginIteration packet) =
      stages T (afterStage packet s) (Stage.run T (w.beforeStage T packet s) s) := by
  unfold beforeStage stages
  conv_lhs => rw [schedule_split packet s]
  rw [List.foldl_append, List.foldl_cons]

theorem afterStage_opens (packet : Bool) : afterStage packet .opens = [.writable, .sends] := by
  cases packet <;> rfl

/-- A flag set by a stage is there at the end. -/
theorem stages_needs (packet : Bool) (s : Stage) (w : World σ)
    (h : (Stage.run T (w.beforeStage T packet s) s).ctl.needsIteration = true) :
    (stages T (schedule packet) (w.beginIteration packet)).ctl.needsIteration = true := by
  rw [stages_split packet s]
  exact (stages_quota _ _).needs h

theorem runReadPump_exhausted (w : World σ) (h : intakeExhausted T discoveryBudget w = true) :
    (w.runReadPump T).ctl.needsIteration = true := by
  have F : AdmitFrame (Quota (σ := σ)) := quota_frame
  have h0 : (w.intakeReadable T).ctl.needsIteration = true := intakeLoop_exhausted _ w h
  have h1 := F.trans (F.drainResumed (T := T) (w.intakeReadable T))
    (F.phase1RegisteredDrain (T := T) _)
  have h2 := F.trans h1 (F.phase2Admission (T := T) _)
  exact (F.trans h2 (F.trans (F.promoteParked (T := T) _ true)
    (F.promoteParked (T := T) _ false))).needs h0

/-- A request left at the end was left by the open stage. -/
theorem stages_opens (packet : Bool) (w : World σ) (bidi : Bool)
    (hq : (stages T (schedule packet) (w.beginIteration packet)).openOf bidi ≠ [])
    (hc : creditRead T packet w bidi ≠ some 0) :
    (stages T (schedule packet) (w.beginIteration packet)).ctl.needsIteration = true := by
  have hs : SameOpens ((w.beforeStage T packet .opens).stageOpen T)
      (stages T (schedule packet) (w.beginIteration packet)) := by
    rw [stages_split packet .opens, afterStage_opens]
    exact sameOpens_frame.trans (sameOpens_frame.stageWritable (T := T) _)
      (sameOpens_frame.stageSend (T := T) _)
  refine stages_needs packet .opens w ?_
  refine (stageOpen_left bidi _ (hs bidi ▸ hq)).resolve_right fun h0 => hc ?_
  cases bidi <;> exact h0

/-- **Quotas never strand work.**  For every state between iterations, every transport and every
acting iteration: the stages run in the order of the schedule, with the read pump once among
them; the chunks delivered and the read budget that is left make up `READ_BUDGET`, so no
subtraction was cut off; and unless the close was issued, work left over forces another
iteration. -/
theorem quotas_never_strand (T : QuicConn σ) (packet : Bool) (w : World σ)
    (hw : packet = false → w.ctl.readsRanThisIter = false) :
    (iteration T packet w =
        (stages T (schedule packet) (w.beginIteration packet)).endIteration T ∧
      (schedule packet).count .pump = 1) ∧
    (iteration T packet w).ctl.readBudget + chunks (iteration T packet w).trace =
      readBudgetMax + chunks w.trace ∧
    ((iteration T packet w).ctl.gracefulCloseIssued = false →
      WorkLeft T packet w (iteration T packet w) →
      (iteration T packet w).waitDecision = .yield) := by
  have heq := iteration_eq (T := T) packet w hw
  have hopen := stages_opens (T := T) packet w
  have hpump (h : intakeExhausted T discoveryBudget (w.beforeStage T packet .pump) = true) :=
    stages_needs packet .pump w (runReadPump_exhausted _ h)
  have hwrite (h : writableExhausted T writableBudget (w.beforeStage T packet .writable) = true) :=
    stages_needs packet .writable w (writableLoop_exhausted _ _ h)
  have hq := stages_quota (T := T) (schedule packet) (w.beginIteration packet)
  refine ⟨⟨heq, schedule_pump packet⟩, ?_, fun hg hl => ?_⟩
  · rw [heq]
    exact (endIteration_flag _).2.2.2.1.trans hq.budget
  · rw [heq] at hg hl ⊢
    generalize stages T (schedule packet) (w.beginIteration packet) = v at hopen hpump hwrite hg hl
    obtain ⟨hr, hi, ho, -, sh, hn⟩ := endIteration_flag (T := T) v
    have hyield : (v.endIteration T).inbox ≠ [] ∨ (v.endIteration T).ctl.needsIteration = true := by
      -- what the queues still hold, and what a stage has flagged
      have hrem (h : hasRunnableRemainder v.reg sh = true) :
          (v.endIteration T).ctl.needsIteration = true := by rw [hn, h, Bool.or_true]
      have hflag (h : v.ctl.needsIteration = true) :
          (v.endIteration T).ctl.needsIteration = true := by rw [hn, h, Bool.true_or]
      cases hl with
      | inbox h => exact .inl h
      | resume h => exact .inr (hrem (hasRunnableRemainder_of _ sh (.inl (hr ▸ h))))
      | readable h => exact .inr (hrem (hasRunnableRemainder_of _ sh (.inr (.inl (hr ▸ h)))))
      | runnable h =>
        exact .inr (hrem (hasRunnableRemainder_of _ sh (.inr (.inr (.inl (hr ▸ h))))))
      | admission bidi hq hp =>
        exact .inr (hrem (hasRunnableRemainder_of _ sh
          (.inr (.inr (.inr ⟨bidi, hr ▸ hq, hr ▸ hp⟩)))))
      | opening bidi hq hc => exact .inr (hflag (hopen bidi (ho bidi ▸ hq) hc))
      | readCursor h => exact .inr (hflag (hpump h))
      | writeCursor h => exact .inr (hflag (hwrite h))
    unfold waitDecision
    rcases hyield with h | h <;> simp [hg, h]

/-- A server whose only stream has more chunks to read than one turn may take. -/
def longRead : World MockConn :=
  withBuffers true 4 4 32 none
    { readableNext := [0], recvScript := fun _ => List.replicate 20 (.ok ([7], false)) } []

theorem longRead_yields :
    chunks (iteration mockConn true longRead).trace = 16 ∧
    (iteration mockConn true longRead).reg.pendingReadable.queue = [0] ∧
    (iteration mockConn true longRead).waitDecision = .yield := by
  have hq : (iteration mockConn true longRead).reg.pendingReadable.queue = [0] := by
    decide +kernel
  have hg : (iteration mockConn true longRead).ctl.gracefulCloseIssued = false := by
    decide +kernel
  have h := quotas_never_strand mockConn true longRead (fun h => nomatch h)
  exact ⟨by decide +kernel, hq, h.2.2 hg (.readable (by rw [hq]; exact List.cons_ne_nil _ _))⟩

end World

end QuicheH3
