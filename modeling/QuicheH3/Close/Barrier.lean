/-
# The close barrier

`qconn.close` is called in one place, the barrier at the end of an acting iteration.  A staged
`Close` command goes first; without one, the last handle being gone closes the connection with
`H3_NO_ERROR`, but only if the transport has no terminal of its own.  The flags of the barrier
are touched nowhere else: stage work leaves them alone (`KeepsClose`), and what is left is the
application of a `Close` command, the end of the command channel, and the call.

Two things follow for every run (`CloseInv`): the call is made at most once, and it carries the
first `Close` applied before it, or the synthetic frame if there was none.

Contents
  1  close in a history, 2 stage work
  3  the invariant, 4 acting iterations
  5  the barrier, case by case
  6  runs
-/
import QuicheH3.Accept.Doors
import QuicheH3.Driver.Frame

namespace QuicheH3

open Lib

/-! ## 1. Close in a history -/

/-- The close is called, or a `Close` command is applied. -/
def Event.isClosing : Event → Prop
  | .connClose _ _ _ | .applied (.close _ _) => True
  | _ => False

/-- The calls of `qconn.close`, newest first. -/
def closeCalls : List Event → List (Nat × Bytes × Except QuicheError Unit)
  | [] => []
  | .connClose code reason ans :: tr => (code, reason, ans) :: closeCalls tr
  | _ :: tr => closeCalls tr

/-- The first `Close` command applied. -/
def firstClose : List Event → Option (Nat × Bytes)
  | [] => none
  | .applied (.close code reason) :: tr => some ((firstClose tr).getD (code, reason))
  | _ :: tr => firstClose tr

theorem blind_closeCalls : Blind (fun e => ¬ e.isClosing) closeCalls := by
  intro e tr he
  cases e <;> first | rfl | exact (he trivial).elim

theorem blind_firstClose : Blind (fun e => ¬ e.isClosing) firstClose := by
  intro e tr he
  cases e with
  | applied cmd => cases cmd <;> first | rfl | exact (he trivial).elim
  | _ => rfl

theorem not_isClosing_of_isFront (e : Event) (h : e.isFront) : ¬ e.isClosing := by
  cases e <;> first | exact id | exact h.elim

theorem not_isClosing_of_isStage (e : Event) (h : e.isStage) : ¬ e.isClosing := by
  cases e <;> first | exact id | exact h.elim

/-- The close bookkeeping of the worker. -/
def Ctl.closing {σ : Type} (c : Ctl σ) :
    Bool × Bool × Option (Nat × Bytes) × Bool × Option (Nat × Bytes) × Option String :=
  (c.gracefulCloseIssued, c.lastHandleTeardown, c.pendingClose, c.explicitCloseAttempted,
    c.localClose, c.closeBug)

namespace World

variable {σ : Type} {T : QuicConn σ} {w w' w'' : World σ}

/-! ## 2. Stage work -/

/-- The close bookkeeping and the cells of the connection are as before. -/
structure KeepsClose (w w' : World σ) : Prop where
  closing : w'.ctl.closing = w.ctl.closing
  cells : w'.sh.cells = w.sh.cells
  grows : Grows (fun e => ¬ e.isClosing) w.trace w'.trace

theorem KeepsClose.same (hc : w'.ctl.closing = w.ctl.closing) (hs : w'.sh.cells = w.sh.cells)
    (ht : w'.trace = w.trace) : KeepsClose w w' := ⟨hc, hs, ht ▸ .refl _ _⟩

theorem KeepsClose.emit (w : World σ) (e : Event) (he : ¬ e.isClosing) :
    KeepsClose w (w.emit e) := ⟨rfl, rfl, .one he⟩

theorem interleave_keepsClose (w : World σ) : KeepsClose w w.interleave where
  closing := rfl
  cells := Face.fronts_cells _ w.toFace
  grows := (Face.fronts_rel (w.ctl.script.headD []) w.toFace).grows.mono not_isClosing_of_isFront

theorem dropAnswer_outside (w : World σ) (ans : Reply) :
    w.toFace.Outside (w.dropAnswer ans).toFace := by
  cases ans with
  | bidi h c => exact .dropBidiHandoff w.toFace (h, c)
  | uni c => exact .dropSendHandoff w.toFace c
  | _ => exact .refl _

theorem dropAnswer_ctl (w : World σ) (ans : Reply) : (w.dropAnswer ans).ctl = w.ctl := by
  cases ans <;> rfl

/-- **Stage work leaves the close bookkeeping alone.** -/
theorem keepsClose_frame : AdmitFrame (KeepsClose (σ := σ)) where
  refl _ := .same rfl rfl rfl
  trans h h' := ⟨h'.closing.trans h.closing, h'.cells.trans h.cells, h.grows.trans h'.grows⟩
  interleave := interleave_keepsClose
  qconn _ _ := .same rfl rfl rfl
  iterate _ := .same rfl rfl rfl
  emit w e he := .emit w e (not_isClosing_of_isStage e he)
  place _ _ _ _ := ⟨rfl, rfl, .one id⟩
  halves _ _ _ _ _ _ _ _ _ _ := .same rfl rfl rfl
  reply _ _ _ := .same rfl rfl rfl
  dropAnswer w ans :=
    { closing := by rw [dropAnswer_ctl]
      cells := congrArg (fun x => x.2.2.2) (dropAnswer_outside w ans).hall
      grows := (dropAnswer_grows w ans).mono not_isClosing_of_isFront }
  reg _ _ _ := .same rfl rfl rfl
  opens _ _ _ _ _ := .same rfl rfl rfl
  pending _ _ _ := .same rfl rfl rfl
  parked _ _ _ := .same rfl rfl rfl
  acceptFlag w bidi b := by cases bidi <;> exact .same rfl rfl rfl
  handBidi _ _ _ := ⟨rfl, rfl, .one id⟩
  handUni _ _ _ := ⟨rfl, rfl, .one id⟩

/-! ## 3. The invariant -/

/-- A call carries the first `Close` applied before it, or else is the synthetic one. -/
def CallInOrder (e : Event) (pre : List Event) : Prop :=
  ∀ code reason ans, e = .connClose code reason ans →
    firstClose pre = some (code, reason) ∨ firstClose pre = none ∧ code = h3NoError ∧ reason = []

/-- What the close bookkeeping says about the history. -/
structure CloseInv (w : World σ) : Prop where
  calls : (closeCalls w.trace).length = if w.ctl.explicitCloseAttempted then 1 else 0
  pending : w.ctl.explicitCloseAttempted = false → w.ctl.pendingClose = firstClose w.trace
  order : Always CallInOrder w.trace
  recorded : ∀ x, w.ctl.localClose = some x → (x.1, x.2, .ok ()) ∈ closeCalls w.trace
  issued : w.ctl.explicitCloseAttempted = true →
    w.ctl.gracefulCloseIssued = true ∨ w.ctl.closeBug ≠ none
  cells : w.sh.cells = (none, none, none)

theorem CloseInv.keeps (hk : KeepsClose w w') (h : CloseInv w) : CloseInv w' := by
  have hc := hk.closing
  simp only [Ctl.closing, Prod.mk.injEq] at hc
  obtain ⟨hg, -, hp, ha, hl, hb⟩ := hc
  have hcalls : closeCalls w'.trace = closeCalls w.trace := blind_closeCalls.grows hk.grows
  have hfirst : firstClose w'.trace = firstClose w.trace := blind_firstClose.grows hk.grows
  refine ⟨?_, ?_, ?_, ?_, ?_, hk.cells.trans h.cells⟩
  · rw [hcalls, ha, h.calls]
  · rw [hp, ha, hfirst]
    exact h.pending
  · refine hk.grows.always (fun e pre he code reason ans hc => ?_) h.order
    exact (he (by rw [hc]; trivial)).elim
  · rw [hl, hcalls]
    exact h.recorded
  · rw [ha, hg, hb]
    exact h.issued

/-- No call has been made and nothing was recorded yet. -/
theorem CloseInv.fresh (h : CloseInv w) (ha : w.ctl.explicitCloseAttempted = false) :
    closeCalls w.trace = [] ∧ w.ctl.localClose = none := by
  have hc : closeCalls w.trace = [] := by simpa [ha] using h.calls
  refine ⟨hc, ?_⟩
  cases hl : w.ctl.localClose with
  | none => rfl
  | some x => simpa [hc] using h.recorded x hl

/-- A `Close` command is applied: the first one is staged and stays staged. -/
theorem CloseInv.applyClose (h : CloseInv w) (code : Nat) (reason : Bytes) :
    CloseInv (w.applyCommand T (.close code reason)) := by
  have horder : Always CallInOrder (.applied (.close code reason) :: w.trace) :=
    ⟨fun _ _ _ hc => by simp at hc, h.order⟩
  unfold applyCommand
  dsimp only
  split
  · rename_i hg
    have hg' : w.ctl.pendingClose = none ∧ w.ctl.explicitCloseAttempted = false := by
      simpa [emit] using hg
    have hf : firstClose w.trace = none := (h.pending hg'.2).symm.trans hg'.1
    refine ⟨h.calls, fun _ => ?_, horder, h.recorded, h.issued, h.cells⟩
    change some (code, reason) = some ((firstClose w.trace).getD (code, reason))
    rw [hf, Option.getD_none]
  · rename_i hg
    refine ⟨h.calls, fun ha => ?_, horder, h.recorded, h.issued, h.cells⟩
    -- not attempted, so it is the staged close that turned this one away
    have ha' : w.ctl.explicitCloseAttempted = false := ha
    have hp : w.ctl.pendingClose ≠ none := by
      intro hn
      exact hg (by simp [emit, hn, ha'])
    obtain ⟨x, hx⟩ := Option.ne_none_iff_exists'.mp hp
    have hf : firstClose w.trace = some x := (h.pending ha').symm.trans hx
    change w.ctl.pendingClose = some ((firstClose w.trace).getD (code, reason))
    rw [hf, hx, Option.getD_some]

/-- The one call. -/
theorem CloseInv.call (h : CloseInv w) (ha : w.ctl.explicitCloseAttempted = false) (code : Nat)
    (reason : Bytes) (msg : String)
    (hc : firstClose w.trace = some (code, reason) ∨
      firstClose w.trace = none ∧ code = h3NoError ∧ reason = []) (p : Option (Nat × Bytes)) :
    CloseInv ({ w with ctl.pendingClose := p }.callClose T code reason msg) := by
  obtain ⟨hn, hl⟩ := h.fresh ha
  have horder : ∀ ans, Always CallInOrder (.connClose code reason ans :: w.trace) :=
    fun ans => ⟨fun _ _ _ he => by cases he; exact hc, h.order⟩
  unfold callClose
  dsimp only
  generalize hans : (T.close w.ctl.qconn true code reason).1 = ans
  have hcalls : (closeCalls (.connClose code reason ans :: w.trace)).length = 1 := by
    change (closeCalls w.trace).length + 1 = 1
    rw [hn]
    rfl
  cases ans with
  | ok u =>
    refine ⟨hcalls, (fun h' => nomatch h'), horder _, ?_, fun _ => .inl rfl, h.cells⟩
    rintro x hx
    cases hx
    exact List.mem_cons_self
  | error err =>
    have hnone : ∀ x, w.ctl.localClose = some x →
        (x.1, x.2, .ok ()) ∈ closeCalls (.connClose code reason (.error err) :: w.trace) := by
      intro x hx
      rw [hl] at hx
      cases hx
    cases err with
    | done => exact ⟨hcalls, (fun h' => nomatch h'), horder _, hnone, fun _ => .inl rfl, h.cells⟩
    | _ =>
      exact ⟨hcalls, (fun h' => nomatch h'), horder _, hnone, fun _ => .inr (by simp), h.cells⟩

/-! ## 4. Acting iterations -/

/-- What the stages before the barrier leave of the close: the invariant, the flags other than
the staged close, and the calls made. -/
structure Unclosed (w w' : World σ) : Prop where
  inv : CloseInv w → CloseInv w'
  issued : w'.ctl.gracefulCloseIssued = w.ctl.gracefulCloseIssued
  teardown : w'.ctl.lastHandleTeardown = w.ctl.lastHandleTeardown
  attempted : w'.ctl.explicitCloseAttempted = w.ctl.explicitCloseAttempted
  bug : w'.ctl.closeBug = w.ctl.closeBug
  calls : closeCalls w'.trace = closeCalls w.trace

theorem Unclosed.trans (h : Unclosed w w') (h' : Unclosed w' w'') : Unclosed w w'' where
  inv hi := h'.inv (h.inv hi)
  issued := h'.issued.trans h.issued
  teardown := h'.teardown.trans h.teardown
  attempted := h'.attempted.trans h.attempted
  bug := h'.bug.trans h.bug
  calls := h'.calls.trans h.calls

theorem KeepsClose.unclosed (h : KeepsClose w w') : Unclosed w w' := by
  have hc := h.closing
  simp only [Ctl.closing, Prod.mk.injEq] at hc
  obtain ⟨hg, ht, -, ha, -, hb⟩ := hc
  exact ⟨.keeps h, hg, ht, ha, hb, blind_closeCalls.grows h.grows⟩

theorem unclosed_frame : AdmitFrame (Unclosed (σ := σ)) :=
  keepsClose_frame.mono KeepsClose.unclosed Unclosed.trans

theorem nextCommand_keepsClose (w : World σ) : KeepsClose w w.nextCommand.2 := by
  unfold nextCommand
  split
  · exact .same rfl rfl rfl
  · dsimp only
    split
    · exact keepsClose_frame.trans (interleave_keepsClose w) (.same rfl rfl rfl)
    · exact interleave_keepsClose w

theorem applyClose_unclosed (w : World σ) (code : Nat) (reason : Bytes) :
    Unclosed w (w.applyCommand T (.close code reason)) := by
  refine ⟨fun h => h.applyClose code reason, ?_, ?_, ?_, ?_, ?_⟩ <;>
  · unfold applyCommand
    dsimp only
    split <;> rfl

theorem applyCommand_unclosed (w : World σ) (cmd : DriverCommand) :
    Unclosed w (w.applyCommand T cmd) := by
  cases cmd with
  | close code reason => exact applyClose_unclosed w code reason
  | _ =>
    exact unclosed_frame.applyCommand w _ (fun _ _ h => nomatch h) (KeepsClose.emit w _ id).unclosed

theorem applyInbox_unclosed (w : World σ) : Unclosed w (w.applyInbox T) :=
  unclosed_frame.applyLoop
    (fun w cmd _ => (nextCommand_keepsClose w).unclosed.trans (applyCommand_unclosed _ cmd))
    (fun w _ => (nextCommand_keepsClose w).unclosed) cmdBudget w

/-- The state in which the barrier of an acting iteration runs. -/
def beforeBarrier (T : QuicConn σ) (w : World σ) : World σ :=
  let noPacket := !w.ctl.readsRanThisIter
  let w := w.startIteration.applyInbox T
  let w := if noPacket then w.runReadPump T else w
  let w := ((w.stageOpen T).stageWritable T).stageSend T
  let w := { w with ctl.readsRanThisIter := false }.interleave
  { w with ctl.needsIteration := w.ctl.needsIteration || hasRunnableRemainder w.reg w.sh }

theorem doProcessWrites_eq (w : World σ) :
    w.doProcessWrites T = (w.beforeBarrier T).applyCloseBarrier T := rfl

theorem startIteration_unclosed (w : World σ) : Unclosed w w.startIteration := by
  unfold startIteration
  split
  · exact unclosed_frame.refl w
  · exact KeepsClose.unclosed (.same rfl rfl rfl)

theorem beforeBarrier_unclosed (w : World σ) : Unclosed w (w.beforeBarrier T) := by
  have F : AdmitFrame (Unclosed (σ := σ)) := unclosed_frame
  have h1 := (startIteration_unclosed w).trans (applyInbox_unclosed (T := T) _)
  have h2 : Unclosed w (if !w.ctl.readsRanThisIter then
      (w.startIteration.applyInbox T).runReadPump T else w.startIteration.applyInbox T) := by
    split
    · exact h1.trans (F.runReadPump _)
    · exact h1
  have h3 := h2.trans ((F.stageOpen (T := T) _).trans
    ((F.stageWritable (T := T) _).trans (F.stageSend (T := T) _)))
  have hend (v : World σ) : Unclosed v { v with ctl.readsRanThisIter := false } :=
    KeepsClose.unclosed (.same rfl rfl rfl)
  have h4 := h3.trans ((hend _).trans (F.interleave _))
  exact h4.trans (KeepsClose.unclosed (.same rfl rfl rfl))

/-- What `doProcessReads` leaves of the close. -/
theorem doProcessReads_unclosed (w : World σ) : Unclosed w (w.doProcessReads T) := by
  have h1 : Unclosed w { w with
      ctl.needsIteration := false, ctl.readBudget := readBudgetMax
      ctl.readsRanThisIter := true } :=
    KeepsClose.unclosed (.same rfl rfl rfl)
  exact h1.trans (unclosed_frame.runReadPump _)

/-! ## 5. The barrier -/

/-- The transport has a terminal of its own. -/
def hasTerminal (T : QuicConn σ) (c : σ) : Bool :=
  (T.peerError c).isSome || (T.localError c).isSome || T.isTimedOut c

/-- The barrier that runs in `b` calls `close` with `code` and `reason`. -/
structure CloseCall (T : QuicConn σ) (b : World σ) (code : Nat) (reason : Bytes)
    (ans : Except QuicheError Unit) : Prop where
  ans : ans = (T.close b.ctl.qconn true code reason).1
  cause : firstClose b.trace = some (code, reason) ∨
    firstClose b.trace = none ∧ code = h3NoError ∧ reason = [] ∧
      b.ctl.lastHandleTeardown = true ∧ hasTerminal T b.ctl.qconn = false

/-- What one barrier can do: nothing, or the one call. -/
inductive Barrier (T : QuicConn σ) (b : World σ) : World σ → Prop
  | idle (h : b.ctl.explicitCloseAttempted = true ∨ b.ctl.pendingClose = none ∧
      (b.ctl.lastHandleTeardown = true → hasTerminal T b.ctl.qconn = true)) : Barrier T b b
  | call (code : Nat) (reason : Bytes) (msg : String) (p : Option (Nat × Bytes))
      (ha : b.ctl.explicitCloseAttempted = false)
      (hc : CloseCall T b code reason (T.close b.ctl.qconn true code reason).1)
      (hw : b.ctl.pendingClose.isSome ∨ hasTerminal T b.ctl.qconn = false) :
      Barrier T b ({ b with ctl.pendingClose := p }.callClose T code reason msg)

theorem barrier (h : CloseInv w) : Barrier T w (w.applyCloseBarrier T) := by
  unfold applyCloseBarrier
  split
  · rename_i ha
    exact .idle (.inl ha)
  · rename_i ha
    have ha : w.ctl.explicitCloseAttempted = false := by simpa using ha
    have hp := h.pending ha
    have hl := (h.fresh ha).2
    split
    · rename_i code reason hpc
      exact .call code reason _ none ha ⟨rfl, .inl (hp.symm.trans hpc)⟩ (.inl (by rw [hpc]; rfl))
    · rename_i hpc
      split
      · rename_i hg
        have hg' : w.ctl.lastHandleTeardown = true ∧ hasTerminal T w.ctl.qconn = false := by
          simp only [hasTerminal, Bool.and_eq_true, Bool.not_eq_true', Option.isNone_iff_eq_none]
            at hg ⊢
          obtain ⟨⟨⟨⟨ht, hpe⟩, hle⟩, hto⟩, -⟩ := hg
          exact ⟨ht, by simp [hpe, hle, hto]⟩
        have hcall := Barrier.call (T := T) h3NoError []
          "last-handle qconn.close returned an unexpected error" w.ctl.pendingClose ha
          ⟨rfl, .inr ⟨hp.symm.trans hpc, rfl, rfl, hg'.1, hg'.2⟩⟩ (.inr hg'.2)
        exact hcall
      · rename_i hg
        refine .idle (.inr ⟨hpc, fun ht => ?_⟩)
        by_contra hn
        refine hg ?_
        simp only [hasTerminal, Bool.not_eq_true, Bool.or_eq_false_iff, Option.isSome_eq_false_iff,
          Option.isNone_iff_eq_none] at hn
        simp [ht, hn.1.1, hn.1.2, hn.2, hl]

theorem Barrier.inv (hb : Barrier T w w') (h : CloseInv w) : CloseInv w' := by
  cases hb with
  | idle _ => exact h
  | call code reason msg p ha hc _ =>
    refine h.call ha code reason msg ?_ p
    rcases hc.cause with hc | ⟨hc, hcode, hreason, -⟩
    · exact .inl hc
    · exact .inr ⟨hc, hcode, hreason⟩

theorem callClose_issued (w : World σ) (code : Nat) (reason : Bytes) (msg : String) :
    (w.callClose T code reason msg).ctl.gracefulCloseIssued = true ∨
    (w.callClose T code reason msg).ctl.closeBug ≠ none := by
  unfold callClose
  dsimp only
  split
  · exact .inl rfl
  · exact .inl rfl
  · exact .inr (by simp)

theorem callClose_keeps_issued (w : World σ) (code : Nat) (reason : Bytes) (msg : String)
    (h : w.ctl.gracefulCloseIssued = true) :
    (w.callClose T code reason msg).ctl.gracefulCloseIssued = true := by
  unfold callClose
  dsimp only
  split
  · rfl
  · rfl
  · exact h

theorem Barrier.issued (hb : Barrier T w w') (h : w.ctl.gracefulCloseIssued = true) :
    w'.ctl.gracefulCloseIssued = true := by
  cases hb with
  | idle _ => exact h
  | call code reason msg p ha hc _ => exact callClose_keeps_issued _ code reason msg h

theorem callClose_trace (w : World σ) (code : Nat) (reason : Bytes) (msg : String) :
    (w.callClose T code reason msg).trace =
      .connClose code reason (T.close w.ctl.qconn true code reason).1 :: w.trace := by
  unfold callClose
  dsimp only
  split <;> rfl

/-! ## 6. Runs -/

theorem closeInv_withBuffers (isServer : Bool) (bidiCap uniCap depth : Nat) (cap : Option Nat)
    (c : σ) (script : List (List FrontAct)) :
    CloseInv (withBuffers isServer bidiCap uniCap depth cap c script) where
  calls := rfl
  pending _ := rfl
  order := trivial
  recorded _ h := nomatch h
  issued h := nomatch h
  cells := rfl

/-- What one wait can have done: nothing, or let the other tasks run and then take a command,
see the end of the channel, or mark held writes runnable. -/
inductive WaitCase (w : World σ) : World σ → Prop
  | pending : WaitCase w w
  | ran (r : Registry) (b : Bool) :
      WaitCase w { w.interleave with reg := r, ctl.needsIteration := b }
  | took (cmd : DriverCommand) (rest : List DriverCommand) :
      WaitCase w { w.interleave with inbox := w.inbox ++ [cmd], sh.cmdRx := rest }
  | eof (hi : w.inbox = []) (hq : w.interleave.sh.cmdRx = []) (hs : w.interleave.sh.senders = 0) :
      WaitCase w { w.interleave with ctl.lastHandleTeardown := true }

theorem waitForData_case (w : World σ) : WaitCase w w.waitForData := by
  have hran : WaitCase w w.interleave := .ran w.interleave.reg w.interleave.ctl.needsIteration
  unfold waitForData
  split
  · exact .pending
  · exact hran
  · rename_i hrecv
    have hi : w.inbox = [] := by
      unfold waitDecision at hrecv
      split at hrecv
      · cases hrecv
      · split at hrecv
        · cases hrecv
        · rename_i hd
          have hd' : w.inbox = [] ∧ w.ctl.needsIteration = false := by simpa using hd
          exact hd'.1
    dsimp only
    split
    · exact .took _ _
    · rename_i hq
      split
      · rename_i hs
        exact .eof hi hq hs
      · split
        · unfold markQuiescentHeldWritesRunnable
          dsimp only
          split <;> exact .ran _ _
        · exact hran

theorem waitForData_keeps (w : World σ) (h : CloseInv w) : CloseInv w.waitForData ∧
    closeCalls w.waitForData.trace = closeCalls w.trace ∧
    w.waitForData.ctl.gracefulCloseIssued = w.ctl.gracefulCloseIssued := by
  have hi := interleave_keepsClose w
  have h1 := CloseInv.keeps hi h
  have hc : closeCalls w.interleave.trace = closeCalls w.trace := blind_closeCalls.grows hi.grows
  have hw := w.waitForData_case
  generalize w.waitForData = w' at hw
  cases hw with
  | pending => exact ⟨h, rfl, rfl⟩
  | ran | took => exact ⟨h1.keeps (KeepsClose.same (w := w.interleave) rfl rfl rfl), hc, rfl⟩
  | eof =>
    exact ⟨⟨h1.calls, h1.pending, h1.order, h1.recorded, h1.issued, h1.cells⟩, hc, rfl⟩

theorem front_keepsClose (w : World σ) (a : FrontAct) : KeepsClose w (w.front a) where
  closing := rfl
  cells := (Face.front_door w.toFace a).cells
  grows := (Face.front_rel (f := w.toFace) a).grows.mono not_isClosing_of_isFront

theorem CloseInv.tick (h : CloseInv w) (t : Tick σ) : CloseInv (w.tick T t) := by
  cases t with
  | processReads => exact (doProcessReads_unclosed w).inv h
  | processWrites =>
    have hb := (beforeBarrier_unclosed (T := T) w).inv h
    exact (barrier hb).inv hb
  | waitForData => exact (waitForData_keeps w h).1
  | transport c => exact h.keeps (KeepsClose.same (w := w) rfl rfl rfl)
  | front a => exact h.keeps (front_keepsClose w a)

/-- A close once issued stays issued. -/
theorem issued_tick (h : CloseInv w) (hg : w.ctl.gracefulCloseIssued = true) (t : Tick σ) :
    (w.tick T t).ctl.gracefulCloseIssued = true := by
  cases t with
  | processReads => exact (doProcessReads_unclosed w).issued.trans hg
  | processWrites =>
    have hu := beforeBarrier_unclosed (T := T) w
    exact (barrier (hu.inv h)).issued (hu.issued.trans hg)
  | waitForData => exact (waitForData_keeps w h).2.2.trans hg
  | transport c => exact hg
  | front a => exact hg

theorem issued_run (h : CloseInv w) (hg : w.ctl.gracefulCloseIssued = true) :
    ∀ ticks : List (Tick σ), (w.run T ticks).ctl.gracefulCloseIssued = true := by
  intro ticks
  induction ticks generalizing w with
  | nil => exact hg
  | cons t ticks ih => exact ih (h.tick t) (issued_tick h hg t)

end World

end QuicheH3
