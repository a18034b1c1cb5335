/-
# `poll_finish` is sticky and honest

The answer of `poll_finish` comes from one of five places: a retained result, the reply of a
`Finish` in flight, a local reset, the published status, or a fallback.  One branch answers
`Ok(())` by default, for a direction that was finalised without a result, a reply or a terminal.

A live send half is in one of four phases (`Phase`): open, with its `Finish` in flight, with a
retained result, or reset.  In the last one a terminal is visible, for good: the local one that
`reset` installed or the status it saw.  So the default is never taken, and what `poll_finish`
answers is fixed by the phase.
-/
import QuicheH3.Stream.Grammar

namespace QuicheH3

open Lib

/-! ## 1. The phases -/

/-- The event is about the end of the direction. -/
def SendEvent.isEnd : SendEvent → Bool
  | .answered _ | .resetBy .. => true
  | _ => false

/-- Once an answer was ready, it is the answer. -/
def Sticky (e : SendEvent) (pre : List SendEvent) : Prop :=
  ∀ a, e = .answered a → ∀ b, .answered (some b) ∈ pre → a = some b

/-- After a reset the answer is the status it saw, or else its own code. -/
def AfterReset (e : SendEvent) (pre : List SendEvent) : Prop :=
  ∀ a, e = .answered a → ∀ code seen, .resetBy code seen ∈ pre →
    a = some (.error (seen.getD (.reset code)).toH3)

namespace SendSession

variable {d d' : SendSession}

/-- Where a send half is with its end, and what was answered so far. -/
inductive Phase (d : SendSession) : Prop
  | opened (hf : d.finalized = false) (hr : d.finishResult = none)
      (hc : d.finishCompletion = false) (hl : d.localTerminal = none)
      (hnew : ∀ e ∈ d.trace, e.isEnd = false)
  | inFlight (hf : d.finalized = true) (hr : d.finishResult = none)
      (hc : d.finishCompletion = true) (hsent : d.finish ≠ .unsent)
      (hpending : ∀ b, .answered (some b) ∉ d.trace)
      (hno : ∀ code seen, .resetBy code seen ∉ d.trace)
  | retained (r : Except SendEnd Unit) (hf : d.finalized = true) (hr : d.finishResult = some r)
      (hok : r = .ok () → d.finish = .settled (some (.ok ())))
      (hans : ∀ b, .answered (some b) ∈ d.trace → b = answer r)
      (hno : ∀ code seen, .resetBy code seen ∉ d.trace)
  | resetDone (e : SendEnd) (hf : d.finalized = true) (hr : d.finishResult = none)
      (hc : d.finishCompletion = false) (hs : Sees d e)
      (hans : ∀ b, .answered (some b) ∈ d.trace → b = .error e.toH3)
      (hreset : ∀ code seen, .resetBy code seen ∈ d.trace → e = seen.getD (.reset code))

/-- The end of the direction is left alone. -/
structure Idle (d d' : SendSession) : Prop where
  finalized : d'.finalized = d.finalized
  result : d'.finishResult = d.finishResult
  completion : d'.finishCompletion = d.finishCompletion
  terminal : d'.localTerminal = d.localTerminal
  dropped : d'.dropped = d.dropped
  status : ∀ e, d.status = some e → d'.status = some e
  finish : d'.finish = d.finish ∨ d.finish = .waiting ∧ ∃ r, d'.finish = .settled r
  trace : Grows (fun e => e.isEnd = false) d.trace d'.trace

theorem Calm.idle (h : Calm d d') : Idle d d' :=
  ⟨h.finalized, h.finishResult, h.finishCompletion, h.localTerminal, h.dropped, h.status, h.finish,
    h.trace ▸ Grows.refl _ _⟩

theorem Idle.refl (d : SendSession) : Idle d d := (Calm.refl d).idle

theorem Idle.trans {d'' : SendSession} (h : Idle d d') (h' : Idle d' d'') : Idle d d'' := by
  refine ⟨h'.finalized.trans h.finalized, h'.result.trans h.result,
    h'.completion.trans h.completion, h'.terminal.trans h.terminal, h'.dropped.trans h.dropped,
    fun e he => h'.status e (h.status e he), ?_, h.trace.trans h'.trace⟩
  rcases h.finish with hf | ⟨hw, r, hf⟩
  · rw [← hf]
    exact h'.finish
  · rcases h'.finish with hf' | ⟨hw', -⟩
    · exact .inr ⟨hw, r, hf'.trans hf⟩
    · rw [hf] at hw'
      cases hw'

theorem Idle.sees (h : Idle d d') {e : SendEnd} (hs : Sees d e) : Sees d' e := by
  unfold Sees
  rw [h.terminal]
  exact hs.imp_right fun hs => ⟨hs.1, h.status e hs.2⟩

/-- The reply of the `Finish` is settled once. -/
theorem Idle.settled (h : Idle d d') {r : Option (Except SendEnd Unit)}
    (hs : d.finish = .settled r) : d'.finish = .settled r := by
  rcases h.finish with hf | ⟨hw, -⟩
  · exact hf.trans hs
  · rw [hs] at hw
    cases hw

theorem Phase.idle (hp : Phase d) (h : Idle d d') : Phase d' := by
  have hold {e : SendEvent} (hm : e ∈ d'.trace) (he : e.isEnd = true) : e ∈ d.trace :=
    h.trace.old hm (by rw [he]; nofun)
  cases hp with
  | opened hf hr hc hl hnew =>
    refine .opened (h.finalized.trans hf) (h.result.trans hr) (h.completion.trans hc)
      (h.terminal.trans hl) fun e hm => ?_
    obtain ⟨evs, ht, hevs⟩ := h.trace
    rw [ht] at hm
    exact (List.mem_append.mp hm).elim (hevs e) (hnew e)
  | inFlight hf hr hc hsent hpending hno =>
    refine .inFlight (h.finalized.trans hf) (h.result.trans hr) (h.completion.trans hc) ?_
      (fun b hm => hpending b (hold hm rfl)) fun code seen hm => hno code seen (hold hm rfl)
    rcases h.finish with he | ⟨-, r, he⟩
    · rwa [he]
    · rw [he]
      nofun
  | retained r hf hr hok hans hno =>
    exact .retained r (h.finalized.trans hf) (h.result.trans hr) (fun he => h.settled (hok he))
      (fun b hm => hans b (hold hm rfl)) fun code seen hm => hno code seen (hold hm rfl)
  | resetDone e hf hr hc hs hans hreset =>
    exact .resetDone e (h.finalized.trans hf) (h.result.trans hr) (h.completion.trans hc)
      (h.sees hs) (fun b hm => hans b (hold hm rfl)) fun code seen hm =>
        hreset code seen (hold hm rfl)

/-! ## 2. The writes -/

theorem emit_idle (d : SendSession) {e : SendEvent} (he : e.isEnd = false) : Idle d (d.emit e) :=
  ⟨rfl, rfl, rfl, rfl, rfl, fun _ h => h, .inl rfl, (Grows.refl _ _).cons he⟩

theorem yield_idle (d : SendSession) : Idle d d.yield := (yield_calm d).idle

theorem setStash_idle (d : SendSession) (b : Option WriteBuf) : Idle d (d.setStash b) :=
  ⟨rfl, rfl, rfl, rfl, rfl, fun _ h => h, .inl rfl, Grows.refl _ _⟩

theorem beginWrite_idle (d : SendSession) : Idle d d.beginWrite :=
  ⟨rfl, rfl, rfl, rfl, rfl, fun _ h => h, .inl rfl, Grows.refl _ _⟩

theorem setGen_idle (d : SendSession) (g : Nat) : Idle d (d.setGen g) :=
  ⟨rfl, rfl, rfl, rfl, rfl, fun _ h => h, .inl rfl, Grows.refl _ _⟩

theorem dropWrite_idle (d : SendSession) (g bytes : Nat) : Idle d (d.dropWrite g bytes) :=
  ⟨rfl, rfl, rfl, rfl, rfl, fun _ h => h, .inl rfl, Grows.refl _ _⟩

theorem consume_idle (d : SendSession) (g : Nat) : Idle d (d.consume g) :=
  ⟨rfl, rfl, rfl, rfl, rfl, fun _ h => h, .inl rfl, (Grows.refl _ _).cons rfl⟩

theorem cmdSend_idle (d : SendSession) (c : SendCommand) : Idle d (d.cmdSend c).2 := by
  unfold cmdSend
  split
  · exact (yield_idle d).trans (emit_idle _ rfl)
  · exact yield_idle d

theorem pollWrite_idle (d : SendSession) (g : Nat) : Idle d (d.pollWrite g).2 := by
  refine (yield_idle d).trans ?_
  unfold pollWrite
  split
  · exact (consume_idle _ g).trans (resolveWrite_calm _ _).idle
  · exact .refl _

theorem flush_idle (d : SendSession) (buf : WriteBuf) : Idle d (d.flush buf).2 := by
  have hp := (beginWrite_idle d).trans
    (cmdSend_idle _ (.send buf d.writeCompletion.begin.2 buf.remaining))
  unfold flush
  dsimp only
  split
  · exact hp.trans ((setGen_idle _ _).trans (pollWrite_idle _ _))
  · exact hp.trans ((dropWrite_idle ..).trans (terminalNow_calm _).idle)

theorem pollReady_idle (d : SendSession) : Idle d d.pollReady.2 := by
  have ht := (terminalNow_calm d).idle
  unfold pollReady
  split
  · exact pollWrite_idle d _
  · dsimp only
    split
    · exact ht
    · split
      · exact ht
      · rename_i buf _
        have hr := ht.trans ((setStash_idle _ none).trans (reserve_calm _ buf.remaining).idle)
        split
        · exact hr.trans (flush_idle _ _)
        · exact hr.trans (setStash_idle _ _)

theorem sendData_idle (d : SendSession) (buf : WriteBuf) : Idle d (d.sendData buf).2 := by
  unfold sendData
  split
  · exact .refl d
  · exact (setStash_idle _ _).trans (emit_idle _ rfl)

/-! ## 3. `poll_finish` -/

/-- Nothing is recorded about the end of the direction. -/
structure Onward (d d' : SendSession) : Prop where
  trace : Grows (fun e => e.isEnd = false) d.trace d'.trace

theorem Idle.onward (h : Idle d d') : Onward d d' := ⟨h.trace⟩

theorem Onward.trans {d'' : SendSession} (h : Onward d d') (h' : Onward d' d'') : Onward d d'' :=
  ⟨h.trace.trans h'.trace⟩

theorem finalize_onward (d : SendSession) : Onward d d.finalize := ⟨Grows.refl _ _⟩

theorem awaitFinish_onward (d : SendSession) : Onward d d.awaitFinish := ⟨Grows.refl _ _⟩

/-- No answer was ready so far, and there was no reset. -/
def Fresh (d : SendSession) : Prop :=
  (∀ b, .answered (some b) ∉ d.trace) ∧ ∀ code seen, .resetBy code seen ∉ d.trace

theorem Fresh.onward (h : Fresh d) (ho : Onward d d') : Fresh d' :=
  ⟨fun b hm => h.1 b (ho.trace.old hm nofun),
    fun code seen hm => h.2 code seen (ho.trace.old hm nofun)⟩

/-- `d'` is where a `poll_finish` of `d` that answers `a` ends: the answer agrees with the ready
ones before it and with a reset before it, and is `Ok` only if the worker said so. -/
structure Answers (d : SendSession) (a : SendPoll) (d' : SendSession) : Prop where
  phase : Phase (d'.emit (.answered a))
  onward : Onward d d'
  sticky : ∀ b, .answered (some b) ∈ d.trace → a = some b
  ok : a = some (.ok ()) → d'.finish = .settled (some (.ok ()))
  reset : ∀ code seen, .resetBy code seen ∈ d.trace →
    a = some (.error (seen.getD (.reset code)).toH3)

theorem Answers.onward_left {d₀ : SendSession} {a : SendPoll} (ho : Onward d₀ d)
    (h : Answers d a d') : Answers d₀ a d' :=
  ⟨h.phase, ho.trans h.onward, fun b hm => h.sticky b (ho.trace.mem hm), h.ok,
    fun code seen hm => h.reset code seen (ho.trace.mem hm)⟩

theorem answer_eq_ok {r : Except SendEnd Unit} (h : answer r = .ok ()) : r = .ok () := by
  cases r with
  | ok u => rfl
  | error e => cases h

/-- The first ready answer is retained. -/
theorem retain_answers {r : Except SendEnd Unit} (h : Fresh d) (hf : d.finalized = true)
    (hok : r = .ok () → d.finish = .settled (some (.ok ()))) :
    Answers d (d.retain r).1 (d.retain r).2 := by
  refine ⟨?_, ⟨Grows.refl _ _⟩, fun b hm => absurd hm (h.1 b), fun ha => ?_,
    fun code seen hm => absurd hm (h.2 code seen)⟩
  · refine .retained r hf rfl hok (fun b hm => ?_) fun code seen hm => ?_
    · rcases List.mem_cons.mp hm with he | hm
      · cases he
        rfl
      · exact absurd hm (h.1 b)
    · rcases List.mem_cons.mp hm with he | hm
      · cases he
      · exact h.2 code seen hm
  · exact hok (answer_eq_ok (Option.some.inj ha))

theorem failFinish_answers (h : Fresh d) (hf : d.finalized = true) (msg : String) :
    Answers d (d.failFinish msg).1 (d.failFinish msg).2 := by
  have ht := terminalNow_calm d
  have ho := ht.idle.onward
  refine Answers.onward_left ho ?_
  exact retain_answers (h.onward ho) (ht.finalized.trans hf) nofun

/-- A `Finish` in flight is answered by its reply, by a terminal if the reply was dropped, and is
pending before that. -/
theorem pollFinishCompletion_answers (h : Fresh d) (hf : d.finalized = true)
    (hr : d.finishResult = none) (hc : d.finishCompletion = true) (hsent : d.finish ≠ .unsent) :
    Answers d d.pollFinishCompletion.1 d.pollFinishCompletion.2 := by
  have hy := yield_calm d
  have ho := hy.idle.onward
  have hf' := hy.finalized.trans hf
  refine Answers.onward_left ho ?_
  unfold pollFinishCompletion
  cases hfin : d.yield.finish with
  | settled result =>
    cases result with
    | some r => exact retain_answers (h.onward ho) hf' fun hr => by rw [hfin, hr]
    | none => exact failFinish_answers (h.onward ho) hf' _
  | waiting =>
    have h' := h.onward ho
    refine ⟨?_, ⟨Grows.refl _ _⟩, fun b hm => absurd hm (h'.1 b), nofun,
      fun code seen hm => absurd hm (h'.2 code seen)⟩
    refine .inFlight hf' (hy.finishResult.trans hr) (hy.finishCompletion.trans hc) ?_
      (fun b hm => ?_) fun code seen hm => ?_
    · change d.yield.finish ≠ .unsent
      rw [hfin]
      nofun
    · exact h'.1 b ((List.mem_cons.mp hm).resolve_left nofun)
    · exact h'.2 code seen ((List.mem_cons.mp hm).resolve_left nofun)
  | unsent =>
    rcases hy.finish with he | ⟨-, r, he⟩
    · exact absurd (he.symm.trans hfin) hsent
    · rw [hfin] at he
      cases he

theorem pollFinish_answers (hp : Phase d) : Answers d d.pollFinish.1 d.pollFinish.2 := by
  have ht := terminalNow_calm d
  unfold pollFinish
  cases hp with
  | opened hf hr hc hl hnew =>
    have hfresh : Fresh d :=
      ⟨fun b hm => Bool.noConfusion (hnew _ hm), fun code seen hm => Bool.noConfusion (hnew _ hm)⟩
    have ho := ht.idle.onward.trans (finalize_onward _)
    rw [hr]
    simp only [hc, hf, Bool.false_eq_true, if_false]
    cases d.terminalNow.1 with
    | some e => exact (retain_answers (r := .error e) (hfresh.onward ho) rfl nofun).onward_left ho
    | none =>
      have hs := cmdSend_idle d.terminalNow.2.finalize .finish
      have ho' := ho.trans hs.onward
      dsimp only
      split
      · have hw := ho'.trans (awaitFinish_onward _)
        refine Answers.onward_left hw ?_
        exact pollFinishCompletion_answers (hfresh.onward hw) hs.finalized
          (hs.result.trans (ht.finishResult.trans hr)) rfl nofun
      · exact (failFinish_answers (hfresh.onward ho') hs.finalized _).onward_left ho'
  | inFlight hf hr hc hsent hpending hno =>
    rw [hr]
    simp only [hc, if_true]
    exact pollFinishCompletion_answers ⟨hpending, hno⟩ hf hr hc hsent
  | retained r hf hr hok hans hno =>
    rw [hr]
    refine ⟨.retained r hf hr hok (fun b hm => ?_) fun code seen hm => ?_, (Idle.refl d).onward,
      fun b hm => ?_, fun ha => ?_, fun code seen hm => absurd hm (hno code seen)⟩
    · rcases List.mem_cons.mp hm with he | hm
      · cases he
        rfl
      · exact hans b hm
    · exact hno code seen ((List.mem_cons.mp hm).resolve_left nofun)
    · rw [hans b hm]
    · exact hok (answer_eq_ok (Option.some.inj ha))
  | resetDone e hf hr hc hs hans hreset =>
    -- the terminal is still there, so the default is not taken
    rw [hr, terminalNow_of_sees hs]
    simp only [hc, hf, Bool.false_eq_true, if_false, if_true]
    have hs' : Sees d.terminalNow.2 e := hs.calm ht
    have hm' {x : SendEvent} (hm : x ∈ d.terminalNow.2.trace) : x ∈ d.trace := ht.trace ▸ hm
    refine ⟨.resetDone e (ht.finalized.trans hf) (ht.finishResult.trans hr)
      (ht.finishCompletion.trans hc) hs' (fun b hm => ?_) fun code seen hm => ?_,
      ht.idle.onward, fun b hm => ?_, nofun, fun code seen hm => ?_⟩
    · rcases List.mem_cons.mp hm with he | hm
      · cases he
        rfl
      · exact hans b (hm' hm)
    · exact hreset code seen (hm' ((List.mem_cons.mp hm).resolve_left nofun))
    · rw [hans b hm]
    · rw [hreset code seen hm]

/-! ## 4. `reset` -/

/-- The published status as `reset` reads it. -/
def statusAtReset (d : SendSession) : Option SendEnd := d.finalize.yield.status

theorem reset_finalized (h : d.finalized = true) (code : Nat) : d.reset code = d := by
  unfold reset
  rw [if_pos h]

theorem reset_open (h : d.finalized = false) (code : Nat) :
    d.reset code = ((d.finalize.yield.noteReset code).cmdSend (.reset code)).2 := by
  unfold reset
  rw [if_neg (by simp [h])]

/-- The terminal a `reset` of an open direction leaves visible. -/
theorem noteReset_sees (hl : d.localTerminal = none) (code : Nat) :
    Sees (d.finalize.yield.noteReset code) (d.statusAtReset.getD (.reset code)) := by
  have hy := yield_calm d.finalize
  unfold Sees noteReset statusAtReset
  cases hs : d.finalize.yield.status with
  | none => exact .inl rfl
  | some e => exact .inr ⟨hy.localTerminal.trans hl, rfl⟩

theorem reset_phase (hp : Phase d) (code : Nat) : Phase (d.reset code) := by
  cases hp with
  | opened hf hr hc hl hnew =>
    rw [reset_open hf]
    have hy := yield_calm d.finalize
    refine Phase.idle ?_ (cmdSend_idle _ _)
    refine .resetDone _ hy.finalized (hy.finishResult.trans hr) (hy.finishCompletion.trans hc)
      (noteReset_sees hl code) (fun b hm => ?_) fun code' seen hm => ?_
    · have hm := (List.mem_cons.mp hm).resolve_left nofun
      rw [hy.trace] at hm
      exact Bool.noConfusion (hnew _ hm)
    · rcases List.mem_cons.mp hm with he | hm
      · cases he
        rfl
      · rw [hy.trace] at hm
        exact Bool.noConfusion (hnew _ hm)
  | inFlight hf hr hc hsent hpending hno =>
    rw [reset_finalized hf]
    exact .inFlight hf hr hc hsent hpending hno
  | retained r hf hr hok hans hno =>
    rw [reset_finalized hf]
    exact .retained r hf hr hok hans hno
  | resetDone e hf hr hc hs hans hreset =>
    rw [reset_finalized hf]
    exact .resetDone e hf hr hc hs hans hreset

/-! ## 5. Whole sessions -/

/-- What `poll_finish` has answered so far, and what it will. -/
structure Honest (d : SendSession) : Prop where
  sticky : Always Sticky d.trace
  reset : Always AfterReset d.trace
  ok : .answered (some (.ok ())) ∈ d.trace → d.finish = .settled (some (.ok ()))
  live : d.dropped = false → Phase d

/-- No answer is recorded, so nothing is to be shown about answers. -/
theorem Honest.silent (h : Honest d) (hphase : d'.dropped = false → Phase d')
    (hfinish : ∀ r, d.finish = .settled r → d'.finish = .settled r)
    (htrace : Grows (fun e => ∀ a, e ≠ .answered a) d.trace d'.trace) : Honest d' :=
  ⟨htrace.always (fun _ _ he a ha => absurd ha (he a)) h.sticky,
    htrace.always (fun _ _ he a ha => absurd ha (he a)) h.reset,
    fun hm => hfinish _ (h.ok (htrace.old hm fun he => he _ rfl)), hphase⟩

theorem Honest.idle (h : Honest d) (hd : d.dropped = false) (hi : Idle d d') : Honest d' :=
  h.silent (fun _ => (h.live hd).idle hi) (fun _ => hi.settled)
    (hi.trace.mono fun e he a ha => by rw [ha] at he; cases he)

theorem Honest.pollFinish (h : Honest d) (hd : d.dropped = false) :
    Honest (d.pollFinish.2.emit (.answered d.pollFinish.1)) := by
  have ha := pollFinish_answers (h.live hd)
  have hgrows := ha.onward.trace
  refine ⟨⟨?_, ?_⟩, ⟨?_, ?_⟩, fun hm => ?_, fun _ => ha.phase⟩
  · rintro a ⟨⟩ b hm
    exact ha.sticky b (hgrows.old hm nofun)
  · refine hgrows.always (fun e _ he a heq => ?_) h.sticky
    rw [heq] at he
    cases he
  · rintro a ⟨⟩ code seen hm
    exact ha.reset code seen (hgrows.old hm nofun)
  · refine hgrows.always (fun e _ he a heq => ?_) h.reset
    rw [heq] at he
    cases he
  · rcases List.mem_cons.mp hm with he | hm
    · exact ha.ok (SendEvent.answered.inj he).symm
    · exact ha.ok (ha.sticky _ (hgrows.old hm nofun))

theorem Honest.resetting (h : Honest d) (hd : d.dropped = false) (code : Nat) :
    Honest (d.reset code) := by
  refine h.silent (fun _ => reset_phase (h.live hd) code) (fun r hr => ?_) ?_
  · unfold SendSession.reset
    split
    · exact hr
    · have hy : d.finalize.yield.finish = .settled r := (yield_idle d.finalize).settled hr
      exact (cmdSend_idle (d.finalize.yield.noteReset code) _).settled hy
  · unfold SendSession.reset
    split
    · exact Grows.refl _ _
    · have hc := (cmdSend_idle (d.finalize.yield.noteReset code) (.reset code)).trace
      have hn : Grows (fun e => ∀ a, e ≠ .answered a) d.trace
          (d.finalize.yield.noteReset code).trace :=
        Grows.cons nofun ((yield_calm d.finalize).trace ▸ Grows.refl _ _)
      exact hn.trans (hc.mono fun e he a ha => by rw [ha] at he; cases he)

theorem Honest.dropping (h : Honest d) (hdrop : d'.dropped = true)
    (hfinish : ∀ r, d.finish = .settled r → d'.finish = .settled r) (ho : Onward d d') :
    Honest d' :=
  h.silent (fun h0 => by rw [hdrop] at h0; cases h0) hfinish
    (ho.trace.mono fun e he a ha => by rw [ha] at he; cases he)

theorem Honest.drop (h : Honest d) : Honest d.drop := by
  have hr : Onward d d.release := ⟨Grows.refl _ _⟩
  have ht := terminalNowNoctx_calm d.release
  unfold SendSession.drop
  split
  · exact h.dropping rfl (fun _ hs => hs) hr
  · split
    · exact h.dropping ht.dropped (fun _ hs => ht.idle.settled hs) (hr.trans ht.idle.onward)
    · have hc := cmdSend_idle d.release.terminalNowNoctx.2.finalize .finish
      refine h.dropping (hc.dropped.trans ht.dropped) (fun r hs => hc.settled ?_) ?_
      · exact ht.idle.settled hs
      · exact ((hr.trans ht.idle.onward).trans (finalize_onward _)).trans hc.onward

theorem Honest.step (h : Honest d) (c : Call) : Honest (d.step c) := by
  unfold SendSession.step
  cases hd : d.dropped with
  | true => exact h
  | false =>
    cases c with
    | sendData buf => exact h.idle hd (sendData_idle d buf)
    | pollReady => exact h.idle hd (pollReady_idle d)
    | pollFinish => exact h.pollFinish hd
    | reset code => exact h.resetting hd code
    | drop => exact h.drop

theorem Honest.run (h : Honest d) (calls : List Call) : Honest (d.run calls) := by
  induction calls generalizing d with
  | nil => exact h
  | cons c calls ih => exact ih (h.step c)

theorem honest_fromHandoff (status : Option SendEnd) (rxOpen : Bool) (cap : Option Nat)
    (resident : Nat) (script : List (List WorkerAct)) :
    Honest (fromHandoff status rxOpen cap resident script) :=
  ⟨trivial, trivial, nofun, fun _ => .opened rfl rfl rfl rfl nofun⟩

theorem step_suffix (d : SendSession) (c : Call) : d.trace <:+ (d.step c).trace := by
  unfold step
  split
  · exact List.suffix_refl _
  · cases c with
    | sendData buf => exact (sendData_idle d buf).trace.suffix
    | pollReady => exact (pollReady_idle d).trace.suffix
    | pollFinish => exact (pollFinish_aside d).trace.suffix.trans (List.suffix_cons _ _)
    | reset code => exact (reset_aside d code).trace.suffix
    | drop => exact (drop_aside d).trace.suffix

theorem run_suffix (d : SendSession) (calls : List Call) : d.trace <:+ (d.run calls).trace := by
  induction calls generalizing d with
  | nil => exact List.suffix_refl _
  | cons c calls ih => exact (step_suffix d c).trans (ih (d.step c))

/-- The call is about a write. -/
def Call.isWrite : Call → Bool
  | .sendData _ | .pollReady => true
  | _ => false

theorem run_idle {calls : List Call} (h : ∀ c ∈ calls, c.isWrite = true) :
    Idle d (d.run calls) := by
  induction calls generalizing d with
  | nil => exact .refl d
  | cons c calls ih =>
    refine Idle.trans ?_ (ih fun c' hm => h c' (List.mem_cons_of_mem _ hm))
    have hc := h c List.mem_cons_self
    unfold SendSession.step
    split
    · exact .refl d
    · cases c with
      | sendData buf => exact sendData_idle d buf
      | pollReady => exact pollReady_idle d
      | _ => cases hc

/-- What a first `reset` before any `poll_finish` fixes: every answer that follows. -/
theorem Honest.answered_after_reset (h : Honest d) (hd : d.dropped = false)
    (hf : d.finalized = false) (hnew : ∀ e ∈ d.trace, e.isEnd = false) (code : Nat)
    (calls : List Call) {a : SendPoll} (ha : .answered a ∈ ((d.reset code).run calls).trace) :
    a = some (.error (d.statusAtReset.getD (.reset code)).toH3) := by
  have hrun : Honest ((d.reset code).run calls) := (h.resetting hd code).run calls
  have hy := yield_calm d.finalize
  have hmark : .resetBy code d.statusAtReset ∈ (d.reset code).trace := by
    rw [reset_open hf]
    exact (cmdSend_idle (d.finalize.yield.noteReset code) _).trace.mem List.mem_cons_self
  have hnone : .answered a ∉ (d.reset code).trace := by
    rw [reset_open hf]
    intro hm
    have hm := (cmdSend_idle (d.finalize.yield.noteReset code) _).trace.old hm nofun
    have hm : .answered a ∈ d.finalize.yield.trace := (List.mem_cons.mp hm).resolve_left nofun
    rw [hy.trace] at hm
    exact Bool.noConfusion (hnew _ hm)
  -- the answer is one of the events recorded since
  obtain ⟨post, hpost⟩ := run_suffix (d.reset code) calls
  rw [← hpost] at ha
  obtain ⟨l, r, rfl⟩ := List.append_of_mem ((List.mem_append.mp ha).resolve_right hnone)
  rw [List.append_assoc, List.cons_append] at hpost
  exact always_iff.mp hrun.reset l (.answered a) (r ++ (d.reset code).trace) hpost.symm a rfl code
    d.statusAtReset (List.mem_append_right _ hmark)

/-- **`poll_finish` is sticky and honest.**  In every session, with any worker actions in between:

* a `poll_finish` after one that was ready answers the same;
* it answers `Ok(())` only if the worker settled the `Finish` of this stream with `Ok`;
* after a `reset` that came before any `poll_finish`, every `poll_finish` is ready with the terminal
  visible at that `reset`: the published status, or else the code of the `reset`. -/
theorem poll_finish_sticky (status : Option SendEnd) (rxOpen : Bool) (cap : Option Nat)
    (resident : Nat) (script : List (List WorkerAct)) (calls : List Call) :
    let d₀ := fromHandoff status rxOpen cap resident script
    Always Sticky (d₀.run calls).trace ∧
    (.answered (some (.ok ())) ∈ (d₀.run calls).trace →
      (d₀.run calls).finish = .settled (some (.ok ()))) ∧
    ∀ before code after, calls = before ++ .reset code :: after →
      (∀ c ∈ before, c.isWrite = true) → ∀ a, .answered a ∈ (d₀.run calls).trace →
        a = some (.error ((d₀.run before).statusAtReset.getD (.reset code)).toH3) := by
  intro d₀
  have h : Honest d₀ := honest_fromHandoff status rxOpen cap resident script
  refine ⟨(h.run calls).sticky, (h.run calls).ok, ?_⟩
  rintro before code after rfl hb a ha
  have hi : Idle d₀ (d₀.run before) := run_idle hb
  have hd : (d₀.run before).dropped = false := hi.dropped
  have hstep : (d₀.run before).step (.reset code) = (d₀.run before).reset code := by
    unfold step
    rw [hd]
    rfl
  have hrun : d₀.run (before ++ .reset code :: after) =
      ((d₀.run before).reset code).run after := by
    rw [← hstep]
    exact List.foldl_append
  rw [hrun] at ha
  refine (h.run before).answered_after_reset hd hi.finalized (fun e hm => ?_) code after ha
  obtain ⟨evs, hevs, hend⟩ := hi.trace
  rw [hevs] at hm
  exact (List.mem_append.mp hm).elim (hend e) nofun

end SendSession

end QuicheH3
