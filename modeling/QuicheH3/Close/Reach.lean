/-
# A close request reaches the transport

`OpenStreams::close` and `H3QuicheEndpoint::close` only put a `Close` into the command channel.
Three things have to work together before the peer hears of it: the pipeline must bring the
command to stage (a), stage (a) must stage it, and the barrier at the end of the SAME iteration
must call `qconn.close` with it, not with the synthetic close of the last handle.  Here they are
put together: the number of iterations is the command's place in the pipeline over `CMD_BUDGET`.
-/
import QuicheH3.Close.Publish
import QuicheH3.Driver.Pipeline

namespace QuicheH3

open Lib

/-! ## 1. The first request -/

/-- The code and reason of a `Close`. -/
def DriverCommand.asClose : DriverCommand → Option (Nat × Bytes)
  | .close code reason => some (code, reason)
  | _ => none

/-- The first `Close` among some commands, oldest first. -/
def closeAmong (cmds : List DriverCommand) : Option (Nat × Bytes) :=
  cmds.findSome? DriverCommand.asClose

/-- The first `Close` applied is the first one of those carried out. -/
theorem firstClose_eq : ∀ tr : List Event, firstClose tr = closeAmong (carriedOut tr)
  | [] => rfl
  | e :: tr => by
    have ih := firstClose_eq tr
    cases e with
    | applied cmd =>
      rw [carriedOut_applied, closeAmong, List.findSome?_append]
      change _ = (closeAmong (carriedOut tr)).or _
      rw [← ih]
      cases cmd <;> simp [firstClose, DriverCommand.asClose]
    | _ =>
      rw [blind_carriedOut _ tr rfl]
      exact ih

theorem closeAmong_of_prefix {cs cs' : List DriverCommand} {x : Nat × Bytes} (h : cs <+: cs')
    (hx : closeAmong cs = some x) : closeAmong cs' = some x := by
  obtain ⟨rest, rfl⟩ := h
  unfold closeAmong at hx ⊢
  rw [List.findSome?_append, hx]
  rfl

namespace World

variable {σ : Type} {T : QuicConn σ} {w w' : World σ} {x : Nat × Bytes}

/-! ## 2. The barrier of an iteration -/

/-- At the end of an iteration a close that was applied has been called. -/
def Gated (w : World σ) : Prop := firstClose w.trace ≠ none → closeCalls w.trace ≠ []

theorem KeepsClose.gated (hk : KeepsClose w w') (h : Gated w) : Gated w' := by
  unfold Gated
  rw [blind_firstClose.grows hk.grows, blind_closeCalls.grows hk.grows]
  exact h

theorem doProcessWrites_gated (h : CloseInv w) : Gated (w.doProcessWrites T) := by
  rw [doProcessWrites_eq]
  have hinv := (beforeBarrier_unclosed (T := T) w).inv h
  have hb := barrier (T := T) hinv
  generalize w.beforeBarrier T = b at hinv hb
  generalize b.applyCloseBarrier T = w1 at hb
  cases hb with
  | idle hidle =>
    intro hfirst hcalls
    have hone := hinv.calls
    rw [hcalls, List.length_nil] at hone
    have ha : b.ctl.explicitCloseAttempted = false := by
      by_contra hne
      rw [if_pos (by simpa using hne)] at hone
      cases hone
    rcases hidle with htrue | ⟨hnone, -⟩
    · rw [htrue] at ha
      cases ha
    · exact hfirst ((hinv.pending ha).symm.trans hnone)
  | call code reason msg p ha hc hw =>
    intro _ hcalls
    rw [callClose_trace] at hcalls
    cases hcalls

/-- A wait records only what the front end did meanwhile. -/
theorem waitForData_grows (w : World σ) : Grows Event.isFront w.trace w.waitForData.trace := by
  have hw := w.waitForData_case
  generalize w.waitForData = w' at hw
  cases hw with
  | pending => exact .refl _ _
  | _ => exact w.interleave_rel.grows

theorem gated_tick (h : CloseInv w) (hb : Gated w) (t : Tick σ) : Gated (w.tick T t) := by
  cases t with
  | processReads =>
    have hk : KeepsClose w { w with
        ctl.needsIteration := false, ctl.readBudget := readBudgetMax
        ctl.readsRanThisIter := true } :=
      .same rfl rfl rfl
    exact (keepsClose_frame.trans hk (keepsClose_frame.runReadPump _)).gated hb
  | processWrites => exact doProcessWrites_gated h
  | waitForData =>
    have hg := (waitForData_grows w).mono not_isClosing_of_isFront
    unfold Gated
    change firstClose w.waitForData.trace ≠ none → closeCalls w.waitForData.trace ≠ []
    rw [blind_firstClose.grows hg, blind_closeCalls.grows hg]
    exact hb
  | transport c => exact hb
  | front a => exact (front_keepsClose w a).gated hb

/-! ## 3. The request along a run -/

/-- The first `Close` issued is `x`, and the synthetic close has not come before it. -/
structure Asked (x : Nat × Bytes) (w : World σ) : Prop where
  inv : CloseInv w
  turn : InTurn w.oview
  gated : Gated w
  first : closeAmong (issued w.trace) = some x
  calls : ∀ y ∈ closeCalls w.trace, (y.1, y.2.1) = x
  eof : w.ctl.lastHandleTeardown = true → closeCalls w.trace ≠ []

/-- A `Close` carried out is, if it is the first of them, the first that was issued. -/
theorem Asked.firstClose_eq (h : InTurn w.oview) (hf : closeAmong (issued w.trace) = some x)
    {y : Nat × Bytes} (hy : firstClose w.trace = some y) : y = x := by
  have hsome : closeAmong (carriedOut w.trace) = some y := (QuicheH3.firstClose_eq _).symm.trans hy
  have hall := closeAmong_of_prefix ⟨_, h.symm⟩ hsome
  exact Option.some.inj (hall.symm.trans hf)

/-- A wait that sees the end of the channel leaves no command behind. -/
theorem waitForData_empty (hn : w.ctl.lastHandleTeardown = false)
    (ht : w.waitForData.ctl.lastHandleTeardown = true) :
    w.waitForData.inbox ++ w.waitForData.sh.cmdRx = [] := by
  have hw := w.waitForData_case
  generalize w.waitForData = w' at hw ht
  cases hw with
  | eof hi hq hs => exact List.append_eq_nil_iff.mpr ⟨hi, hq⟩
  | _ => cases hn.symm.trans ht

/-- The call a tick makes is of the first `Close` issued. -/
theorem Asked.calls_tick (h : Asked x w) (t : Tick σ) :
    ∀ y ∈ closeCalls (w.tick T t).trace, (y.1, y.2.1) = x := by
  have hturn : InTurn (w.tick T t).oview := inTurn_steps (tick_steps w t) h.turn
  have hfirst : closeAmong (issued (w.tick T t).trace) = some x :=
    closeAmong_of_prefix (issued_of_suffix (suffix_frame.tick w t)) h.first
  rcases closeCalls_tick (T := T) h.inv t with hsame |
    ⟨code, reason, ans, hnone, rfl, hcall, htrace⟩
  · rw [hsame]
    exact h.calls
  · have hu := beforeBarrier_unclosed (T := T) w
    intro y hy
    rw [htrace, closeCalls, hu.calls, hnone] at hy
    cases List.mem_singleton.mp hy
    rcases hcall.cause with hc | ⟨-, -, -, ht, -⟩
    · refine Asked.firstClose_eq hturn hfirst ?_
      rw [htrace]
      exact hc
    · -- the synthetic close follows the end of the channel, which follows the call
      exact absurd hnone (h.eof (hu.teardown.symm.trans ht))

/-- Calls stay in the history. -/
theorem closeCalls_ne_nil_tick (h : CloseInv w) (hc : closeCalls w.trace ≠ []) (t : Tick σ) :
    closeCalls (w.tick T t).trace ≠ [] := by
  rcases closeCalls_tick (T := T) h t with hsame | ⟨code, reason, ans, hnone, -⟩
  · rw [hsame]
    exact hc
  · exact absurd hnone hc

/-- Once every command is carried out, the close is called. -/
theorem called_of_drained (hb : Gated w) (hf : closeAmong (issued w.trace) = some x)
    (hd : closeAmong (carriedOut w.trace) = closeAmong (issued w.trace)) :
    closeCalls w.trace ≠ [] := by
  refine hb ?_
  rw [firstClose_eq, hd, hf]
  exact Option.some_ne_none x

theorem Asked.tick (h : Asked x w) (t : Tick σ) : Asked x (w.tick T t) := by
  have hturn : InTurn (w.tick T t).oview := inTurn_steps (tick_steps w t) h.turn
  have hgated := gated_tick (T := T) h.inv h.gated t
  have hfirst : closeAmong (issued (w.tick T t).trace) = some x :=
    closeAmong_of_prefix (issued_of_suffix (suffix_frame.tick w t)) h.first
  refine ⟨h.inv.tick t, hturn, hgated, hfirst, h.calls_tick t, fun ht => ?_⟩
  cases hold : w.ctl.lastHandleTeardown with
  | true => exact closeCalls_ne_nil_tick h.inv (h.eof hold) t
  | false =>
    rcases teardown_tick h.inv t ht with habs | ⟨rfl, -⟩
    · rw [hold] at habs
      cases habs
    · refine called_of_drained hgated hfirst ?_
      have hall : issued (w.tick T .waitForData).trace = carriedOut (w.tick T .waitForData).trace ++
          ((w.tick T .waitForData).inbox ++ (w.tick T .waitForData).sh.cmdRx) := hturn
      have hempty : (w.tick T .waitForData).inbox ++ (w.tick T .waitForData).sh.cmdRx = [] :=
        waitForData_empty hold ht
      rw [hall, hempty, List.append_nil]

theorem Asked.run (h : Asked x w) : ∀ ticks : List (Tick σ), Asked x (w.run T ticks) := by
  intro ticks
  induction ticks generalizing w with
  | nil => exact h
  | cons t ticks ih => exact ih (h.tick t)

/-! ## 4. From the request to the call -/

/-- The end of the channel, once seen, is not forgotten. -/
theorem teardown_stays (h : CloseInv w) (ht : w.ctl.lastHandleTeardown = true) (t : Tick σ) :
    (w.tick T t).ctl.lastHandleTeardown = true := by
  cases t with
  | processReads => exact (doProcessReads_unclosed w).teardown.trans ht
  | processWrites =>
    have hu := beforeBarrier_unclosed (T := T) w
    have hb := barrier (T := T) (hu.inv h)
    change ((w.beforeBarrier T).applyCloseBarrier T).ctl.lastHandleTeardown = true
    generalize (w.beforeBarrier T).applyCloseBarrier T = w1 at hb ⊢
    cases hb with
    | idle _ => exact hu.teardown.trans ht
    | call code reason msg p ha hc hw =>
      rw [callClose_teardown]
      exact hu.teardown.trans ht
  | waitForData =>
    have hw := w.waitForData_case
    change w.waitForData.ctl.lastHandleTeardown = true
    generalize w.waitForData = w' at hw
    cases hw with
    | eof => rfl
    | _ => exact ht
  | transport c => exact ht
  | front a => exact ht

/-- Before the end of the channel is seen, a call is of the first `Close` applied. -/
structure Caused (w : World σ) : Prop where
  inv : CloseInv w
  turn : InTurn w.oview
  gated : Gated w
  cause : w.ctl.lastHandleTeardown = false →
    ∀ y ∈ closeCalls w.trace, firstClose w.trace = some (y.1, y.2.1)

theorem Caused.cause_tick (h : Caused w) (t : Tick σ)
    (ht : (w.tick T t).ctl.lastHandleTeardown = false) :
    ∀ y ∈ closeCalls (w.tick T t).trace, firstClose (w.tick T t).trace = some (y.1, y.2.1) := by
  have hold : w.ctl.lastHandleTeardown = false := by
    by_contra hne
    rw [teardown_stays h.inv (by simpa using hne) t] at ht
    cases ht
  intro y hy
  rcases closeCalls_tick (T := T) h.inv t with hsame |
    ⟨code, reason, ans, hnone, rfl, hcall, htrace⟩
  · rw [hsame] at hy
    have hfirst := h.cause hold y hy
    rw [firstClose_eq] at hfirst ⊢
    exact closeAmong_of_prefix (carriedOut_of_suffix (suffix_frame.tick w t)) hfirst
  · have hu := beforeBarrier_unclosed (T := T) w
    rw [htrace, closeCalls, hu.calls, hnone] at hy
    cases List.mem_singleton.mp hy
    rw [htrace]
    rcases hcall.cause with hc | ⟨-, -, -, hteardown, -⟩
    · exact hc
    · rw [← hu.teardown, hteardown] at hold
      cases hold

theorem Caused.run (h : Caused w) : ∀ ticks : List (Tick σ), Caused (w.run T ticks) := by
  intro ticks
  induction ticks generalizing w with
  | nil => exact h
  | cons t ticks ih =>
    refine ih ⟨h.inv.tick t, inTurn_steps (tick_steps w t) h.turn, gated_tick h.inv h.gated t, ?_⟩
    exact h.cause_tick t

theorem caused_withBuffers (isServer : Bool) (bidiCap uniCap depth : Nat) (cap : Option Nat)
    (c : σ) (script : List (List FrontAct)) :
    Caused (withBuffers isServer bidiCap uniCap depth cap c script) where
  inv := closeInv_withBuffers isServer bidiCap uniCap depth cap c script
  turn := inTurn_withBuffers isServer bidiCap uniCap depth cap c script
  gated h := absurd rfl h
  cause _ _ h := nomatch h

/-- A request made before the end of the channel was seen. -/
theorem Caused.asked (h : Caused w) (ht : w.ctl.lastHandleTeardown = false)
    (hx : closeAmong (issued w.trace) = some x) : Asked x w where
  inv := h.inv
  turn := h.turn
  gated := h.gated
  first := hx
  calls y hy := Asked.firstClose_eq h.turn hx (h.cause ht y hy)
  eof habs := by
    rw [ht] at habs
    cases habs

/-- The place of the first `Close` among some commands. -/
def closePlace (cmds : List DriverCommand) : Nat := cmds.findIdx fun cmd => cmd.asClose.isSome

theorem closeAmong_take {cs : List DriverCommand} {n : Nat} (hx : closeAmong cs = some x)
    (hn : closePlace cs < n) : closeAmong (cs.take n) = some x := by
  induction cs generalizing n with
  | nil => cases hx
  | cons cmd cs ih =>
    cases n with
    | zero => exact absurd hn (Nat.not_lt_zero _)
    | succ n =>
      rw [List.take_succ_cons]
      cases hc : cmd.asClose with
      | some y => simpa [closeAmong, hc] using hx
      | none =>
        have hx' : closeAmong cs = some x := by simpa [closeAmong, hc] using hx
        have hn' : closePlace cs < n := by simpa [closePlace, List.findIdx_cons, hc] using hn
        simpa [closeAmong, hc] using ih hx' hn'

/-- **A close request reaches the transport.**  Let `x` be the code and reason of the first `Close`
the front end has issued by some point of a run, the end of the channel not yet seen.  Then, as soon
as the acting iterations that follow have budget for the commands up to it, the transport has been
told to close: once, and with `x`, whatever else is issued, answered or dropped meanwhile. -/
theorem close_reaches_transport (T : QuicConn σ) (isServer : Bool) (bidiCap uniCap depth : Nat)
    (cap : Option Nat) (c : σ) (script : List (List FrontAct)) (ticks later : List (Tick σ))
    (ht : ((withBuffers isServer bidiCap uniCap depth cap c script).run T
      ticks).ctl.lastHandleTeardown = false)
    (hx : closeAmong (issued
      ((withBuffers isServer bidiCap uniCap depth cap c script).run T ticks).trace) = some x)
    (hn : closePlace (issued
        ((withBuffers isServer bidiCap uniCap depth cap c script).run T ticks).trace) <
      (carriedOut ((withBuffers isServer bidiCap uniCap depth cap c script).run T
        ticks).trace).length + rounds later * cmdBudget) :
    ∃ ans, closeCalls (((withBuffers isServer bidiCap uniCap depth cap c script).run T
      ticks).run T later).trace = [(x.1, x.2, ans)] := by
  have h := (caused_withBuffers isServer bidiCap uniCap depth cap c script).run (T := T) ticks
  generalize (withBuffers isServer bidiCap uniCap depth cap c script).run T ticks =
    w at h ht hx hn ⊢
  have hasked := (h.asked ht hx).run (T := T) later
  have hpace : (issued w.trace).take ((carriedOut w.trace).length + rounds later * cmdBudget) <+:
      carriedOut (w.run T later).trace := issued_take_carriedOut h.turn later
  have hdone := closeAmong_of_prefix hpace (closeAmong_take hx hn)
  generalize w.run T later = u at hasked hdone ⊢
  have hcalls := hasked.gated (by rw [firstClose_eq, hdone]; exact Option.some_ne_none x)
  have hle := hasked.inv.calls
  match hcc : closeCalls u.trace with
  | [] => exact absurd hcc hcalls
  | [y] =>
    have hy := hasked.calls y (by rw [hcc]; exact List.mem_singleton_self y)
    exact ⟨y.2.2, by rw [← hy]⟩
  | y :: z :: l =>
    rw [hcc] at hle
    split at hle <;> simp at hle

/-- A client that asks for a stream, closes with `H3_REQUEST_CANCELLED`, then closes again and drops
everything. -/
def closeAsked : World MockConn :=
  (withBuffers false 4 4 8 none {} []).run mockConn
    [.front .openUni, .front (.close 0x10c [9, 9]), .front (.close 7 []), .front .dropConnection]

theorem closeAsked_reaches : closeAsked.ctl.lastHandleTeardown = false ∧
    closePlace (issued closeAsked.trace) = 1 ∧
    (∃ ans, closeCalls (closeAsked.run mockConn [.waitForData, .processWrites]).trace =
      [(0x10c, [9, 9], ans)]) := by
  have hx : closeAmong (issued closeAsked.trace) = some (0x10c, [9, 9]) := by decide +kernel
  refine ⟨by decide +kernel, by decide +kernel, ?_⟩
  exact close_reaches_transport mockConn false 4 4 8 none {} []
    [.front .openUni, .front (.close 0x10c [9, 9]), .front (.close 7 []), .front .dropConnection]
    [.waitForData, .processWrites] (by decide +kernel) hx (by decide +kernel)

end World

end QuicheH3
