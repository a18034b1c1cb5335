/-
# The last handle is gone

When every handle of the connection is dropped the command channel ends, `wait_for_data` sees
its end once and the next acting iteration closes the connection.  From then on the worker is
to sleep until packets and timers have finished the connection: the receiver of the ended
channel must not be polled again, since it would answer at once and for ever.

What silences the wait is `graceful_close_issued`, and the barrier sets it only where it calls
`close`.  A transport that already HAS a terminal (the peer closed, the idle timer fired) keeps
the synthetic close from being called, so nothing silences the wait.
-/
import QuicheH3.Close.Barrier
import QuicheH3.Mock

namespace QuicheH3

open Lib

namespace World

variable {σ : Type} {T : QuicConn σ} {w w' : World σ}

theorem waitDecision_eq_pending : w.waitDecision = .pending ↔ w.ctl.gracefulCloseIssued = true := by
  unfold waitDecision
  split
  · simp [*]
  · split <;> simp [*]

theorem closeInv_reachable (hw : Reachable T w) : CloseInv w :=
  hw.induct T closeInv_withBuffers fun _ t h => h.tick t

/-- What the barrier leaves of `graceful_close_issued`, once the end of the channel was seen and
if the callback does not fail. -/
theorem issued_barrier (h : CloseInv w) (heof : w.ctl.lastHandleTeardown = true)
    (hok : (w.applyCloseBarrier T).ctl.closeBug = none) :
    (w.applyCloseBarrier T).ctl.gracefulCloseIssued = true ↔
      w.ctl.gracefulCloseIssued = true ∨ w.ctl.pendingClose.isSome = true ∧
        w.ctl.explicitCloseAttempted = false ∨ hasTerminal T w.ctl.qconn = false := by
  have hb := barrier (T := T) h
  generalize w.applyCloseBarrier T = w1 at hb hok
  cases hb with
  | idle hi =>
    constructor
    · exact .inl
    · rcases hi with ha | ⟨hp, ht⟩
      · intro _
        exact (h.issued ha).resolve_right (not_not.mpr hok)
      · rintro (hg | ⟨hs, -⟩ | hn)
        · exact hg
        · rw [hp] at hs
          cases hs
        · exact absurd ((ht heof).symm.trans hn) (by simp)
  | call code reason msg p ha hc hw =>
    refine ⟨fun _ => ?_, fun _ => ?_⟩
    · rcases hw with hs | hn
      · exact .inr (.inl ⟨hs, ha⟩)
      · exact .inr (.inr hn)
    · exact (callClose_issued _ code reason msg).resolve_right (not_not.mpr hok)

/-- **When the teardown is one-shot.**  The end of the command channel has been seen and an
acting iteration ran without error: every later wait stays pending, and never touches the ended
channel, exactly when a close had been issued before, or is staged when the barrier runs, or the
transport then has no terminal of its own. -/
theorem teardown_oneShot_iff (hw : Reachable T w) (heof : w.ctl.lastHandleTeardown = true)
    (hok : (w.doProcessWrites T).ctl.closeBug = none) :
    (∀ later : List (Tick σ),
      ((w.doProcessWrites T).run T later).waitDecision = .pending ∧
      ((w.doProcessWrites T).run T later).waitForData = (w.doProcessWrites T).run T later) ↔
    w.ctl.gracefulCloseIssued = true ∨
      (w.beforeBarrier T).ctl.pendingClose.isSome = true ∧
        w.ctl.explicitCloseAttempted = false ∨
      hasTerminal T (w.beforeBarrier T).ctl.qconn = false := by
  have h := closeInv_reachable hw
  have hu := beforeBarrier_unclosed (T := T) w
  have hiff := issued_barrier (T := T) (hu.inv h) (hu.teardown.trans heof) hok
  rw [hu.issued, hu.attempted] at hiff
  rw [← hiff]
  constructor
  · intro hall
    exact waitDecision_eq_pending.mp (hall []).1
  · intro hg later
    have hinv : CloseInv (w.doProcessWrites T) := h.tick .processWrites
    have hp := waitDecision_eq_pending.mpr (issued_run (T := T) hinv hg later)
    refine ⟨hp, ?_⟩
    unfold waitForData
    rw [hp]

/-- A client whose application drops its connection; the peer has said nothing. -/
def droppedClient (c : MockConn) : World MockConn :=
  (withBuffers false 4 4 8 none c []).run mockConn
    [.front .dropConnection, .front .closeAcceptBidi, .front .closeAcceptUni, .waitForData,
      .processWrites, .waitForData]

theorem droppedClient_oneShot : (droppedClient {}).ctl.lastHandleTeardown = true ∧
    ((droppedClient {}).doProcessWrites mockConn).ctl.closeBug = none ∧
    (((droppedClient {}).doProcessWrites mockConn).run mockConn []).waitDecision = .pending := by
  have heof : (droppedClient {}).ctl.lastHandleTeardown = true := by decide +kernel
  have hok : ((droppedClient {}).doProcessWrites mockConn).ctl.closeBug = none := by decide +kernel
  have hno :
      hasTerminal mockConn ((droppedClient {}).beforeBarrier mockConn).ctl.qconn = false := by
    decide +kernel
  have hreach : Reachable mockConn (droppedClient {}) := reachable_run ..
  exact ⟨heof, hok, ((teardown_oneShot_iff hreach heof hok).mpr (.inr (.inr hno)) []).1⟩

/-- The same client, but the peer has closed the connection before: the iteration after the end
of the channel runs without error and issues no close, so the next wait polls the ended channel
again, and so does every one after it. -/
theorem peerClosed_polls_again :
    let w := droppedClient { peerError := some ⟨true, h3NoError, []⟩ }
    w.ctl.lastHandleTeardown = true ∧ (w.doProcessWrites mockConn).ctl.closeBug = none ∧
    (w.doProcessWrites mockConn).waitDecision = .recv ∧
    (w.doProcessWrites mockConn).sh.senders = 0 ∧ (w.doProcessWrites mockConn).sh.cmdRx = [] ∧
    (((w.doProcessWrites mockConn).waitForData).doProcessWrites mockConn).waitDecision = .recv := by
  decide +kernel

end World

end QuicheH3
