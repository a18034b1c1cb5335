/-
# Waiting for an idle endpoint (`wait_idle`)

A waiter arms its notification, reads `live` under the lock, returns if it is zero and suspends
otherwise; a guard that brings `live` to zero calls `notify_waiters` after it has released the
lock, and that call wakes every waiter armed before it.  The count may go down to zero and up again
any number of times between two steps of a waiter.

What is never lost is the obligation: a waiter suspends only after it read a count above zero, so
if it is zero now, the guard that brought it there has not notified since.
-/
import QuicheH3.Endpoint.Fence

namespace QuicheH3.Endpoint

variable {s : Endpoint}

/-- Who is suspended without a notification has a reason to be. -/
def Awake (s : Endpoint) : Prop :=
  ∀ t, s.waiters t = .suspended false → 0 < s.live ∨ 0 < s.notifying

theorem awake_init : Awake init := nofun

/-- The waiters are where they were, and the reason to wait is not gone. -/
theorem Awake.same {s' : Endpoint} (h : Awake s) (hw : s'.waiters = s.waiters)
    (hkeep : 0 < s.live ∨ 0 < s.notifying → 0 < s'.live ∨ 0 < s'.notifying) : Awake s' := by
  intro t ht
  rw [hw] at ht
  exact hkeep (h t ht)

theorem Awake.register (h : Awake s) (chan : Nat) : Awake (s.register chan) := by
  unfold Endpoint.register EndpointState.tryRegister
  cases s.closing with
  | true => exact h
  | false => exact h.same rfl fun _ => .inl (Nat.succ_pos _)

/-- A guard that brings the count to zero owes a notification. -/
theorem Awake.dropGuard (h : Awake s) (id : Nat) : Awake (s.dropGuard id) := by
  refine h.same rfl fun hkeep => ?_
  by_cases h0 : s.live - 1 = 0
  · right
    change 0 < if s.live - 1 = 0 then s.notifying + 1 else s.notifying
    rw [if_pos h0]
    exact Nat.succ_pos _
  · exact .inl (Nat.pos_of_ne_zero h0)

/-- Whoever is suspended was armed before the call, so it is notified. -/
theorem Awake.notify (s : Endpoint) (n : Nat) :
    Awake { s with notifying := n, waiters := fun t => (s.waiters t).notify } := by
  intro t ht
  have ht : (s.waiters t).notify = .suspended false := ht
  cases hw : s.waiters t with
  | suspended | idle | armed | returned =>
    rw [hw] at ht
    cases ht

theorem Awake.setWaiter (h : Awake s) (t : Nat) {pc : WaiterPc}
    (hpc : pc = .suspended false → 0 < s.live) : Awake (s.setWaiter t pc) := by
  intro t' ht'
  by_cases he : t' = t
  · rw [he] at ht'
    simp only [Endpoint.setWaiter, Function.update_self] at ht'
    exact .inl (hpc ht')
  · simp only [Endpoint.setWaiter, Function.update_of_ne he] at ht'
    exact h t' ht'

theorem Awake.check (h : Awake s) (t : Nat) : Awake (s.step (.check t)) := by
  dsimp only [Endpoint.step]
  split
  · refine h.setWaiter t fun hpc => ?_
    by_cases h0 : s.live = 0
    · rw [if_pos h0] at hpc
      cases hpc
    · exact Nat.pos_of_ne_zero h0
  · exact h

theorem Awake.step (h : Awake s) (act : Act) : Awake (s.step act) := by
  cases act with
  | register chan =>
    dsimp only [Endpoint.step]
    split
    · exact h.register chan
    · exact h
  | dropGuard id =>
    dsimp only [Endpoint.step]
    split
    · exact h.dropGuard id
    · exact h
  | notifyIdle =>
    dsimp only [Endpoint.step]
    split
    · exact h
    · exact Awake.notify s _
  | closeChannel chan => exact h.same rfl fun hk => hk
  | close | wakeAccept =>
    dsimp only [Endpoint.step]
    split
    · exact h.same rfl fun hk => hk
    · exact h
  | send t =>
    dsimp only [Endpoint.step]
    split
    · exact h.same rfl fun hk => hk
    · exact h.same rfl fun hk => hk
    · exact h
  | arm t | resume t =>
    dsimp only [Endpoint.step]
    split
    · exact h.setWaiter t nofun
    · exact h
  | check t => exact h.check t

theorem Awake.run (h : Awake s) (acts : List Act) : Awake (s.run acts) := by
  induction acts generalizing s with
  | nil => exact h
  | cons act acts ih => exact ih (h.step act)

/-- A waiter returns in the step that reads a count of zero. -/
theorem returned_step {act : Act} {t : Nat} (hbefore : s.waiters t ≠ .returned)
    (hafter : (s.step act).waiters t = .returned) :
    act = .check t ∧ (∃ notified, s.waiters t = .armed notified) ∧ s.live = 0 := by
  have hset {t' : Nat} (pc : WaiterPc) (hpc : pc ≠ .returned)
      (h : (s.setWaiter t' pc).waiters t = .returned) : False := by
    by_cases he : t = t'
    · rw [he] at h
      simp only [setWaiter, Function.update_self] at h
      exact hpc h
    · simp only [setWaiter, Function.update_of_ne he] at h
      exact hbefore h
  cases act with
  | check t' =>
    dsimp only [step] at hafter
    split at hafter
    · rename_i notified hw
      by_cases he : t = t'
      · subst he
        simp only [setWaiter, Function.update_self] at hafter
        by_cases h0 : s.live = 0
        · exact ⟨rfl, ⟨notified, hw⟩, h0⟩
        · rw [if_neg h0] at hafter
          cases hafter
      · simp only [setWaiter, Function.update_of_ne he] at hafter
        exact absurd hafter hbefore
    · exact absurd hafter hbefore
  | register chan =>
    dsimp only [step, register, EndpointState.tryRegister] at hafter
    split at hafter
    · split at hafter <;> exact absurd hafter hbefore
    · exact absurd hafter hbefore
  | notifyIdle =>
    dsimp only [step] at hafter
    split at hafter
    · exact absurd hafter hbefore
    · have hafter : (s.waiters t).notify = .returned := hafter
      cases hw : s.waiters t with
      | returned => exact absurd hw hbefore
      | idle | armed | suspended =>
        rw [hw] at hafter
        cases hafter
  | closeChannel chan => exact absurd hafter hbefore
  | arm t' =>
    dsimp only [step] at hafter
    split at hafter
    · exact (hset (.armed false) nofun hafter).elim
    · exact absurd hafter hbefore
  | resume t' =>
    dsimp only [step] at hafter
    split at hafter
    · exact (hset .idle nofun hafter).elim
    · exact absurd hafter hbefore
  | _ =>
    dsimp only [step] at hafter
    split at hafter <;> exact absurd hafter hbefore

/-- **`wait_idle` neither returns early nor sleeps through the idle edge.**  After any steps of any
number of waiters, guards and registrations, a caller that returns in the next step does so in a
check that reads `live = 0`; and while a caller is suspended and has not been notified, something
is registered, or a guard that reached zero has still to call `notify_waiters`. -/
theorem wait_idle_sound (acts : List Act) :
    let s := init.run acts
    (∀ act t, s.waiters t ≠ .returned → (s.step act).waiters t = .returned →
      act = .check t ∧ (∃ notified, s.waiters t = .armed notified) ∧ s.live = 0) ∧
    ∀ t, s.waiters t = .suspended false → 0 < s.live ∨ 0 < s.notifying :=
  ⟨fun _ _ => returned_step, awake_init.run acts⟩

end QuicheH3.Endpoint
