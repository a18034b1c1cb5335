/-
# Waiting for send budget (`buffer.rs`, `stream.rs`)

With a finite cap a write that does not fit is stashed and its task parks.  Two parties race:

* a SENDER polls: `try_reserve`, and if that fails `register_waiter`, a second `try_reserve`, and
  `Pending`.  A sender that is admitted, or dropped, removes its waker from the map;
* a RELEASER drops a permit: it first decreases `resident` and then, under the lock of the map,
  drains it and wakes every waker it found.

Each access to `resident` and each critical section of the map is one step here, and the steps of
any number of senders and releasers come in any order.  A waker stands for a task; the flag
`woken` of a sender says that the waker it registered has been taken out and woken since.

A wake-up can be lost only between the refusal and the registration.  The second `try_reserve`
closes that window: it fails only while something is resident, so some permit of non-zero size is
still to be dropped, and the release of that permit will drain the map.
-/
import Mathlib.Algebra.BigOperators.Group.List.Basic
import Mathlib.Algebra.Ring.Nat
import QuicheH3.Driver.State

namespace QuicheH3

open Lib

/-! ## 1. Senders and releasers -/

/-- How far a send half is in the admission of `poll_ready`; `bytes` is the size of the write it
wants to send. -/
inductive SenderPc
  | idle
  | refused (bytes : Nat)
  | registered (bytes : Nat)
  | parked (bytes : Nat)
  | admitted
  | dropped
  deriving DecidableEq

/-- The sender has registered its waker for this write. -/
def SenderPc.waits : SenderPc → Option Nat
  | .registered bytes | .parked bytes => some bytes
  | _ => none

/-- The size of the write a sender is about. -/
def SenderPc.bytes : SenderPc → Option Nat
  | .refused bytes | .registered bytes | .parked bytes => some bytes
  | _ => none

/-- A sending task: where it is, its waker, and whether that was called. -/
structure Sender where
  pc : SenderPc
  waker : Nat
  woken : Bool
  deriving DecidableEq

/-- `SendAccounting`, the permits alive by size, the releases between their two steps by size,
and the senders by stream id. -/
structure SendAccounting where
  resident : Nat
  cap : Option Nat
  waiters : Map Nat
  permits : List Nat
  draining : List Nat
  senders : Nat → Sender

namespace SendAccounting

def new (cap : Option Nat) : SendAccounting :=
  ⟨0, cap, ∅, [], [], fun _ => ⟨.idle, 0, false⟩⟩

def setSender (a : SendAccounting) (id : Nat) (s : Sender) : SendAccounting :=
  { a with senders := Function.update a.senders id s }

/-- A `try_reserve` of sender `id`; `refusal` is where it goes on without a permit. -/
def reserve (a : SendAccounting) (id bytes waker : Nat) (refusal : Sender) : SendAccounting :=
  match tryReserve a.cap a.resident bytes with
  | some next =>
    { a with resident := next, permits := bytes :: a.permits }.setSender id
      ⟨.admitted, waker, (a.senders id).woken⟩
  | none => a.setSender id refusal

/-- `register_waiter`, a no-op without a cap.  A waker that would wake the same task stays. -/
def registerWaiter (a : SendAccounting) (id waker : Nat) : SendAccounting :=
  if a.cap.isNone then a else { a with waiters := a.waiters.insert id waker }

/-- `unregister_waiter`. -/
def unregisterWaiter (a : SendAccounting) (id : Nat) : SendAccounting :=
  if a.cap.isNone then a else { a with waiters := a.waiters.erase id }

/-- The atomic steps.  `poll` is a poll with a write to flush, up to its first `try_reserve`; a
parked sender polls again with the write it stashed. -/
inductive Act
  | poll (id bytes waker : Nat)
  | register (id : Nat)
  | retry (id : Nat)
  | unregister (id : Nat)
  | fail (id : Nat)
  | drop (id : Nat)
  | release (bytes : Nat)
  | drain (bytes : Nat)

/-- One step; a step that is not enabled does nothing. -/
def step (a : SendAccounting) : Act → SendAccounting
  | .poll id bytes waker =>
    match (a.senders id).pc with
    | .idle =>
      -- a `usize`
      if bytes < 2 ^ 64 then
        a.reserve id bytes waker ⟨.refused bytes, waker, (a.senders id).woken⟩
      else a
    | .parked bytes => a.reserve id bytes waker ⟨.refused bytes, waker, (a.senders id).woken⟩
    | _ => a
  | .register id =>
    match (a.senders id).pc with
    | .refused bytes =>
      (a.registerWaiter id (a.senders id).waker).setSender id
        ⟨.registered bytes, (a.senders id).waker, false⟩
    | _ => a
  | .retry id =>
    match (a.senders id).pc with
    | .registered bytes =>
      a.reserve id bytes (a.senders id).waker
        ⟨.parked bytes, (a.senders id).waker, (a.senders id).woken⟩
    | _ => a
  | .unregister id =>
    match (a.senders id).pc with
    | .admitted =>
      (a.unregisterWaiter id).setSender id ⟨.idle, (a.senders id).waker, (a.senders id).woken⟩
    | _ => a
  -- a poll that finds a terminal gives up the write, and leaves the map alone
  | .fail id =>
    match (a.senders id).pc with
    | .parked _ => a.setSender id ⟨.idle, (a.senders id).waker, (a.senders id).woken⟩
    | _ => a
  | .drop id =>
    match (a.senders id).pc with
    | .idle | .parked _ =>
      (a.unregisterWaiter id).setSender id ⟨.dropped, (a.senders id).waker, (a.senders id).woken⟩
    | _ => a
  | .release bytes =>
    if bytes ∈ a.permits then
      { a with
        resident := a.resident - bytes
        permits := a.permits.erase bytes
        draining := bytes :: a.draining }
    else a
  | .drain bytes =>
    if bytes ∈ a.draining then
      let a := { a with draining := a.draining.erase bytes }
      if a.cap.isNone then a
      else
        { a with
          waiters := ∅
          senders := fun id =>
            { a.senders id with
              woken := (a.senders id).woken ||
                decide (a.waiters.lookup id = some (a.senders id).waker) } }
    else a

def run (a : SendAccounting) (acts : List Act) : SendAccounting := acts.foldl step a

/-! ## 2. The invariant -/

/-- Some permit of non-zero size is alive, or its release has not drained the map yet. -/
def WakeupDue (a : SendAccounting) : Prop :=
  (∃ n ∈ a.permits, n ≠ 0) ∨ ∃ n ∈ a.draining, n ≠ 0

/-- The budget is what the permits took, and a parked sender will be woken. -/
structure Inv (a : SendAccounting) : Prop where
  capped : a.cap.isNone = false
  resident : a.resident = a.permits.sum
  small : ∀ id bytes, (a.senders id).pc.bytes = some bytes → bytes < 2 ^ 64
  inMap : ∀ id, (a.senders id).pc.waits.isSome → (a.senders id).woken = false →
    a.waiters.lookup id = some (a.senders id).waker
  due : ∀ id bytes, (a.senders id).pc = .parked bytes → (a.senders id).woken = false → WakeupDue a
  gone : ∀ id, (a.senders id).pc = .dropped → a.waiters.lookup id = none

variable {a : SendAccounting}

theorem inv_new (cap : Nat) : Inv (new (some cap)) where
  capped := rfl
  resident := rfl
  small _ _ h := nomatch h
  inMap _ h := nomatch h
  due _ _ h := nomatch h
  gone _ h := nomatch h

/-- One sender moves, and the map changes at most at its id. -/
theorem Inv.update (h : Inv a) (id : Nat) {m : Map Nat} {s : Sender}
    (hm : ∀ i, i ≠ id → m.lookup i = a.waiters.lookup i)
    (hsmall : ∀ bytes, s.pc.bytes = some bytes → bytes < 2 ^ 64)
    (hmap : s.pc.waits.isSome → s.woken = false → m.lookup id = some s.waker)
    (hdue : ∀ bytes, s.pc = .parked bytes → s.woken = false → WakeupDue a)
    (hgone : s.pc = .dropped → m.lookup id = none) :
    Inv ({ a with waiters := m }.setSender id s) := by
  refine ⟨h.capped, h.resident, fun i => ?_, fun i => ?_, fun i => ?_, fun i => ?_⟩
  all_goals
    by_cases hi : i = id
    · subst hi
      simp only [setSender, Function.update_self]
      first | exact hsmall | exact hmap | exact hdue | exact hgone
    · simp only [setSender, Function.update_of_ne hi, hm i hi]
      first | exact h.small i | exact h.inMap i | exact h.due i | exact h.gone i

theorem Inv.setSender (h : Inv a) (id : Nat) {s : Sender}
    (hsmall : ∀ bytes, s.pc.bytes = some bytes → bytes < 2 ^ 64)
    (hmap : s.pc.waits.isSome → s.woken = false → a.waiters.lookup id = some s.waker)
    (hdue : ∀ bytes, s.pc = .parked bytes → s.woken = false → WakeupDue a)
    (hgone : s.pc = .dropped → a.waiters.lookup id = none) : Inv (a.setSender id s) :=
  h.update id (fun _ _ => rfl) hsmall hmap hdue hgone

/-- A refusal means that a permit of non-zero size is alive. -/
theorem Inv.due_of_refused (h : Inv a) {bytes : Nat} (hb : bytes < 2 ^ 64)
    (hr : tryReserve a.cap a.resident bytes = none) : WakeupDue a := by
  left
  by_contra hno
  push Not at hno
  refine resident_ne_zero_of_refused hb hr ?_
  rw [h.resident]
  exact List.sum_eq_zero hno

/-- A `try_reserve`, with what has to hold where the sender goes on without a permit. -/
theorem Inv.reserve (h : Inv a) (id bytes waker : Nat) {refusal : Sender}
    (hr : tryReserve a.cap a.resident bytes = none → Inv (a.setSender id refusal)) :
    Inv (a.reserve id bytes waker refusal) := by
  unfold SendAccounting.reserve
  cases ht : tryReserve a.cap a.resident bytes with
  | none => exact hr ht
  | some next =>
    have hinv : Inv { a with resident := next, permits := bytes :: a.permits } := by
      refine ⟨h.capped, ?_, h.small, h.inMap, fun i b hp hw => ?_, h.gone⟩
      · rw [tryReserve_eq_some ht, h.resident, List.sum_cons, Nat.add_comm]
      · rcases h.due i b hp hw with ⟨n, hn, h0⟩ | hd
        · exact .inl ⟨n, List.mem_cons_of_mem _ hn, h0⟩
        · exact .inr hd
    exact hinv.setSender id (fun _ h => nomatch h) (fun h => nomatch h) (fun _ h => nomatch h)
      (fun h => nomatch h)

theorem Inv.poll (h : Inv a) (id bytes waker : Nat) : Inv (a.step (.poll id bytes waker)) := by
  have key (b : Nat) (hb : b < 2 ^ 64) :
      Inv (a.reserve id b waker ⟨.refused b, waker, (a.senders id).woken⟩) := by
    refine h.reserve id b waker fun _ => h.setSender id ?_ (fun h => nomatch h)
      (fun _ h => nomatch h) (fun h => nomatch h)
    rintro _ ⟨⟩
    exact hb
  dsimp only [SendAccounting.step]
  split
  · split
    · exact key bytes ‹_›
    · exact h
  · rename_i b hp
    exact key b (h.small id b (by rw [hp]; rfl))
  · exact h

theorem Inv.register (h : Inv a) (id : Nat) : Inv (a.step (.register id)) := by
  dsimp only [SendAccounting.step]
  split
  · rename_i bytes hp
    unfold registerWaiter
    rw [if_neg (by simp [h.capped])]
    refine h.update id (fun i hi => AList.lookup_insert_ne hi) ?_ (fun _ _ => AList.lookup_insert _)
      (fun _ h => nomatch h) (fun h => nomatch h)
    rintro _ ⟨⟩
    exact h.small id bytes (by rw [hp]; rfl)
  · exact h

theorem Inv.retry (h : Inv a) (id : Nat) : Inv (a.step (.retry id)) := by
  dsimp only [SendAccounting.step]
  split
  · rename_i bytes hp
    have hb : bytes < 2 ^ 64 := h.small id bytes (by rw [hp]; rfl)
    refine h.reserve id bytes _ fun hr => h.setSender id ?_ (fun _ hw => ?_) (fun _ _ _ => ?_)
      (fun h => nomatch h)
    · rintro _ ⟨⟩
      exact hb
    · exact h.inMap id (by rw [hp]; rfl) hw
    · exact h.due_of_refused hb hr
  · exact h

/-- The sender leaves and takes its waker along. -/
theorem Inv.leave (h : Inv a) (id : Nat) {pc : SenderPc} (hpc : pc = .idle ∨ pc = .dropped) :
    Inv ((a.unregisterWaiter id).setSender id
      ⟨pc, (a.senders id).waker, (a.senders id).woken⟩) := by
  unfold unregisterWaiter
  rw [if_neg (by simp [h.capped])]
  rcases hpc with rfl | rfl
  · exact h.update id (fun i hi => AList.lookup_erase_ne hi) (fun _ h => nomatch h)
      (fun h => nomatch h) (fun _ h => nomatch h) (fun h => nomatch h)
  · exact h.update id (fun i hi => AList.lookup_erase_ne hi) (fun _ h => nomatch h)
      (fun h => nomatch h) (fun _ h => nomatch h) (fun _ => AList.lookup_erase _ _)

theorem Inv.fail (h : Inv a) (id : Nat) : Inv (a.step (.fail id)) := by
  dsimp only [SendAccounting.step]
  split
  · exact h.setSender id (fun _ h => nomatch h) (fun h => nomatch h) (fun _ h => nomatch h)
      (fun h => nomatch h)
  · exact h

theorem Inv.release (h : Inv a) (bytes : Nat) : Inv (a.step (.release bytes)) := by
  dsimp only [SendAccounting.step]
  split
  · rename_i hb
    have hsum := List.sum_erase hb
    refine ⟨h.capped, ?_, h.small, h.inMap, fun i b hp hw => ?_, h.gone⟩
    · change a.resident - bytes = (a.permits.erase bytes).sum
      rw [h.resident]
      omega
    · -- the permit dropped here is now the release that still has to drain
      rcases h.due i b hp hw with ⟨n, hn, h0⟩ | ⟨n, hn, h0⟩
      · by_cases he : n = bytes
        · exact .inr ⟨n, he ▸ List.mem_cons_self, h0⟩
        · exact .inl ⟨n, (List.mem_erase_of_ne he).mpr hn, h0⟩
      · exact .inr ⟨n, List.mem_cons_of_mem _ hn, h0⟩
  · exact h

/-- Whoever waits is in the map, so the drain wakes it. -/
theorem Inv.drain (h : Inv a) (bytes : Nat) : Inv (a.step (.drain bytes)) := by
  dsimp only [SendAccounting.step]
  split
  · rw [if_neg (by simp [h.capped])]
    have hwoken (id : Nat) (hw : (a.senders id).pc.waits.isSome) :
        ((a.senders id).woken ||
          decide (a.waiters.lookup id = some (a.senders id).waker)) = true := by
      cases hk : (a.senders id).woken with
      | true => rfl
      | false => simp [h.inMap id hw hk]
    refine ⟨h.capped, h.resident, h.small, fun id hp hw => ?_, fun id b hp hw => ?_, fun _ _ => rfl⟩
    · exact absurd (hw.symm.trans (hwoken id hp)) Bool.false_ne_true
    · have hp' : (a.senders id).pc = .parked b := hp
      exact absurd (hw.symm.trans (hwoken id (by rw [hp']; rfl))) Bool.false_ne_true
  · exact h

theorem Inv.step (h : Inv a) (act : Act) : Inv (a.step act) := by
  cases act with
  | poll id bytes waker => exact h.poll id bytes waker
  | register id => exact h.register id
  | retry id => exact h.retry id
  | unregister id =>
    dsimp only [SendAccounting.step]
    split
    · exact h.leave id (.inl rfl)
    · exact h
  | fail id => exact h.fail id
  | drop id =>
    dsimp only [SendAccounting.step]
    split
    · exact h.leave id (.inr rfl)
    · exact h.leave id (.inr rfl)
    · exact h
  | release bytes => exact h.release bytes
  | drain bytes => exact h.drain bytes

theorem Inv.run (h : Inv a) (acts : List Act) : Inv (a.run acts) := by
  induction acts generalizing a with
  | nil => exact h
  | cons act acts ih => exact ih (h.step act)

/-! ## 3. No lost wake-up -/

/-- **No lost admission wake-up.**  In every state that senders and releasers can reach together
under a finite cap: a parked sender that was not woken since it registered has its waker in the
map, and a permit of non-zero size is alive or its release is still to drain the map; once
neither is the case every parked sender has been woken, and its write is admitted when it polls;
and the map never holds the id of a dropped stream. -/
theorem no_lost_admission_wakeup (cap : Nat) (acts : List Act) :
    (∀ id bytes, (((new (some cap)).run acts).senders id).pc = .parked bytes →
      (((new (some cap)).run acts).senders id).woken = false →
      ((new (some cap)).run acts).waiters.lookup id =
          some (((new (some cap)).run acts).senders id).waker ∧
        WakeupDue ((new (some cap)).run acts)) ∧
    (∀ id bytes, (((new (some cap)).run acts).senders id).pc = .parked bytes →
      ¬ WakeupDue ((new (some cap)).run acts) →
      (((new (some cap)).run acts).senders id).woken = true ∧
        tryReserve ((new (some cap)).run acts).cap ((new (some cap)).run acts).resident bytes ≠
          none) ∧
    ∀ id, (((new (some cap)).run acts).senders id).pc = .dropped →
      ((new (some cap)).run acts).waiters.lookup id = none := by
  have h := (inv_new cap).run acts
  generalize (new (some cap)).run acts = a at h
  refine ⟨fun id bytes hp hw => ?_, fun id bytes hp hno => ?_, h.gone⟩
  · exact ⟨h.inMap id (by rw [hp]; rfl) hw, h.due id bytes hp hw⟩
  · refine ⟨?_, fun hr => ?_⟩
    · by_contra hw
      exact hno (h.due id bytes hp (by simpa using hw))
    · exact hno (h.due_of_refused (h.small id bytes (by rw [hp]; rfl)) hr)

/-- A write of three bytes parks behind one of four and is woken by its release. -/
example :
    let a := (new (some 4)).run
      [.poll 0 4 10, .unregister 0, .poll 4 3 11, .register 4, .retry 4, .release 4]
    (a.senders 4).pc = .parked 3 ∧ (a.senders 4).woken = false ∧
      ((a.step (.drain 4)).senders 4).woken = true := by
  decide +kernel

end SendAccounting

end QuicheH3
