/-
# A queue with a membership set

A FIFO of identifiers kept together with the set of identifiers queued, so that an identifier
is queued at most once and membership is a constant-time test.  `push` does nothing for a
member, `drop` removes an identifier wherever it stands, `pop` takes the oldest one.

`Synced` is the invariant: the queue has no duplicate and the set holds exactly its elements.
The operations do not check it, each of them keeps it.
-/
import Mathlib.Data.Finset.Dedup
import Mathlib.Data.Finset.Insert
import Mathlib.Data.Finset.Erase

namespace QuicheH3.Lib

/-- A queue and the set of its members, which keeps each of them single. -/
structure OnceQueue (α : Type) where
  queue : List α
  members : Finset α

namespace OnceQueue

variable {α : Type} [DecidableEq α]

def empty : OnceQueue α := ⟨[], ∅⟩

/-- Queue `x` at the tail, unless it is queued already. -/
def push (q : OnceQueue α) (x : α) : OnceQueue α :=
  if x ∈ q.members then q else ⟨q.queue ++ [x], insert x q.members⟩

/-- Remove `x` wherever it is queued. -/
def drop (q : OnceQueue α) (x : α) : OnceQueue α :=
  if x ∈ q.members then ⟨q.queue.filter (· ≠ x), q.members.erase x⟩ else q

/-- Take the oldest element. -/
def pop (q : OnceQueue α) : Option (α × OnceQueue α) :=
  match q.queue with
  | [] => none
  | x :: rest => some (x, ⟨rest, q.members.erase x⟩)

/-- No duplicate, and the set is the set of queued elements. -/
structure Synced (q : OnceQueue α) : Prop where
  nodup : q.queue.Nodup
  mem_iff : ∀ x, x ∈ q.members ↔ x ∈ q.queue

omit [DecidableEq α] in
theorem synced_empty : (empty : OnceQueue α).Synced := ⟨List.nodup_nil, by simp [empty]⟩

theorem Synced.push {q : OnceQueue α} (h : q.Synced) (x : α) : (q.push x).Synced := by
  unfold OnceQueue.push
  split
  · exact h
  · rename_i hx
    have hq : x ∉ q.queue := fun hm => hx ((h.mem_iff x).mpr hm)
    refine ⟨?_, fun y => ?_⟩
    · exact List.Nodup.append h.nodup (List.nodup_singleton x) (List.disjoint_singleton.mpr hq)
    · simp only [Finset.mem_insert, List.mem_append, List.mem_singleton, h.mem_iff y]
      exact or_comm

theorem Synced.drop {q : OnceQueue α} (h : q.Synced) (x : α) : (q.drop x).Synced := by
  unfold OnceQueue.drop
  split
  · refine ⟨h.nodup.filter _, fun y => ?_⟩
    simp only [Finset.mem_erase, List.mem_filter, decide_eq_true_eq, h.mem_iff y]
    exact and_comm
  · exact h

theorem Synced.pop {q q' : OnceQueue α} {x : α} (h : q.Synced) (hp : q.pop = some (x, q')) :
    q'.Synced := by
  obtain ⟨queue, members⟩ := q
  cases queue with
  | nil => simp [OnceQueue.pop] at hp
  | cons y rest =>
    simp only [OnceQueue.pop, Option.some.injEq, Prod.mk.injEq] at hp
    obtain ⟨rfl, rfl⟩ := hp
    have hnd := List.nodup_cons.mp h.nodup
    refine ⟨hnd.2, fun z => ?_⟩
    have hz := h.mem_iff z
    simp only [List.mem_cons] at hz
    simp only [Finset.mem_erase, hz]
    constructor
    · rintro ⟨hne, rfl | hz'⟩
      · exact absurd rfl hne
      · exact hz'
    · exact fun hz' => ⟨fun e => hnd.1 (e ▸ hz'), Or.inr hz'⟩

theorem drop_of_not_mem {q : OnceQueue α} {x : α} (h : x ∉ q.members) : q.drop x = q := by
  unfold OnceQueue.drop
  rw [if_neg h]

theorem drop_drop (q : OnceQueue α) (x : α) : (q.drop x).drop x = q.drop x := by
  refine drop_of_not_mem ?_
  unfold OnceQueue.drop
  split
  · exact Finset.notMem_erase _ _
  · assumption

theorem not_mem_of_pop {q q' : OnceQueue α} {x : α} (hp : q.pop = some (x, q')) :
    x ∉ q'.members := by
  unfold OnceQueue.pop at hp
  split at hp
  · cases hp
  · cases hp
    exact Finset.notMem_erase _ _

theorem mem_push_of_mem {q : OnceQueue α} {y : α} (h : y ∈ q.queue) (x : α) :
    y ∈ (q.push x).queue := by
  unfold push
  split
  · exact h
  · exact List.mem_append_left _ h

theorem mem_of_mem_drop {q : OnceQueue α} {x y : α} (h : y ∈ (q.drop x).queue) : y ∈ q.queue := by
  unfold drop at h
  split at h
  · exact List.mem_of_mem_filter h
  · exact h

theorem mem_drop_of_ne {q : OnceQueue α} {x y : α} (h : y ∈ q.queue) (hne : y ≠ x) :
    y ∈ (q.drop x).queue := by
  unfold drop
  split
  · exact List.mem_filter.mpr ⟨h, by simpa using hne⟩
  · exact h

/-- Only an element that is no member survives its own removal. -/
theorem not_mem_of_mem_drop {q : OnceQueue α} {x : α} (h : x ∈ (q.drop x).queue) :
    x ∉ q.members := by
  unfold drop at h
  split at h
  · simp at h
  · assumption

/-- One use of a queue. -/
inductive Use (q : OnceQueue α) : OnceQueue α → Prop
  | push (x : α) : Use q (q.push x)
  | drop (x : α) : Use q (q.drop x)
  | pop {x : α} {q' : OnceQueue α} (h : q.pop = some (x, q')) : Use q q'

theorem Synced.use {q q' : OnceQueue α} (h : q.Synced) (hu : q.Use q') : q'.Synced := by
  cases hu with
  | push x => exact h.push x
  | drop x => exact h.drop x
  | pop hp => exact h.pop hp

/-! How many are queued after each operation, for any queue. -/

theorem length_push_le (q : OnceQueue α) (x : α) :
    (q.push x).queue.length ≤ q.queue.length + 1 := by
  unfold push
  split
  · exact Nat.le_succ _
  · simp

theorem length_drop_le (q : OnceQueue α) (x : α) : (q.drop x).queue.length ≤ q.queue.length := by
  unfold drop
  split
  · exact List.length_filter_le _ _
  · exact Nat.le_refl _

theorem queue_of_pop {q q' : OnceQueue α} {x : α} (hp : q.pop = some (x, q')) :
    q.queue = x :: q'.queue := by
  unfold pop at hp
  split at hp
  · cases hp
  · rename_i hq
    cases hp
    exact hq

theorem length_pop {q q' : OnceQueue α} {x : α} (hp : q.pop = some (x, q')) :
    q.queue.length = q'.queue.length + 1 := by
  rw [queue_of_pop hp, List.length_cons]

theorem pop_eq_none {q : OnceQueue α} : q.pop = none ↔ q.queue = [] := by
  unfold pop
  split <;> simp_all

/-! What the set holds after each operation, for any queue. -/

/-- The membership test. -/
def has (q : OnceQueue α) (x : α) : Bool := decide (x ∈ q.members)

@[simp] theorem has_push_self (q : OnceQueue α) (x : α) : (q.push x).has x = true := by
  unfold push has
  split
  · simpa
  · simp

theorem has_push_ne (q : OnceQueue α) {x y : α} (h : y ≠ x) : (q.push x).has y = q.has y := by
  unfold push has
  split
  · rfl
  · simp [h]

@[simp] theorem has_drop_self (q : OnceQueue α) (x : α) : (q.drop x).has x = false := by
  unfold drop has
  split
  · simp
  · simpa

theorem has_drop_ne (q : OnceQueue α) {x y : α} (h : y ≠ x) : (q.drop x).has y = q.has y := by
  unfold drop has
  split
  · simp [h]
  · rfl

theorem has_pop_self {q q' : OnceQueue α} {x : α} (hp : q.pop = some (x, q')) :
    q'.has x = false := by
  unfold pop at hp
  split at hp
  · cases hp
  · cases hp
    simp [has]

theorem has_pop_ne {q q' : OnceQueue α} {x y : α} (hp : q.pop = some (x, q')) (h : y ≠ x) :
    q'.has y = q.has y := by
  unfold pop at hp
  split at hp
  · cases hp
  · cases hp
    simp [has, h]

theorem Synced.has_iff {q : OnceQueue α} (h : q.Synced) (x : α) : q.has x = true ↔ x ∈ q.queue := by
  rw [has, decide_eq_true_eq, h.mem_iff]

theorem Synced.mem_push {q : OnceQueue α} (h : q.Synced) (x y : α) :
    y ∈ (q.push x).queue ↔ y = x ∨ y ∈ q.queue := by
  unfold OnceQueue.push
  split
  · rename_i hx
    refine ⟨.inr, ?_⟩
    rintro (rfl | hy)
    · exact (h.mem_iff y).mp hx
    · exact hy
  · simp [or_comm]

/-- What is queued after pushing a list. -/
theorem Synced.mem_foldl_push {q : OnceQueue α} (h : q.Synced) (l : List α) (y : α) :
    y ∈ (l.foldl OnceQueue.push q).queue ↔ y ∈ l ∨ y ∈ q.queue := by
  induction l generalizing q with
  | nil => simp
  | cons x l ih =>
    rw [List.foldl_cons, ih (h.push x), h.mem_push, List.mem_cons]
    tauto

end OnceQueue

end QuicheH3.Lib
