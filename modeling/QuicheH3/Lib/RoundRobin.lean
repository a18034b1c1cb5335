/-
# Waiting in a queue with a membership set

An element that is queued waits for those in front of it and for nobody else: pushes go to the
tail, a removal from the middle only shortens the wait, a pop takes the element in front.  So
whoever is served while `x` waits stood in front of `x` when the wait began, and is served at
most once and in that order.

`Waits` is that fact with its bookkeeping: those served since, followed by those still in front,
are a sublist of those that were in front at the start.  No invariant of the queue is needed.
-/
import QuicheH3.Lib.OnceQueue

namespace QuicheH3.Lib.OnceQueue

variable {α : Type} {q q' : OnceQueue α} {x y : α} {ahead served : List α}

/-- `x` waits in `q`: it was put behind `ahead`, and `served` were taken since, oldest first. -/
def Waits (q : OnceQueue α) (x : α) (ahead served : List α) : Prop :=
  ∃ front post, q.queue = front ++ x :: post ∧ (served ++ front).Sublist ahead

theorem Waits.start {post : List α} (h : q.queue = ahead ++ x :: post) : Waits q x ahead [] :=
  ⟨ahead, post, h, List.Sublist.refl _⟩

theorem Waits.mem (h : Waits q x ahead served) : x ∈ q.queue := by
  obtain ⟨front, post, hq, -⟩ := h
  rw [hq]
  exact List.mem_append_right _ List.mem_cons_self

/-- Those served since stood in front, in that order. -/
theorem Waits.served_sublist (h : Waits q x ahead served) : served.Sublist ahead := by
  obtain ⟨front, -, -, hs⟩ := h
  exact (List.sublist_append_left served front).trans hs

variable [DecidableEq α]

theorem Waits.push (h : Waits q x ahead served) (y : α) : Waits (q.push y) x ahead served := by
  obtain ⟨front, post, hq, hs⟩ := h
  unfold OnceQueue.push
  split
  · exact ⟨front, post, hq, hs⟩
  · refine ⟨front, post ++ [y], ?_, hs⟩
    rw [hq, List.append_assoc, List.cons_append]

theorem Waits.drop (h : Waits q x ahead served) (hne : x ≠ y) :
    Waits (q.drop y) x ahead served := by
  obtain ⟨front, post, hq, hs⟩ := h
  unfold OnceQueue.drop
  split
  · refine ⟨front.filter (· ≠ y), post.filter (· ≠ y), ?_, ?_⟩
    · dsimp only
      rw [hq, List.filter_append, List.filter_cons_of_pos (by simpa using hne)]
    · exact (List.filter_sublist.append_left served).trans hs
  · exact ⟨front, post, hq, hs⟩

omit [DecidableEq α] in
/-- Whoever stands at the head is `x` itself or was in front of it. -/
theorem Waits.head_mem {rest : List α} (h : Waits q x ahead served) (hq : q.queue = y :: rest)
    (hne : y ≠ x) : y ∈ ahead := by
  obtain ⟨front, post, hf, hs⟩ := h
  rw [hf] at hq
  cases front with
  | nil => exact absurd (List.cons.inj hq).1.symm hne
  | cons z front =>
    rw [List.cons_append] at hq
    obtain ⟨rfl, -⟩ := List.cons.inj hq
    exact hs.subset (List.mem_append_right _ List.mem_cons_self)

theorem Waits.pop (h : Waits q x ahead served) (hp : q.pop = some (y, q')) (hne : y ≠ x) :
    Waits q' x ahead (served ++ [y]) := by
  obtain ⟨front, post, hq, hs⟩ := h
  rw [queue_of_pop hp] at hq
  cases front with
  | nil => exact absurd (List.cons.inj hq).1 hne
  | cons z front =>
    rw [List.cons_append] at hq
    obtain ⟨rfl, hrest⟩ := List.cons.inj hq
    refine ⟨front, post, hrest, ?_⟩
    rw [List.append_assoc, List.singleton_append]
    exact hs

end QuicheH3.Lib.OnceQueue
