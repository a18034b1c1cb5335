/-
# What becomes of an operation

The account of the operations (`Budget.Book`) knows an operation by its number, and whether it is
open or settled.  Here the settlement is read as what the submitter is told: a result, or nothing
at all (a completion dropped uncompleted).
-/
import QuicheH3.Budget.Conserved

namespace QuicheH3

open Lib

/-- What the event tells the submitter of operation `t`; `some none` is a completion dropped. -/
def Event.outcome (t : Nat) : Event → Option (Option (Except SendEnd Unit))
  | .resolve t' res => if t' = t then some (some res) else none
  | .cancel t' => if t' = t then some none else none
  | _ => none

/-- What the submitter of operation `t` was told, newest first. -/
def outcomes (t : Nat) (tr : List Event) : List (Option (Except SendEnd Unit)) :=
  tr.filterMap (Event.outcome t)

theorem outcomes_cons (t : Nat) (e : Event) (tr : List Event) :
    outcomes t (e :: tr) = (e.outcome t).toList ++ outcomes t tr := by
  unfold outcomes
  rw [List.filterMap_cons]
  cases e.outcome t <;> rfl

theorem outcomes_suffix {t : Nat} {tr tr' : List Event} (h : tr <:+ tr') :
    outcomes t tr <:+ outcomes t tr' := h.filterMap _

/-- An outcome is a settlement in the account. -/
theorem length_outcomes (t : Nat) (tr : List Event) :
    (outcomes t tr).length = (deals tr).count (.settled t) := by
  induction tr with
  | nil => rfl
  | cons e tr ih =>
    rw [outcomes_cons, List.length_append, ih]
    have hdeals : deals (e :: tr) = (e.deal).toList ++ deals tr := by
      unfold deals
      rw [List.filterMap_cons]
      cases e.deal <;> rfl
    rw [hdeals, List.count_append, Nat.add_right_cancel_iff]
    cases e with
    | resolve t' | cancel t' =>
      by_cases ht : t' = t
      · simp [Event.outcome, Event.deal, ht]
      · simp [Event.outcome, Event.deal, ht]
    | submit cmd =>
      simp only [Event.outcome, Event.deal]
      cases cmd.completion <;> simp
    | _ => rfl

namespace World

variable {σ : Type} {T : QuicConn σ} {w w' : World σ} {cap : Option Nat} {t : Nat}

/-- **What is completed or dropped was submitted before.** -/
theorem settled_submitted {isServer : Bool} {bidiCap uniCap depth : Nat} {c : σ}
    {script : List (List FrontAct)}
    (h : Books (withBuffers isServer bidiCap uniCap depth cap c script) 0 w 0) :
    Always (fun e pre => ∀ t, e.deal = some (.settled t) → ∃ i, Submitted t i pre) w.trace := by
  have h0 : ((withBuffers isServer bidiCap uniCap depth cap c script).book 0).Inv
      (budgetRule cap) := Book.inv_empty 0
  have hdue : Always Book.Due (deals w.trace) := h0.due trivial h.moves
  refine always_iff.mpr fun post e pre htr t ht => ?_
  have hdeals : deals w.trace = deals post ++ .settled t :: deals pre := by
    unfold deals
    rw [htr, List.filterMap_append, List.filterMap_cons_some ht]
  obtain ⟨n, hn⟩ := always_iff.mp hdue _ _ _ hdeals t rfl
  rcases mem_deals_opened hn with ⟨id, buf, permit, hm, -⟩ | ⟨-, id, hm⟩
  · exact ⟨id, _, hm, rfl, rfl⟩
  · exact ⟨id, _, hm, rfl, rfl⟩

/-- An operation has at most one outcome. -/
theorem outcomes_le_one (hi : (w.book 0).Inv (budgetRule cap)) :
    (outcomes t w.trace).length ≤ 1 := by
  rw [length_outcomes]
  by_contra hn
  have hmem : .settled t ∈ deals w.trace := List.count_pos_iff.mp (by omega)
  obtain ⟨n, hn'⟩ := hi.only t hmem
  have h1 : (deals w.trace).count (.settled t) + _ = 1 := hi.once t n hn'
  omega

/-- The first outcome stays the only one. -/
theorem outcomes_eq_of_suffix (hi : (w'.book 0).Inv (budgetRule cap)) {res : Except SendEnd Unit}
    (hs : .resolve t res ∈ w.trace) (hw : w.trace <:+ w'.trace) :
    outcomes t w'.trace = [some res] := by
  have hm : some res ∈ outcomes t w'.trace :=
    (outcomes_suffix hw).subset (List.mem_filterMap.mpr ⟨_, hs, if_pos rfl⟩)
  have hle := outcomes_le_one (t := t) hi
  match ho : outcomes t w'.trace with
  | [] => simp [ho] at hm
  | [x] => simpa [ho, eq_comm] using hm
  | x :: y :: l => simp [ho] at hle

end World

end QuicheH3
