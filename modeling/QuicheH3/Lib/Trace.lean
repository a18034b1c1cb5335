/-
# Histories, newest event first

A history variable records what happened as a list with the newest event at its head.  A safety
property of a run is then a property of one list: at every event, something holds of the event
and of what happened before it.  `Always` is that property.  It is kept by going back in time
(`Always.past`), which is why it can serve as an assumption in a proof by induction over a run.

Most steps say nothing to most properties.  `Grows C` relates a history to a later one that
differs by events of a class `C` only, and a query that does not look at `C` gives the same
answer before and after (`Blind.grows`).
-/
import Mathlib.Data.List.Basic

namespace QuicheH3.Lib

variable {ε α : Type} {P Q : ε → List ε → Prop} {C D : ε → Prop} {tr tr' tr'' : List ε}

/-! ## 1. Safety over a history -/

/-- `P e pre` holds at every event `e` of the history, with `pre` what happened before it. -/
def Always (P : ε → List ε → Prop) : List ε → Prop
  | [] => True
  | e :: pre => P e pre ∧ Always P pre

instance Always.decidable [∀ e pre, Decidable (P e pre)] : ∀ tr, Decidable (Always P tr)
  | [] => .isTrue trivial
  | _ :: pre => @instDecidableAnd _ _ _ (Always.decidable pre)

/-- What held along a history held along its past. -/
theorem Always.past : ∀ {post pre : List ε}, Always P (post ++ pre) → Always P pre
  | [], _, h => h
  | _ :: _, _, h => Always.past h.2

theorem Always.suffix (h : Always P tr') (hs : tr <:+ tr') : Always P tr := by
  obtain ⟨post, rfl⟩ := hs
  exact h.past

theorem Always.at {post pre : List ε} {e : ε} (h : Always P (post ++ e :: pre)) : P e pre :=
  h.past.1

theorem Always.mono (hPQ : ∀ e pre, P e pre → Q e pre) : ∀ {tr : List ε}, Always P tr → Always Q tr
  | [], _ => trivial
  | e :: pre, h => ⟨hPQ e pre h.1, Always.mono hPQ h.2⟩

/-- `Always`, event by event. -/
theorem always_iff : Always P tr ↔ ∀ post e pre, tr = post ++ e :: pre → P e pre := by
  constructor
  · rintro h post e pre rfl
    exact h.at
  · intro h
    induction tr with
    | nil => trivial
    | cons e pre ih =>
      refine ⟨h [] e pre rfl, ih fun post e' pre' hp => ?_⟩
      exact h (e :: post) e' pre' (by rw [hp, List.cons_append])

/-- A past in which an event has not happened lies before the event. -/
theorem suffix_past {post pre : List ε} {e : ε} (hs : tr <:+ post ++ e :: pre) (he : e ∉ tr) :
    tr <:+ pre := by
  obtain ⟨mid, hmid⟩ := hs
  rcases List.append_eq_append_iff.mp hmid with ⟨l, -, hl⟩ | ⟨l, -, hl⟩
  · exact absurd (hl ▸ List.mem_append_right _ List.mem_cons_self) he
  · cases l with
    | nil =>
      have htr : e :: pre = tr := hl
      exact absurd (htr ▸ List.mem_cons_self) he
    | cons x l => exact ⟨l, (List.cons.inj hl).2.symm⟩

/-- What never happens again after it has happened happens at most once. -/
theorem Always.count_le_one [DecidableEq ε] {x : ε} :
    ∀ {tr : List ε}, Always (fun e pre => e = x → x ∉ pre) tr → tr.count x ≤ 1
  | [], _ => Nat.zero_le 1
  | e :: pre, h => by
    by_cases he : e = x
    · subst he
      exact Nat.le_of_eq (by rw [List.count_cons_self, List.count_eq_zero_of_not_mem (h.1 rfl)])
    · rw [List.count_cons_of_ne he]
      exact Always.count_le_one h.2

/-! ## 2. Growth by events of a class -/

/-- `tr'` is `tr` and later events, all of class `C`. -/
def Grows (C : ε → Prop) (tr tr' : List ε) : Prop := ∃ evs, tr' = evs ++ tr ∧ ∀ e ∈ evs, C e

theorem Grows.refl (C : ε → Prop) (tr : List ε) : Grows C tr tr := ⟨[], rfl, by simp⟩

theorem Grows.cons {e : ε} (he : C e) (h : Grows C tr tr') : Grows C tr (e :: tr') := by
  obtain ⟨evs, rfl, hC⟩ := h
  exact ⟨e :: evs, rfl, by simpa [he] using hC⟩

theorem Grows.one {e : ε} (he : C e) : Grows C tr (e :: tr) := .cons he (.refl C tr)

theorem Grows.trans (h : Grows C tr tr') (h' : Grows C tr' tr'') : Grows C tr tr'' := by
  obtain ⟨evs, rfl, hC⟩ := h
  obtain ⟨evs', rfl, hC'⟩ := h'
  refine ⟨evs' ++ evs, by rw [List.append_assoc], fun e he => ?_⟩
  rcases List.mem_append.mp he with he | he
  · exact hC' e he
  · exact hC e he

theorem Grows.mono (hCD : ∀ e, C e → D e) (h : Grows C tr tr') : Grows D tr tr' := by
  obtain ⟨evs, rfl, hC⟩ := h
  exact ⟨evs, rfl, fun e he => hCD e (hC e he)⟩

theorem Grows.mem (h : Grows C tr tr') {e : ε} (he : e ∈ tr) : e ∈ tr' := by
  obtain ⟨evs, rfl, -⟩ := h
  exact List.mem_append_right _ he

/-- An event outside the class is no later one. -/
theorem Grows.mem_iff (h : Grows C tr tr') {e : ε} (he : ¬ C e) : e ∈ tr' ↔ e ∈ tr := by
  obtain ⟨evs, rfl, hC⟩ := h
  constructor
  · intro hm
    rcases List.mem_append.mp hm with hm | hm
    · exact absurd (hC e hm) he
    · exact hm
  · exact List.mem_append_right _

theorem Grows.old (h : Grows C tr tr') {e : ε} (hm : e ∈ tr') (he : ¬ C e) : e ∈ tr :=
  (h.mem_iff he).mp hm

theorem Grows.subset (h : Grows C tr tr') : tr ⊆ tr' := fun _ => h.mem

theorem Grows.suffix (h : Grows C tr tr') : tr <:+ tr' := by
  obtain ⟨evs, rfl, -⟩ := h
  exact ⟨evs, rfl⟩

theorem Grows.always (hC : ∀ e pre, C e → P e pre) (h : Grows C tr tr') (hP : Always P tr) :
    Always P tr' := by
  obtain ⟨evs, rfl, hE⟩ := h
  induction evs with
  | nil => exact hP
  | cons e evs ih =>
    exact ⟨hC _ _ (hE e List.mem_cons_self),
      ih fun e' he' => hE e' (List.mem_cons_of_mem _ he')⟩

/-- A query that does not look at events of class `C`. -/
def Blind (C : ε → Prop) (q : List ε → α) : Prop := ∀ e tr, C e → q (e :: tr) = q tr

theorem Blind.grows {q : List ε → α} (hq : Blind C q) (h : Grows C tr tr') : q tr' = q tr := by
  obtain ⟨evs, rfl, hC⟩ := h
  induction evs with
  | nil => rfl
  | cons e evs ih =>
    rw [List.cons_append, hq _ _ (hC e List.mem_cons_self)]
    exact ih fun e' he' => hC e' (List.mem_cons_of_mem _ he')

/-! ## 3. Reading a history off -/

/-- What `f` picks out of a stretch of history, oldest first. -/
def picked (f : ε → Option α) (evs : List ε) : List α := evs.reverse.filterMap f

theorem picked_append (f : ε → Option α) (evs evs' : List ε) :
    picked f (evs' ++ evs) = picked f evs ++ picked f evs' := by
  simp only [picked, List.reverse_append, List.filterMap_append]

theorem picked_cons (f : ε → Option α) (e : ε) (evs : List ε) :
    picked f (e :: evs) = picked f evs ++ (f e).toList := by
  cases h : f e <;> simp [picked, h]

theorem mem_picked {f : ε → Option α} {evs : List ε} {a : α} :
    a ∈ picked f evs ↔ ∃ e ∈ evs, f e = some a := by
  simp [picked]

/-- A query that picks nothing out of the events of a class does not look at them. -/
theorem blind_picked {f : ε → Option α} (hf : ∀ e, C e → f e = none) : Blind C (picked f) := by
  intro e tr he
  rw [picked_cons, hf e he, Option.toList_none, List.append_nil]

theorem picked_eq_nil {f : ε → Option α} {evs : List ε} (h : ∀ e ∈ evs, f e = none) :
    picked f evs = [] :=
  List.filterMap_eq_nil_iff.mpr fun e he => h e (List.mem_reverse.mp he)

end QuicheH3.Lib
