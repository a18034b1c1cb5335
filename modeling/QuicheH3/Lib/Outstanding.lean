/-
# Outstanding obligations

Obligations are opened one after the other, each under a fresh number and with a size, and are
settled one by one in any order.  A counter, `load`, is raised when one is opened and lowered,
by a subtraction that stops at zero, when one is settled.

`Book` is the state of such an account together with its record, `Move` one entry of it.  The
invariant says that the counter is the total size of what is open, that it can be recomputed
from the record alone, that no subtraction ever stopped at zero, and that every obligation is
either open or settled once.  What may be opened at which load is left to a rule `ok`; under the
rule of a cap with one exception (`capRule`) the load is bounded by the cap or by the size of one
obligation that was opened when nothing else was.
-/
import Mathlib.Algebra.BigOperators.Group.Multiset.Basic
import Mathlib.Logic.Relation
import QuicheH3.Lib.Trace

namespace QuicheH3.Lib

/-! ## 1. The record -/

/-- One entry of a record, which is kept newest first. -/
inductive Deal
  | opened (t n : ℕ)
  | settled (t : ℕ)
  deriving DecidableEq

/-- The size under which `t` was opened. -/
def sizeIn (t : ℕ) : List Deal → ℕ
  | [] => 0
  | .opened t' n :: d => if t' = t then n else sizeIn t d
  | .settled _ :: d => sizeIn t d

/-- The load after a record. -/
def replay : List Deal → ℕ
  | [] => 0
  | .opened _ n :: d => replay d + n
  | .settled t :: d => replay d - sizeIn t d

/-- An entry in its place: what is opened is new and admitted at the load it meets, what is
settled was not settled before and does not exceed the load. -/
def Lawful (ok : ℕ → ℕ → Prop) : Deal → List Deal → Prop
  | .opened t n, pre => ok (replay pre) n ∧ ∀ m, .opened t m ∉ pre
  | .settled t, pre => sizeIn t pre ≤ replay pre ∧ .settled t ∉ pre

/-! ## 2. The account -/

/-- What is open, the load it makes up, the next name, and the deals so far. -/
structure Book where
  pending : Multiset (ℕ × ℕ)
  load : ℕ
  next : ℕ
  deals : List Deal

namespace Book

/-- One entry.  Numbers may be skipped. -/
inductive Move (ok : ℕ → ℕ → Prop) (b : Book) : Book → Prop
  | skip (k : ℕ) (hk : b.next ≤ k) : Move ok b { b with next := k }
  | opened (n : ℕ) (hn : ok b.load n) :
      Move ok b ⟨(b.next, n) ::ₘ b.pending, b.load + n, b.next + 1, .opened b.next n :: b.deals⟩
  | settled (t n : ℕ) (P : Multiset (ℕ × ℕ)) (hp : b.pending = (t, n) ::ₘ P) :
      Move ok b ⟨P, b.load - n, b.next, .settled t :: b.deals⟩

abbrev Moves (ok : ℕ → ℕ → Prop) : Book → Book → Prop := Relation.ReflTransGen (Move ok)

/-- The load is that of the open deals, and the record tells the same. -/
structure Inv (ok : ℕ → ℕ → Prop) (b : Book) : Prop where
  total : b.load = (b.pending.map Prod.snd).sum
  replay : b.load = replay b.deals
  fresh : ∀ t n, .opened t n ∈ b.deals → t < b.next
  open_mem : ∀ x ∈ b.pending, .opened x.1 x.2 ∈ b.deals
  size : ∀ t n, .opened t n ∈ b.deals → sizeIn t b.deals = n
  once : ∀ t n, .opened t n ∈ b.deals →
    b.deals.count (.settled t) + (b.pending.map Prod.fst).count t = 1
  only : ∀ t, .settled t ∈ b.deals → ∃ n, .opened t n ∈ b.deals
  lawful : Always (Lawful ok) b.deals

variable {ok : ℕ → ℕ → Prop} {b b' : Book}

theorem inv_empty (k : ℕ) : Inv ok ⟨0, 0, k, []⟩ := by
  refine ⟨rfl, rfl, ?_, ?_, ?_, ?_, ?_, trivial⟩ <;> simp

/-- A number not opened yet is neither open nor settled. -/
theorem Inv.unused (h : Inv ok b) : b.deals.count (.settled b.next) = 0 ∧
    (b.pending.map Prod.fst).count b.next = 0 := by
  constructor
  · refine List.count_eq_zero.mpr fun hs => ?_
    obtain ⟨n, hn⟩ := h.only _ hs
    exact absurd (h.fresh _ n hn) (lt_irrefl _)
  · refine Multiset.count_eq_zero.mpr fun hp => ?_
    obtain ⟨x, hx, hxt⟩ := Multiset.mem_map.mp hp
    exact absurd (h.fresh _ _ (h.open_mem x hx)) (by rw [hxt]; exact lt_irrefl _)

theorem Inv.opened (h : Inv ok b) (n : ℕ) (hn : ok b.load n) :
    Inv ok ⟨(b.next, n) ::ₘ b.pending, b.load + n, b.next + 1, .opened b.next n :: b.deals⟩ := by
  obtain ⟨hcs, hcp⟩ := h.unused
  -- an entry that was there before has another number
  have hne : ∀ t m, .opened t m ∈ b.deals → t ≠ b.next := fun t m hm he =>
    absurd (h.fresh t m hm) (by omega)
  refine ⟨?_, ?_, ?_, ?_, ?_, ?_, ?_, ⟨?_, fun m hm => hne _ m hm rfl⟩, h.lawful⟩
  · simp only [Multiset.map_cons, Multiset.sum_cons, h.total]
    omega
  · change b.load + n = Lib.replay b.deals + n
    rw [← h.replay]
  · intro t m hm
    rcases List.mem_cons.mp hm with he | hm
    · cases he
      exact Nat.lt_succ_self _
    · exact Nat.lt_succ_of_lt (h.fresh t m hm)
  · intro x hx
    rcases Multiset.mem_cons.mp hx with rfl | hx
    · exact List.mem_cons_self
    · exact List.mem_cons_of_mem _ (h.open_mem x hx)
  · intro t m hm
    rcases List.mem_cons.mp hm with he | hm
    · cases he
      exact if_pos rfl
    · exact (if_neg (hne t m hm).symm).trans (h.size t m hm)
  · intro t m hm
    have hkeep : (Deal.opened b.next n :: b.deals).count (.settled t) =
        b.deals.count (.settled t) := List.count_cons_of_ne (by simp)
    rcases List.mem_cons.mp hm with he | hm
    · cases he
      rw [hkeep, hcs, Multiset.map_cons, Multiset.count_cons_self, hcp]
    · rw [hkeep, Multiset.map_cons, Multiset.count_cons_of_ne (hne t m hm)]
      exact h.once t m hm
  · intro t ht
    rcases List.mem_cons.mp ht with he | ht
    · cases he
    · obtain ⟨m, hm⟩ := h.only t ht
      exact ⟨m, List.mem_cons_of_mem _ hm⟩
  · rw [← h.replay]
    exact hn

theorem Inv.settled (h : Inv ok b) {t n : ℕ} {P : Multiset (ℕ × ℕ)}
    (hp : b.pending = (t, n) ::ₘ P) :
    Inv ok ⟨P, b.load - n, b.next, .settled t :: b.deals⟩ := by
  have hmem : .opened t n ∈ b.deals := h.open_mem (t, n)
    (by rw [hp]; exact Multiset.mem_cons_self _ _)
  have hsize : sizeIn t b.deals = n := h.size t n hmem
  have htotal : b.load = n + (P.map Prod.snd).sum := by
    rw [h.total, hp, Multiset.map_cons, Multiset.sum_cons]
  have hfirst : b.deals.count (.settled t) = 0 := by
    have h1 := h.once t n hmem
    rw [hp, Multiset.map_cons, Multiset.count_cons_self] at h1
    omega
  have hold {t' m : ℕ} (hm : .opened t' m ∈ Deal.settled t :: b.deals) :
      .opened t' m ∈ b.deals := by
    rcases List.mem_cons.mp hm with he | hm
    · cases he
    · exact hm
  refine ⟨?_, ?_, fun t' m hm => h.fresh t' m (hold hm), ?_, ?_, ?_, ?_, ⟨?_, ?_⟩, h.lawful⟩
  · change b.load - n = (P.map Prod.snd).sum
    omega
  · change b.load - n = Lib.replay b.deals - sizeIn t b.deals
    rw [hsize, ← h.replay]
  · intro x hx
    exact List.mem_cons_of_mem _ (h.open_mem x (by rw [hp]; exact Multiset.mem_cons_of_mem hx))
  · exact fun t' m hm => h.size t' m (hold hm)
  · intro t' m hm
    have h1 := h.once t' m (hold hm)
    rw [hp, Multiset.map_cons] at h1
    by_cases he : t' = t
    · subst he
      rw [Multiset.count_cons_self] at h1
      rw [List.count_cons_self]
      change b.deals.count (.settled t') + 1 + (P.map Prod.fst).count t' = 1
      omega
    · rw [Multiset.count_cons_of_ne he] at h1
      rw [List.count_cons_of_ne (by simpa using fun e : t = t' => he e.symm)]
      exact h1
  · intro t' ht
    rcases List.mem_cons.mp ht with he | ht
    · cases he
      exact ⟨n, List.mem_cons_of_mem _ hmem⟩
    · obtain ⟨m, hm⟩ := h.only t' ht
      exact ⟨m, List.mem_cons_of_mem _ hm⟩
  · rw [hsize, ← h.replay]
    omega
  · exact List.count_eq_zero.mp hfirst

theorem Inv.move (h : Inv ok b) (hm : Move ok b b') : Inv ok b' := by
  cases hm with
  | skip k hk =>
    exact ⟨h.total, h.replay, fun t n ht => (h.fresh t n ht).trans_le hk, h.open_mem, h.size,
      h.once,
      h.only, h.lawful⟩
  | opened n hn => exact h.opened n hn
  | settled t n P hp => exact h.settled hp

theorem Inv.moves (h : Inv ok b) (hm : Moves ok b b') : Inv ok b' := by
  induction hm with
  | refl => exact h
  | tail _ hm ih => exact ih.move hm

/-- What is settled was opened before. -/
def Due (d : Deal) (pre : List Deal) : Prop := ∀ t, d = .settled t → ∃ n, .opened t n ∈ pre

theorem Inv.due (h : Inv ok b) (hd : Always Due b.deals) (hm : Moves ok b b') :
    Always Due b'.deals := by
  induction hm with
  | refl => exact hd
  | @tail b1 b2 hms hm ih =>
    cases hm with
    | skip k hk => exact ih
    | opened n hn => exact ⟨nofun, ih⟩
    | settled t n P hp =>
      refine ⟨fun t' ht => ?_, ih⟩
      cases ht
      exact ⟨n, (h.moves hms).open_mem (t, n) (by rw [hp]; exact Multiset.mem_cons_self _ _)⟩

/-! ## 3. A cap with one exception -/

/-- What fits under the cap may be opened, and anything when nothing is loaded. -/
def capRule (cap load n : ℕ) : Prop := n = 0 ∨ load = 0 ∨ load + n ≤ cap

/-- The load is at most the cap, or it is the size of one obligation opened at load zero. -/
def Bounded (cap : ℕ) (b : Book) : Prop :=
  b.load ≤ cap ∨ ∃ t n, (t, n) ∈ b.pending ∧ b.load = n ∧
    ∃ post pre, b.deals = post ++ .opened t n :: pre ∧ Lib.replay pre = 0

theorem Bounded.move {cap : ℕ} (hok : ∀ l n, ok l n → capRule cap l n) (hi : Inv ok b)
    (h : Bounded cap b) (hm : Move ok b b') : Bounded cap b' := by
  cases hm with
  | skip k hk => exact h
  | opened n hn =>
    rcases hok _ _ hn with rfl | h0 | hc
    · rcases h with h | ⟨t, m, hp, hl, post, pre, hd, hz⟩
      · exact .inl h
      · exact .inr ⟨t, m, Multiset.mem_cons_of_mem hp, hl, .opened b.next 0 :: post, pre,
          by simp [hd], hz⟩
    · exact .inr ⟨b.next, n, Multiset.mem_cons_self _ _, by simp [h0], [], b.deals, rfl,
        hi.replay.symm.trans h0⟩
    · exact .inl hc
  | settled t n P hp =>
    rcases h with h | ⟨t', m, hp', hl, post, pre, hd, hz⟩
    · exact .inl ((Nat.sub_le _ _).trans h)
    · have htotal := hi.total
      rw [hp, Multiset.map_cons, Multiset.sum_cons] at htotal
      rw [hp] at hp'
      rcases Multiset.mem_cons.mp hp' with he | hP
      · -- the one obligation itself
        cases he
        exact .inl (by change b.load - n ≤ cap; omega)
      · -- another one, which has no size
        have hle : m ≤ (P.map Prod.snd).sum := by
          obtain ⟨Q, rfl⟩ := Multiset.exists_cons_of_mem hP
          rw [Multiset.map_cons, Multiset.sum_cons]
          exact Nat.le_add_right _ _
        refine .inr ⟨t', m, hP, ?_, .settled t :: post, pre, by simp [hd], hz⟩
        change b.load - n = m
        omega

theorem Bounded.moves {cap : ℕ} (hok : ∀ l n, ok l n → capRule cap l n) (hi : Inv ok b)
    (h : Bounded cap b) (hm : Moves ok b b') : Bounded cap b' := by
  induction hm with
  | refl => exact h
  | tail hms hm ih => exact ih.move hok (hi.moves hms) hm

end Book

end QuicheH3.Lib
