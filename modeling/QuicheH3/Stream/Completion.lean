/-
# The reusable write completion (`buffer.rs`)

A send half has ONE `WriteCompletion` for all its writes.  `begin` starts the next write: it bumps
the generation and then, under the lock of the slot, clears the slot.  The worker gets a
`WriteCompleter` stamped with the generation; completing it, or dropping it, installs an outcome
under the lock, provided the generation is still the current one and the slot is empty, and then
wakes the task.  `poll` registers the waker and then takes what the slot holds for its generation.

The generation is bumped OUTSIDE the lock, so a completer can find itself current, be overtaken by
the next `begin`, and store an outcome nobody asked for; the clear of that `begin` is then still to
come.  Every access is one step here, and the steps of the front end and of any number of
completers come in any order.

The generation is an `AtomicU64` whose `fetch_add` wraps: the write after 2^64 others has the
generation of the first, and a completer that was kept since then would be current again.  So what
is said of generations is said for fewer than 2^64 calls of `begin` on the cell; `begins` counts
them.

Contents
* §1  the cell and its operations
* §2  the front end, the completers and their steps
* §3  the invariant, step by step
* §4  what the front end gets
-/
import Mathlib.Algebra.Group.Nat.Defs
import Mathlib.Data.List.Basic
import Mathlib.Logic.Function.Basic

namespace QuicheH3

variable {ε : Type}

/-! ## 1. The cell -/

/-- What became of one write. -/
inductive WriteOutcome (ε : Type)
  | done (result : Except ε Unit)
  | cancelled

/-- `WriteCompletion`: the current generation, and an outcome with its own. -/
structure WriteCompletion (ε : Type) where
  generation : Nat
  slot : Option (Nat × WriteOutcome ε)

namespace WriteCompletion

def new : WriteCompletion ε := ⟨0, none⟩

/-- The generation after this one. -/
def next (c : WriteCompletion ε) : Nat := (c.generation + 1) % 2 ^ 64

/-- The `fetch_add` of `begin`. -/
def bump (c : WriteCompletion ε) : WriteCompletion ε := { c with generation := c.next }

/-- The second half of `begin`. -/
def clear (c : WriteCompletion ε) : WriteCompletion ε := { c with slot := none }

/-- `begin`: the cell, and the generation to stamp into the operation. -/
def begin (c : WriteCompletion ε) : WriteCompletion ε × Nat :=
  (c.bump.clear, c.next)

/-- The test of `set_if_current`. -/
def admits (c : WriteCompletion ε) (g : Nat) : Bool := c.generation == g && c.slot.isNone

def store (c : WriteCompletion ε) (g : Nat) (o : WriteOutcome ε) : WriteCompletion ε :=
  { c with slot := some (g, o) }

/-- `set_if_current`, undisturbed. -/
def setIfCurrent (c : WriteCompletion ε) (g : Nat) (o : WriteOutcome ε) : WriteCompletion ε :=
  if c.admits g then c.store g o else c

/-- What a `poll` of generation `g` reads under the lock; `none` is `Pending`. -/
def read (c : WriteCompletion ε) (g : Nat) : Option (WriteOutcome ε) :=
  match c.slot with
  | some (g', o) => if g' = g then some o else none
  | none => none

/-- `poll`: a value of its generation is taken. -/
def poll (c : WriteCompletion ε) (g : Nat) : Option (WriteOutcome ε) × WriteCompletion ε :=
  match c.read g with
  | some o => (some o, c.clear)
  | none => (none, c)

theorem next_of_lt {c : WriteCompletion ε} (h : c.generation + 1 < 2 ^ 64) :
    c.next = c.generation + 1 := Nat.mod_eq_of_lt h

theorem read_eq_some {c : WriteCompletion ε} {g : Nat} {o : WriteOutcome ε} :
    c.read g = some o ↔ c.slot = some (g, o) := by
  unfold read
  cases hs : c.slot with
  | none => simp
  | some p =>
    obtain ⟨g', o'⟩ := p
    by_cases hg : g' = g
    · simp [hg]
    · simp [hg]

theorem admits_iff {c : WriteCompletion ε} {g : Nat} :
    c.admits g = true ↔ c.generation = g ∧ c.slot = none := by
  simp [admits]

end WriteCompletion

/-! ## 2. The front end and the completers -/

/-- Where the front end is with the write of generation `g`. -/
inductive WriterPc
  -- no write in flight: the last outcome was consumed, or its enqueue failed
  | idle
  -- inside `begin`, the generation is bumped and the slot is still to be cleared
  | begun (g : Nat)
  -- `begin` returned, and the `Send` with the completer is about to be enqueued
  | stamped (g : Nat)
  | inFlight (g : Nat)
  -- inside `poll`, the waker is registered and the slot is still to be read
  | registered (g : Nat)
  -- the last `poll` returned `Pending`
  | pending (g : Nat)
  deriving DecidableEq

/-- The generation the front end is busy with. -/
def WriterPc.gen : WriterPc → Option Nat
  | .idle => none
  | .begun g | .stamped g | .inFlight g | .registered g | .pending g => some g

/-- Where the completer of one generation is.  `finished o current` keeps the outcome it was given
and whether its generation was the current one when it looked. -/
inductive CompleterPc (ε : Type)
  | absent
  | live
  -- found its generation current and the slot empty; it holds the lock
  | storing (o : WriteOutcome ε)
  -- stored, and still has to wake
  | waking (o : WriteOutcome ε)
  | finished (o : WriteOutcome ε) (current : Bool)

namespace CompleterPc

/-- The outcome the completer was completed, or dropped, with. -/
def outcome : CompleterPc ε → Option (WriteOutcome ε)
  | .absent | .live => none
  | .storing o | .waking o | .finished o _ => some o

/-- The outcome the completer has put into the slot. -/
def stored : CompleterPc ε → Option (WriteOutcome ε)
  | .waking o | .finished o true => some o
  | _ => none

theorem outcome_of_stored {p : CompleterPc ε} {o : WriteOutcome ε} (h : p.stored = some o) :
    p.outcome = some o := by
  cases p with
  | waking o' => exact h
  | finished o' c =>
    cases c with
    | false => cases h
    | true => exact h
  | _ => cases h

end CompleterPc

/-- The cell with everybody who uses it.  `woken` says that the waker of the last `poll` has been
woken since; `begins`, `returned` and `failed` record how often `begin` was called, what `poll`
returned and whose enqueue failed. -/
structure Writers (ε : Type) extends WriteCompletion ε where
  locked : Bool
  waker : Bool
  woken : Bool
  pc : WriterPc
  completers : Nat → CompleterPc ε
  begins : Nat
  returned : List (Nat × WriteOutcome ε)
  failed : List Nat

namespace Writers

def init : Writers ε :=
  { WriteCompletion.new with
    locked := false
    waker := false
    woken := false
    pc := .idle
    completers := fun _ => .absent
    begins := 0
    returned := []
    failed := [] }

/-- The cell as the front end and the completers see it. -/
abbrev cell (s : Writers ε) : WriteCompletion ε := s.toWriteCompletion

def setCell (s : Writers ε) (c : WriteCompletion ε) : Writers ε :=
  { s with toWriteCompletion := c }

def setCompleter (s : Writers ε) (g : Nat) (p : CompleterPc ε) : Writers ε :=
  { s with completers := Function.update s.completers g p }

/-- One step of the poller or of a completer. -/
inductive Act (ε : Type)
  | bump
  | clear
  | enqueue (ok : Bool)
  | register
  | take
  | complete (g : Nat) (result : Except ε Unit)
  | drop (g : Nat)
  | store (g : Nat)
  | wake (g : Nat)

/-- The start of `set_if_current`, up to its test: the lock is taken and kept if the test
succeeds. -/
def check (s : Writers ε) (g : Nat) (o : WriteOutcome ε) : Writers ε :=
  match s.completers g, s.locked with
  | .live, false =>
    if s.cell.admits g then { s with locked := true }.setCompleter g (.storing o)
    else s.setCompleter g (.finished o (s.generation == g))
  | _, _ => s

/-- One step; a step that is not enabled does nothing. -/
def step (s : Writers ε) : Act ε → Writers ε
  | .bump =>
    match s.pc with
    | .idle => { s.setCell s.cell.bump with pc := .begun s.cell.next, begins := s.begins + 1 }
    | _ => s
  | .clear =>
    match s.pc, s.locked with
    | .begun g, false => { (s.setCell s.cell.clear).setCompleter g .live with pc := .stamped g }
    | _, _ => s
  | .enqueue ok =>
    match s.pc with
    | .stamped g =>
      if ok then { s with pc := .inFlight g } else { s with pc := .idle, failed := g :: s.failed }
    | _ => s
  | .register =>
    match s.pc with
    | .inFlight g | .pending g => { s with pc := .registered g, waker := true, woken := false }
    | _ => s
  | .take =>
    match s.pc, s.locked with
    | .registered g, false =>
      match s.cell.read g with
      | some o => { s.setCell s.cell.clear with pc := .idle, returned := (g, o) :: s.returned }
      | none => { s with pc := .pending g }
    | _, _ => s
  | .complete g result => s.check g (.done result)
  | .drop g => s.check g .cancelled
  | .store g =>
    match s.completers g with
    | .storing o =>
      { (s.setCell (s.cell.store g o)).setCompleter g (.waking o) with locked := false }
    | _ => s
  | .wake g =>
    match s.completers g with
    | .waking o =>
      { s.setCompleter g (.finished o true) with waker := false, woken := s.woken || s.waker }
    | _ => s

def run (s : Writers ε) (acts : List (Act ε)) : Writers ε := acts.foldl step s

/-! ## 3. The invariant -/

structure Inv (s : Writers ε) : Prop where
  count : s.generation = s.begins
  gen : ∀ g, s.pc.gen = some g → g = s.generation
  -- a completer exists from the return of its `begin` on
  fresh : ∀ g, s.completers g ≠ .absent → g ≤ s.generation ∧ s.pc ≠ .begun g
  unlocked : s.locked = false → ∀ g o, s.completers g ≠ .storing o
  -- whoever holds the lock found the slot empty, and at most one `begin` has started since
  storing : ∀ g o, s.completers g = .storing o → s.slot = none ∧
    (∀ g' o', s.completers g' = .storing o' → g' = g) ∧
    (g = s.generation ∨ s.pc = .begun s.generation)
  slot : ∀ g o, s.slot = some (g, o) → (s.completers g).stored = some o ∧
    (g = s.generation ∨ s.pc = .begun s.generation) ∧ g ∉ s.returned.map Prod.fst
  returned : ∀ g o, (g, o) ∈ s.returned → (s.completers g).stored = some o ∧
    (g < s.generation ∨ s.pc = .idle)
  once : (s.returned.map Prod.fst).Nodup
  stored : ∀ g o, (s.completers g).stored = some o →
    s.slot = some (g, o) ∨ (g, o) ∈ s.returned ∨ g ∈ s.failed ∧ g < s.generation
  stale : ∀ g o, s.completers g = .finished o false → g < s.generation
  -- a write is given up only with its outcome, or because its enqueue failed
  settled : ∀ g, s.completers g ≠ .absent → g < s.generation ∨ s.pc = .idle →
    g ∈ s.failed ∨ g ∈ s.returned.map Prod.fst
  armed : ∀ g, s.pc = .registered g ∨ s.pc = .pending g → s.woken = false → s.waker = true
  due : ∀ g o, s.pc = .pending g → s.woken = false → s.slot = some (g, o) →
    s.completers g = .waking o

theorem inv_init : Inv (init : Writers ε) where
  count := rfl
  gen _ h := nomatch h
  fresh _ h := absurd rfl h
  unlocked _ _ _ h := nomatch h
  storing _ _ h := nomatch h
  slot _ _ h := nomatch h
  returned _ _ h := nomatch h
  once := List.nodup_nil
  stored _ _ h := nomatch h
  stale _ _ h := nomatch h
  settled _ h := absurd rfl h
  armed _ h := by rcases h with h | h <;> cases h
  due _ _ h := nomatch h

variable {s : Writers ε}

theorem Inv.le_of_stored (h : Inv s) {g : Nat} {o : WriteOutcome ε}
    (hs : (s.completers g).stored = some o) : g ≤ s.generation := by
  refine (h.fresh g fun h0 => ?_).1
  rw [h0] at hs
  cases hs

theorem Inv.bump (h : Inv s) (hfew : (s.step .bump).begins < 2 ^ 64) : Inv (s.step .bump) := by
  dsimp only [step] at hfew ⊢
  split
  · rename_i hpc
    rw [hpc] at hfew
    have hnext : s.cell.next = s.generation + 1 :=
      WriteCompletion.next_of_lt (h.count ▸ hfew)
    simp only [setCell, WriteCompletion.bump, hnext]
    refine ⟨congrArg (· + 1) h.count, ?_, fun g hg => ?_, h.unlocked, fun g o hg =>
      ?_, fun g o hg => ?_, fun g o hg => ?_,
      h.once, fun g o hg => ?_, fun g o hg => ?_, fun g hg _ => ?_, ?_, fun _ _ hg => nomatch hg⟩
    · rintro g ⟨⟩
      rfl
    · have hle := (h.fresh g hg).1
      refine ⟨Nat.le_succ_of_le hle, fun h0 => ?_⟩
      have := WriterPc.begun.inj h0
      omega
    · exact ⟨(h.storing g o hg).1, (h.storing g o hg).2.1, .inr rfl⟩
    · exact ⟨(h.slot g o hg).1, .inr rfl, (h.slot g o hg).2.2⟩
    · have hs := (h.returned g o hg).1
      exact ⟨hs, .inl (Nat.lt_succ_of_le (h.le_of_stored hs))⟩
    · rcases h.stored g o hg with hs | hr | ⟨hf, hlt⟩
      · exact .inl hs
      · exact .inr (.inl hr)
      · exact .inr (.inr ⟨hf, Nat.lt_succ_of_lt hlt⟩)
    · exact Nat.lt_succ_of_lt (h.stale g o hg)
    · exact h.settled g hg (.inr hpc)
    · rintro g (hg | hg) <;> cases hg
  · exact h

/-- The clear throws away at most the outcome of a write whose enqueue failed. -/
theorem Inv.clear (h : Inv s) : Inv (s.step .clear) := by
  dsimp only [step]
  split
  · rename_i g₀ hpc hl
    have hg₀ : g₀ = s.generation := h.gen g₀ (by rw [hpc]; rfl)
    have habs : s.completers g₀ = .absent := by
      by_contra hne
      exact (h.fresh g₀ hne).2 hpc
    refine ⟨h.count, ?_, fun g hg => ?_, fun _ g o hg => ?_, fun g o hg => ?_,
      (fun _ _ hg => nomatch hg),
      fun g o hg => ?_, h.once, fun g o hg => ?_, fun g o hg => ?_, fun g hg => ?_, ?_,
      fun _ _ hg => nomatch hg⟩
    all_goals simp only [setCell, setCompleter, WriteCompletion.clear, Function.update_apply] at *
    · grind [WriterPc.gen]
    · have := h.fresh g
      grind
    · have := h.unlocked hl g o
      grind
    · have := h.unlocked hl g o
      grind
    · have := h.returned g o hg
      grind [CompleterPc.stored]
    · have hne : g ≠ g₀ := by
        rintro rfl
        simp [CompleterPc.stored] at hg
      rw [if_neg hne] at hg
      have hlt : g < s.generation := Nat.lt_of_le_of_ne (h.le_of_stored hg) (hg₀ ▸ hne)
      rcases h.stored g o hg with hs | hr | hf
      · refine .inr (.inr ⟨?_, hlt⟩)
        refine (h.settled g (fun h0 => ?_) (.inl hlt)).resolve_right (h.slot g o hs).2.2
        rw [h0] at hg
        cases hg
      · exact .inr (.inl hr)
      · exact .inr (.inr hf)
    · have := h.stale g o
      grind
    · have := h.settled g
      have := h.fresh g
      grind
    · grind
  · exact h

/-- The front end goes on with the write it has begun. -/
theorem Inv.goOn (h : Inv s) {g₀ : Nat} {pc : WriterPc} (waker woken : Bool)
    (hgen : s.pc.gen = some g₀) (hb : ∀ g, s.pc ≠ .begun g)
    (hpc : pc = .inFlight g₀ ∨ pc = .registered g₀ ∨ pc = .pending g₀)
    (harm : pc ≠ .inFlight g₀ → woken = false → waker = true)
    (hdue : pc = .pending g₀ → ∀ o, s.slot ≠ some (g₀, o)) :
    Inv { s with pc := pc, waker := waker, woken := woken } := by
  have hg₀ : g₀ = s.generation := h.gen g₀ hgen
  have hidle : pc ≠ .idle := by rcases hpc with rfl | rfl | rfl <;> nofun
  have hbegun (g : Nat) : pc ≠ .begun g := by rcases hpc with rfl | rfl | rfl <;> nofun
  refine ⟨h.count, fun g hg => ?_, fun g hg => ?_, h.unlocked, fun g o hg => ?_,
    fun g o hg => ?_, fun g o hg => ?_, h.once, h.stored, h.stale, fun g hg hlt => ?_, fun g hg =>
      ?_,
    fun g o hg _ hs => ?_⟩
  · rcases hpc with rfl | rfl | rfl <;> exact Option.some.inj hg ▸ hg₀
  · exact ⟨(h.fresh g hg).1, hbegun g⟩
  · obtain ⟨hs, hu, hc⟩ := h.storing g o hg
    exact ⟨hs, hu, .inl (hc.resolve_right (hb _))⟩
  · obtain ⟨hs, hc, hr⟩ := h.slot g o hg
    exact ⟨hs, .inl (hc.resolve_right (hb _)), hr⟩
  · obtain ⟨hs, hc⟩ := h.returned g o hg
    refine ⟨hs, .inl (hc.resolve_right fun h0 => ?_)⟩
    rw [h0] at hgen
    cases hgen
  · exact h.settled g hg (.inl (hlt.resolve_right hidle))
  · refine harm fun h0 => ?_
    rcases hg with hg | hg <;> cases hg.symm.trans h0
  · rcases hpc with rfl | rfl | rfl
    · cases hg
    · cases hg
    · cases hg
      exact absurd hs (hdue rfl o)

theorem Inv.enqueue (h : Inv s) (ok : Bool) : Inv (s.step (.enqueue ok)) := by
  dsimp only [step]
  split
  · rename_i g₀ hpc
    have hgen : s.pc.gen = some g₀ := by rw [hpc]; rfl
    have hb (g : Nat) : s.pc ≠ .begun g := by rw [hpc]; nofun
    split
    · exact h.goOn s.waker s.woken hgen hb (.inl rfl) (absurd rfl) nofun
    · have hg₀ : g₀ = s.generation := h.gen g₀ hgen
      refine ⟨h.count, nofun, fun g hg => ?_, h.unlocked, fun g o hg => ?_, fun g o hg => ?_,
        fun g o hg => ?_, h.once, fun g o hg => ?_, h.stale, fun g hg hlt => ?_, ?_, nofun⟩
      · exact ⟨(h.fresh g hg).1, nofun⟩
      · obtain ⟨hs, hu, hc⟩ := h.storing g o hg
        exact ⟨hs, hu, .inl (hc.resolve_right (hb _))⟩
      · obtain ⟨hs, hc, hr⟩ := h.slot g o hg
        exact ⟨hs, .inl (hc.resolve_right (hb _)), hr⟩
      · exact ⟨(h.returned g o hg).1, .inr rfl⟩
      · rcases h.stored g o hg with hs | hr | ⟨hf, hlt⟩
        · exact .inl hs
        · exact .inr (.inl hr)
        · exact .inr (.inr ⟨List.mem_cons_of_mem _ hf, hlt⟩)
      · rcases Nat.lt_or_eq_of_le (h.fresh g hg).1 with hlt | heq
        · exact (h.settled g hg (.inl hlt)).imp_left (List.mem_cons_of_mem _)
        · exact .inl (List.mem_cons.mpr (.inl (heq.trans hg₀.symm)))
      · rintro g (hg | hg) <;> cases hg
  · exact h

theorem Inv.register (h : Inv s) : Inv (s.step .register) := by
  dsimp only [step]
  split
  · rename_i g₀ hpc
    exact h.goOn true false (by rw [hpc]; rfl) (by rw [hpc]; nofun) (.inr (.inl rfl))
      (fun _ _ => rfl) nofun
  · rename_i g₀ hpc
    exact h.goOn true false (by rw [hpc]; rfl) (by rw [hpc]; nofun) (.inr (.inl rfl))
      (fun _ _ => rfl) nofun
  · exact h

theorem Inv.take (h : Inv s) : Inv (s.step .take) := by
  dsimp only [step]
  split
  · rename_i g₀ hpc hl
    have hgen : s.pc.gen = some g₀ := by rw [hpc]; rfl
    have hb (g : Nat) : s.pc ≠ .begun g := by rw [hpc]; nofun
    have hg₀ : g₀ = s.generation := h.gen g₀ hgen
    cases hr : s.cell.read g₀ with
    | none =>
      refine h.goOn s.waker s.woken hgen hb (.inr (.inr rfl)) (fun _ => h.armed g₀ (.inl hpc))
        fun _ o hs => ?_
      rw [WriteCompletion.read_eq_some.mpr hs] at hr
      cases hr
    | some o₀ =>
      have hslot : s.slot = some (g₀, o₀) := WriteCompletion.read_eq_some.mp hr
      obtain ⟨hstored, -, hnew⟩ := h.slot g₀ o₀ hslot
      refine ⟨h.count, nofun, fun g hg => ?_, h.unlocked, fun g o hg => ?_, nofun, fun g o hg => ?_,
        List.nodup_cons.mpr ⟨hnew, h.once⟩, fun g o hg => ?_, h.stale, fun g hg hlt =>
          ?_, ?_, nofun⟩
      · exact ⟨(h.fresh g hg).1, nofun⟩
      · exact absurd hg (h.unlocked hl g o)
      · rcases List.mem_cons.mp hg with hg | hg
        · cases hg
          exact ⟨hstored, .inr rfl⟩
        · exact ⟨(h.returned g o hg).1, .inr rfl⟩
      · rcases h.stored g o hg with hs | hr | hf
        · cases hslot.symm.trans hs
          exact .inr (.inl List.mem_cons_self)
        · exact .inr (.inl (List.mem_cons_of_mem _ hr))
        · exact .inr (.inr hf)
      · rcases Nat.lt_or_eq_of_le (h.fresh g hg).1 with hlt | heq
        · exact (h.settled g hg (.inl hlt)).imp_right (List.mem_cons_of_mem _)
        · exact .inr (List.mem_cons.mpr (.inl (heq.trans hg₀.symm)))
      · rintro g (hg | hg) <;> cases hg
  · exact h

/-- A completer that looks while its generation is current finds the slot empty. -/
theorem Inv.slot_eq_none (h : Inv s) (hl : s.completers s.generation = .live) : s.slot = none := by
  cases hs : s.slot with
  | none => rfl
  | some p =>
    obtain ⟨g, o⟩ := p
    obtain ⟨hstored, hg | hb, -⟩ := h.slot g o hs
    · rw [hg, hl] at hstored
      cases hstored
    · exact absurd hb (h.fresh _ (by rw [hl]; nofun)).2

/-- A completer moves and keeps what it has stored: what is left to show is about the lock, the
slot and the wake-up. -/
theorem Inv.move (h : Inv s) (g₀ : Nat) (p : CompleterPc ε) {t : Writers ε}
    (hgen : t.generation = s.generation) (hbegins : t.begins = s.begins) (hpc : t.pc = s.pc)
    (hret : t.returned = s.returned) (hfail : t.failed = s.failed)
      (hcomp : t.completers = Function.update s.completers g₀ p)
    (hne : s.completers g₀ ≠ .absent)
    (hkeep : ∀ o, (s.completers g₀).stored = some o → p.stored = some o)
    (hstale : ∀ o, p = .finished o false → g₀ < s.generation)
    (unlocked : t.locked = false → ∀ g o, t.completers g ≠ .storing o)
    (storing : ∀ g o, t.completers g = .storing o → t.slot = none ∧
      (∀ g' o', t.completers g' = .storing o' → g' = g) ∧
      (g = s.generation ∨ s.pc = .begun s.generation))
    (slot : ∀ g o, t.slot = some (g, o) → (t.completers g).stored = some o ∧
      (g = s.generation ∨ s.pc = .begun s.generation) ∧ g ∉ s.returned.map Prod.fst)
    (stored : ∀ g o, (t.completers g).stored = some o →
      t.slot = some (g, o) ∨ (g, o) ∈ s.returned ∨ g ∈ s.failed ∧ g < s.generation)
    (armed : ∀ g, s.pc = .registered g ∨ s.pc = .pending g → t.woken = false → t.waker = true)
    (due : ∀ g o, s.pc = .pending g → t.woken = false → t.slot = some (g, o) →
      t.completers g = .waking o) : Inv t := by
  have hlive (g : Nat) (hg : t.completers g ≠ .absent) : s.completers g ≠ .absent := by
    by_cases he : g = g₀
    · exact he ▸ hne
    · rwa [hcomp, Function.update_of_ne he] at hg
  refine ⟨?_, ?_, fun g hg => ?_, unlocked, ?_, ?_, fun g o hg => ?_, ?_, ?_, fun g o hg => ?_,
    fun g hg => ?_, ?_, ?_⟩ <;> simp only [hgen, hbegins, hpc, hret, hfail] at *
  · exact h.count
  · exact h.gen
  · exact h.fresh g (hlive g hg)
  · exact storing
  · exact slot
  · refine ⟨?_, (h.returned g o hg).2⟩
    have hs := (h.returned g o hg).1
    by_cases he : g = g₀
    · rw [hcomp, he, Function.update_self]
      exact hkeep o (he ▸ hs)
    · rwa [hcomp, Function.update_of_ne he]
  · exact h.once
  · exact stored
  · by_cases he : g = g₀
    · rw [hcomp, he, Function.update_self] at hg
      exact he ▸ hstale o hg
    · rw [hcomp, Function.update_of_ne he] at hg
      exact h.stale g o hg
  · exact h.settled g (hlive g hg)
  · exact armed
  · exact due

theorem Inv.check (h : Inv s) (g₀ : Nat) (o₀ : WriteOutcome ε) : Inv (s.check g₀ o₀) := by
  unfold Writers.check
  split
  · rename_i hlive hl
    have hne : s.completers g₀ ≠ .absent := by rw [hlive]; nofun
    have hkeep (p : CompleterPc ε) (o : WriteOutcome ε)
        (ho : (s.completers g₀).stored = some o) : p.stored = some o := by
      rw [hlive] at ho
      cases ho
    split
    · rename_i hadm
      obtain ⟨hgen, hslot⟩ := WriteCompletion.admits_iff.mp hadm
      refine h.move g₀ (.storing o₀) rfl rfl rfl rfl rfl rfl hne (hkeep _) nofun nofun ?_ ?_ ?_
        h.armed ?_
      all_goals simp only [setCompleter, Function.update_apply]
      · have := h.unlocked hl
        grind
      · grind
      · have := h.stored
        grind [CompleterPc.stored]
      · grind
    · rename_i hadm
      have hlt : g₀ < s.generation := by
        refine Nat.lt_of_le_of_ne (h.fresh g₀ hne).1 fun he =>
          hadm (WriteCompletion.admits_iff.mpr ⟨he.symm, ?_⟩)
        exact h.slot_eq_none (he ▸ hlive)
      rw [beq_false_of_ne (Nat.ne_of_gt hlt)]
      refine h.move g₀ (.finished o₀ false) rfl rfl rfl rfl rfl rfl hne (hkeep _)
        (fun _ _ => hlt) (fun _ => ?_) ?_ ?_ ?_ h.armed ?_
      all_goals simp only [setCompleter, Function.update_apply]
      · have := h.unlocked hl
        grind
      · have := h.unlocked hl
        grind
      · have := h.slot
        grind [CompleterPc.stored]
      · have := h.stored
        grind [CompleterPc.stored]
      · have := h.due
        grind
  · exact h

theorem Inv.store (h : Inv s) (g₀ : Nat) : Inv (s.step (.store g₀)) := by
  dsimp only [Writers.step]
  split
  · rename_i o₀ hst
    obtain ⟨hslot, huniq, hcur⟩ := h.storing g₀ o₀ hst
    have hnew : g₀ ∉ s.returned.map Prod.fst := by
      intro hm
      obtain ⟨⟨g, o⟩, hr, rfl⟩ := List.mem_map.mp hm
      have hs := (h.returned g o hr).1
      rw [hst] at hs
      cases hs
    refine h.move g₀ (.waking o₀) rfl rfl rfl rfl rfl rfl (by rw [hst]; nofun) ?_ nofun
      (fun _ => ?_)
      ?_ ?_ ?_ h.armed ?_
    · rw [hst]
      nofun
    all_goals simp only [setCell, setCompleter, WriteCompletion.store, Function.update_apply]
    · grind
    · grind
    · grind [CompleterPc.stored]
    · have := h.stored
      grind [CompleterPc.stored]
    · grind
  · exact h

theorem Inv.wake (h : Inv s) (g₀ : Nat) : Inv (s.step (.wake g₀)) := by
  dsimp only [Writers.step]
  split
  · rename_i o₀ hst
    refine h.move g₀ (.finished o₀ true) rfl rfl rfl rfl rfl rfl (by rw [hst]; nofun) ?_ nofun
      (fun hl => ?_) ?_ ?_ ?_ (fun g hp hw => ?_) (fun g o hp hw => ?_)
    · rw [hst]
      exact fun _ ho => ho
    all_goals simp only [setCompleter, Function.update_apply]
    · have := h.unlocked hl
      grind
    · have := h.storing
      grind
    · have := h.slot
      grind [CompleterPc.stored]
    · have := h.stored
      grind [CompleterPc.stored]
    -- whoever waits had its waker registered, so it is woken here if it was not before
    · have := h.armed g hp
      grind
    · have := h.armed g (.inr hp)
      grind
  · exact h

theorem Inv.step (h : Inv s) {act : Act ε} (hfew : (s.step act).begins < 2 ^ 64) :
    Inv (s.step act) := by
  cases act with
  | bump => exact h.bump hfew
  | clear => exact h.clear
  | enqueue ok => exact h.enqueue ok
  | register => exact h.register
  | take => exact h.take
  | complete g result => exact h.check g (.done result)
  | drop g => exact h.check g .cancelled
  | store g => exact h.store g
  | wake g => exact h.wake g

theorem begins_step (s : Writers ε) (act : Act ε) : s.begins ≤ (s.step act).begins := by
  cases act with
  | bump =>
    dsimp only [Writers.step]
    split
    · exact Nat.le_succ _
    · exact Nat.le_refl _
  | complete | drop =>
    dsimp only [Writers.step, Writers.check]
    split
    · split <;> exact Nat.le_refl _
    · exact Nat.le_refl _
  | enqueue | take =>
    dsimp only [Writers.step]
    split
    · split <;> exact Nat.le_refl _
    · exact Nat.le_refl _
  | _ =>
    dsimp only [Writers.step]
    split <;> exact Nat.le_refl _

theorem begins_run (s : Writers ε) (acts : List (Act ε)) : s.begins ≤ (s.run acts).begins := by
  induction acts generalizing s with
  | nil => exact Nat.le_refl _
  | cons act acts ih => exact Nat.le_trans (begins_step s act) (ih _)

theorem Inv.run (h : Inv s) {acts : List (Act ε)} (hfew : (s.run acts).begins < 2 ^ 64) :
    Inv (s.run acts) := by
  induction acts generalizing s with
  | nil => exact h
  | cons act acts ih =>
    exact ih (h.step (Nat.lt_of_le_of_lt (begins_run _ acts) hfew)) hfew

/-! ## 4. What the front end gets -/

/-- The step of completer `g` that supplies the outcome `o`. -/
def Act.supply (g : Nat) : WriteOutcome ε → Act ε
  | .done result => .complete g result
  | .cancelled => .drop g

/-- Whose step it is, for the steps of a completer. -/
def Act.completer : Act ε → Option Nat
  | .complete g _ | .drop g | .store g | .wake g => some g
  | _ => none

theorem outcome_check {g g' : Nat} {o o' : WriteOutcome ε}
    (h : ((s.check g' o').completers g).outcome = some o) :
    (s.completers g).outcome = some o ∨ g' = g ∧ o' = o := by
  unfold check at h
  split at h
  · by_cases he : g = g'
    · subst he
      right
      split at h
      · simpa [setCompleter, CompleterPc.outcome] using h
      · simpa [setCompleter, CompleterPc.outcome] using h
    · left
      split at h
      · simpa [setCompleter, Function.update_of_ne he] using h
      · simpa [setCompleter, Function.update_of_ne he] using h
  · exact .inl h

/-- An outcome is new only in the step that supplies it. -/
theorem outcome_step {act : Act ε} {g : Nat} {o : WriteOutcome ε}
    (h : ((s.step act).completers g).outcome = some o) :
    (s.completers g).outcome = some o ∨ act = Act.supply g o := by
  cases act with
  | bump | register =>
    dsimp only [step] at h
    split at h <;> exact .inl h
  | clear =>
    dsimp only [step] at h
    split at h
    · simp only [setCell, setCompleter, Function.update_apply] at h
      split at h
      · cases h
      · exact .inl h
    · exact .inl h
  | enqueue | take =>
    dsimp only [step] at h
    split at h
    · split at h <;> exact .inl h
    · exact .inl h
  | complete | drop =>
    rcases outcome_check h with h | ⟨rfl, rfl⟩
    · exact .inl h
    · exact .inr rfl
  | store g' =>
    left
    dsimp only [step] at h
    split at h
    · rename_i o' hst
      simp only [setCell, setCompleter, Function.update_apply] at h
      split at h
      · subst g'
        rw [hst]
        exact h
      · exact h
    · exact h
  | wake g' =>
    left
    dsimp only [step] at h
    split at h
    · rename_i o' hst
      simp only [setCompleter, Function.update_apply] at h
      split at h
      · subst g'
        rw [hst]
        exact h
      · exact h
    · exact h

theorem supplied_run (acts : List (Act ε)) {g : Nat} {o : WriteOutcome ε}
    (h : ((s.run acts).completers g).outcome = some o) :
    (s.completers g).outcome = some o ∨ Act.supply g o ∈ acts := by
  induction acts generalizing s with
  | nil => exact .inl h
  | cons act acts ih =>
    rcases ih h with h | h
    · refine (outcome_step h).imp_right fun he => ?_
      rw [he]
      exact List.mem_cons_self
    · exact .inr (List.mem_cons_of_mem _ h)

/-- A stale completer gets through to the slot only inside the `begin` that will clear it. -/
theorem Inv.stale_step (h : Inv s) {act : Act ε} {g : Nat} (hact : act.completer = some g)
    (hg : g < s.generation) :
    ((s.step act).slot = s.slot ∨ s.slot = none ∧ s.pc = .begun s.generation) ∧
      ∀ g', g < g' → (s.step act).read g' = s.read g' := by
  have hcheck (o : WriteOutcome ε) : (s.check g o).toWriteCompletion = s.toWriteCompletion := by
    unfold Writers.check
    split
    · split <;> rfl
    · rfl
  cases act with
  | complete _ result =>
    cases hact
    have he := hcheck (.done result)
    exact ⟨.inl (congrArg WriteCompletion.slot he), fun g' _ => congrArg (·.read g') he⟩
  | drop _ =>
    cases hact
    have he := hcheck .cancelled
    exact ⟨.inl (congrArg WriteCompletion.slot he), fun g' _ => congrArg (·.read g') he⟩
  | store _ =>
    cases hact
    dsimp only [Writers.step]
    split
    · rename_i o hst
      obtain ⟨hslot, -, hcur⟩ := h.storing g o hst
      refine ⟨.inr ⟨hslot, hcur.resolve_left (Nat.ne_of_lt hg)⟩, fun g' hg' => ?_⟩
      simp [setCell, setCompleter, WriteCompletion.store, WriteCompletion.read, hslot,
        Nat.ne_of_lt hg']
    · exact ⟨.inl rfl, fun _ _ => rfl⟩
  | wake _ =>
    cases hact
    dsimp only [Writers.step]
    split <;> exact ⟨.inl rfl, fun _ _ => rfl⟩
  | _ => cases hact

/-- **The reusable write completion is exactly once per generation.**  After any steps of the front
end and of the completers, in any order, with fewer than 2^64 calls of `begin` among them:

* `poll` has returned at most one outcome for a generation, the one its completer was completed
  (`Done`) or dropped (`Cancelled`) with;
* a step of a stale completer does not change what a `poll` of a later generation reads, and
  leaves the slot alone unless the front end is inside the `begin` that will clear it;
* an outcome supplied while its generation was current is in the slot or was returned by `poll`,
  until a later `begin` if the enqueue of that write failed; and if `poll` had returned `Pending`,
  its task has been woken. -/
theorem write_completion_exact (acts : List (Act ε))
    (hfew : ((init : Writers ε).run acts).begins < 2 ^ 64) :
    let s := (init : Writers ε).run acts
    ((s.returned.map Prod.fst).Nodup ∧
      ∀ g o, (g, o) ∈ s.returned → (s.completers g).outcome = some o ∧ Act.supply g o ∈ acts) ∧
    (∀ act g, act.completer = some g → g < s.generation →
      ((s.step act).slot = s.slot ∨ s.slot = none ∧ s.pc = .begun s.generation) ∧
        ∀ g', g < g' → (s.step act).read g' = s.read g') ∧
    ∀ g o, s.completers g = .finished o true →
      (s.slot = some (g, o) ∨ (g, o) ∈ s.returned ∨ g ∈ s.failed ∧ g < s.generation) ∧
      (s.pc = .pending g → s.woken = true) := by
  intro s
  have h : Inv s := inv_init.run hfew
  refine ⟨⟨h.once, fun g o hr => ?_⟩, fun act g => h.stale_step, fun g o hf => ?_⟩
  · have ho := CompleterPc.outcome_of_stored (h.returned g o hr).1
    exact ⟨ho, (supplied_run acts ho).resolve_left nofun⟩
  · have hs := h.stored g o (by rw [hf]; rfl)
    refine ⟨hs, fun hp => ?_⟩
    by_contra hw
    have hgen : g = s.generation := h.gen g (by rw [hp]; rfl)
    rcases hs with hs | hr | ⟨-, hlt⟩
    · -- it is still in the slot, so its completer would still have to wake
      have := h.due g o hp (by simpa using hw) hs
      rw [hf] at this
      cases this
    · rcases (h.returned g o hr).2 with hlt | hi
      · omega
      · rw [hp] at hi
        cases hi
    · omega

/-- An outcome of generation 1 lands in the slot while generation 2 begins. -/
def overtaken : List (Act Unit) := [.bump, .clear, .enqueue false, .drop 1, .bump, .store 1]

theorem overtaken_exact : (init.run overtaken).begins = 2 ∧
    (init.run overtaken).slot.map Prod.fst = some 1 ∧
    ((init.run overtaken).step .clear).slot.isSome = false ∧
    ((init.run overtaken).returned.map Prod.fst).Nodup :=
  ⟨by decide, by decide, by decide, (write_completion_exact overtaken (by decide)).1.1⟩

end Writers

end QuicheH3
