/-
# The terminal cell (`buffer.rs`)

Every terminal of the bridge reaches the front end through a `TerminalCell`: a value under a lock
and the waker of the one task that polls it.  `set` installs its value if there is none and wakes
AFTER it has left the lock; `poll` reads, registers its waker, and reads again.  A value can be
installed in any of the gaps, and the wake can come long after.

Each access is one step here.  Any number of `set` and `get` calls are interleaved with the polls
of one poller, whose every poll may bring another waker.  A history keeps what every call saw and
returned, and the whole argument is about histories: `CellSpec` says what each record tells of the
records before it, and everything claimed of the cell follows from that alone.
-/
import Mathlib.Logic.Function.Basic
import QuicheH3.Buffer
import QuicheH3.Lib.Trace

namespace QuicheH3

open Lib

variable {α ω : Type}

/-! ## 1. The cell -/

/-- `TerminalInner`: `waker` is the waker registered last and not taken yet. -/
structure TerminalCell (α ω : Type) where
  value : Option α
  waker : Option ω

namespace TerminalCell

def new : TerminalCell α ω := ⟨none, none⟩

/-- What `set` does under the lock; `true` if it installed its value. -/
def install (c : TerminalCell α ω) (v : α) : TerminalCell α ω × Bool :=
  match c.value with
  | some _ => (c, false)
  | none => ({ c with value := some v }, true)

def get (c : TerminalCell α ω) : Option α := c.value

/-- `AtomicWaker::register`. -/
def register (c : TerminalCell α ω) (k : ω) : TerminalCell α ω := { c with waker := some k }

/-- `AtomicWaker::wake` takes the waker registered last, and wakes it. -/
def wake (c : TerminalCell α ω) : TerminalCell α ω × Option ω := ({ c with waker := none }, c.waker)

/-- The driver's model has the value alone for the whole cell. -/
theorem install_value (c : TerminalCell α ω) (v : α) :
    (c.install v).1.value = cellSet c.value v := by
  unfold install
  cases hv : c.value with
  | none => rfl
  | some u => exact hv

end TerminalCell

/-! ## 2. Its users -/

/-- Where one call of `set` is. -/
inductive SetPc
  | absent
  -- it has installed its value, and still has to wake
  | waking
  | returned (won : Bool)
  deriving DecidableEq

/-- Where the poller is; `k` is the waker of its poll. -/
inductive PollPc (ω : Type)
  | idle
  -- the fast path found nothing
  | missed (k : ω)
  | registered (k : ω)

/-- What happened.  `refused` is a `set` that returned false, `woke` one that woke and returned
true. -/
inductive CellEvent (α ω : Type)
  | installed (i : Nat) (v : α)
  | refused (i : Nat) (v : α)
  | woke (i : Nat) (k : Option ω)
  | got (o : Option α)
  | missed (k : ω)
  | registered (k : ω)
  | ready (v : α)
  | pending (k : ω)

/-- The cell with everybody who uses it, and the history, newest first. -/
structure CellRun (α ω : Type) extends TerminalCell α ω where
  sets : Nat → SetPc
  poll : PollPc ω
  log : List (CellEvent α ω)

namespace CellRun

def init : CellRun α ω :=
  { TerminalCell.new with sets := fun _ => .absent, poll := .idle, log := [] }

abbrev cell (s : CellRun α ω) : TerminalCell α ω := s.toTerminalCell

def record (s : CellRun α ω) (e : CellEvent α ω) : CellRun α ω := { s with log := e :: s.log }

def setPc (s : CellRun α ω) (i : Nat) (p : SetPc) : CellRun α ω :=
  { s with sets := Function.update s.sets i p }

/-- One step of a writer or of the reader. -/
inductive Act (α ω : Type)
  | set (i : Nat) (v : α)
  | wake (i : Nat)
  | get
  | poll (k : ω)
  | register
  | reread

/-- One step; a step that is not enabled does nothing. -/
def step (s : CellRun α ω) : Act α ω → CellRun α ω
  | .set i v =>
    match s.sets i with
    | .absent =>
      match s.cell.install v with
      | (c, true) => ({ s with toTerminalCell := c }.setPc i .waking).record (.installed i v)
      | (_, false) => (s.setPc i (.returned false)).record (.refused i v)
    | _ => s
  | .wake i =>
    match s.sets i with
    | .waking =>
      ({ s with toTerminalCell := s.cell.wake.1 }.setPc i (.returned true)).record
        (.woke i s.cell.wake.2)
    | _ => s
  | .get => s.record (.got s.cell.get)
  | .poll k =>
    match s.poll with
    | .idle =>
      match s.cell.get with
      | some v => s.record (.ready v)
      | none => { s with poll := .missed k }.record (.missed k)
    | _ => s
  | .register =>
    match s.poll with
    | .missed k =>
      { s with toTerminalCell := s.cell.register k, poll := .registered k }.record (.registered k)
    | _ => s
  | .reread =>
    match s.poll with
    | .registered k =>
      match s.cell.get with
      | some v => { s with poll := .idle }.record (.ready v)
      | none => { s with poll := .idle }.record (.pending k)
    | _ => s

def run (s : CellRun α ω) (acts : List (Act α ω)) : CellRun α ω := acts.foldl step s

end CellRun

/-! ## 3. Histories of a cell -/

/-- The value installed first. -/
def firstValue : List (CellEvent α ω) → Option α
  | [] => none
  | .installed _ v :: tr => some ((firstValue tr).getD v)
  | _ :: tr => firstValue tr

/-- The waker registered last. -/
def lastWaker : List (CellEvent α ω) → Option ω
  | [] => none
  | .registered k :: _ => some k
  | _ :: tr => lastWaker tr

/-- What a record tells of the records before it. -/
def CellSpec (e : CellEvent α ω) (pre : List (CellEvent α ω)) : Prop :=
  match e with
  | .installed _ _ => firstValue pre = none
  | .refused _ _ => (firstValue pre).isSome
  | .woke i o => (∃ v, .installed i v ∈ pre) ∧ o = lastWaker pre
  | .got o => o = firstValue pre
  | .missed _ => firstValue pre = none
  | .registered _ => True
  | .ready v => firstValue pre = some v
  | .pending k => firstValue pre = none ∧ lastWaker pre = some k

section History

variable {tr : List (CellEvent α ω)}

theorem firstValue_isSome_of_installed {i : Nat} {v : α} (h : .installed i v ∈ tr) :
    (firstValue tr).isSome := by
  induction tr with
  | nil => cases h
  | cons e tr ih =>
    rcases List.mem_cons.mp h with rfl | hm
    · rfl
    · cases e with
      | installed j u => rfl
      | _ => exact ih hm

/-- Nobody installs a second value. -/
theorem firstValue_of_installed (hs : Always CellSpec tr) {i : Nat} {v : α}
    (h : .installed i v ∈ tr) : firstValue tr = some v := by
  induction tr with
  | nil => cases h
  | cons e tr ih =>
    rcases List.mem_cons.mp h with rfl | h
    · have hn : firstValue tr = none := hs.1
      simp only [firstValue, hn, Option.getD_none]
    · have hv := ih hs.2 h
      cases e with
      | installed j u =>
        have hn : firstValue tr = none := hs.1
        cases hn.symm.trans hv
      | _ => exact hv

theorem installed_unique (hs : Always CellSpec tr) {i j : Nat} {u v : α}
    (hu : .installed i u ∈ tr) (hv : .installed j v ∈ tr) : i = j ∧ u = v := by
  induction tr with
  | nil => cases hu
  | cons e tr ih =>
    -- the newest installation finds none before it
    have habs {x y} (he : e = .installed x y) {x' y'} (hm : .installed x' y' ∈ tr) : False := by
      subst he
      have hn : firstValue tr = none := hs.1
      have := firstValue_isSome_of_installed hm
      rw [hn] at this
      cases this
    rcases List.mem_cons.mp hu with hu | hu <;> rcases List.mem_cons.mp hv with hv | hv
    · cases hu.trans hv.symm
      exact ⟨rfl, rfl⟩
    · exact (habs hu.symm hv).elim
    · exact (habs hv.symm hu).elim
    · exact ih hs.2 hu hv

/-- What is first stays first. -/
theorem firstValue_append {v : α} (h : firstValue tr = some v) :
    ∀ post : List (CellEvent α ω), firstValue (post ++ tr) = some v
  | [] => h
  | e :: post => by
    have ih := firstValue_append h post
    cases e with
    | installed j u =>
      simp only [List.cons_append, firstValue, ih, Option.getD_some]
    | _ => exact ih

/-- The waker registered last is that of the past, unless one was registered since. -/
theorem lastWaker_append {k : ω} (h : lastWaker tr = some k) :
    ∀ post : List (CellEvent α ω), ∃ k', lastWaker (post ++ tr) = some k' ∧
      (k' = k ∨ .registered k' ∈ post)
  | [] => ⟨k, h, .inl rfl⟩
  | e :: post => by
    obtain ⟨k', hk, hor⟩ := lastWaker_append h post
    have hlater : ∃ k', lastWaker (post ++ tr) = some k' ∧ (k' = k ∨ .registered k' ∈ e :: post) :=
      ⟨k', hk, hor.imp_right (List.mem_cons_of_mem e)⟩
    cases e with
    | registered k' => exact ⟨k', rfl, .inr List.mem_cons_self⟩
    | _ => exact hlater

end History

/-! ## 4. The invariant -/

namespace CellRun

/-- The cell holds the first value written, and its wake is not lost. -/
structure Inv (s : CellRun α ω) : Prop where
  spec : Always CellSpec s.log
  value : s.value = firstValue s.log
  -- until the one wake, the slot of the waker is the last one registered
  waker : (∀ i, s.sets i ≠ .returned true) → s.waker = lastWaker s.log
  registered : ∀ k, s.poll = .registered k → lastWaker s.log = some k
  absent : firstValue s.log = none → ∀ i, s.sets i = .absent
  -- one call has installed, every other one has not begun or was refused
  winner : (firstValue s.log).isSome → ∃ i v, .installed i v ∈ s.log ∧
    (s.sets i = .waking ∨ s.sets i = .returned true) ∧
    ∀ j, j ≠ i → s.sets j = .absent ∨ s.sets j = .returned false
  woke : ∀ i, s.sets i = .returned true → ∃ o, .woke i o ∈ s.log

theorem inv_init : Inv (init : CellRun α ω) where
  spec := trivial
  value := rfl
  waker _ := rfl
  registered _ h := nomatch h
  absent _ _ := rfl
  winner h := nomatch h
  woke _ h := nomatch h

variable {s : CellRun α ω}

/-- A record that is neither of an installation nor of a registration. -/
theorem Inv.observe (h : Inv s) {e : CellEvent α ω} (he : CellSpec e s.log)
    (hf : firstValue (e :: s.log) = firstValue s.log)
    (hw : lastWaker (e :: s.log) = lastWaker s.log) {p : PollPc ω}
    (hp : ∀ k, p = .registered k → s.poll = .registered k) :
    Inv ({ s with poll := p }.record e) where
  spec := ⟨he, h.spec⟩
  value := h.value.trans hf.symm
  waker hn := (h.waker hn).trans hw.symm
  registered k hk := hw.trans (h.registered k (hp k hk))
  absent hn := h.absent (hf ▸ hn)
  winner hs := by
    obtain ⟨i, v, hm, hi, hj⟩ := h.winner (hf ▸ hs)
    exact ⟨i, v, List.mem_cons_of_mem _ hm, hi, hj⟩
  woke i hi := by
    obtain ⟨o, ho⟩ := h.woke i hi
    exact ⟨o, List.mem_cons_of_mem _ ho⟩

theorem Inv.install (h : Inv s) {i : Nat} (hi : s.sets i = .absent) (v : α)
    (hn : s.value = none) :
    Inv (({ s with value := some v }.setPc i .waking).record (.installed i v)) := by
  have hf : firstValue s.log = none := h.value.symm.trans hn
  have habs := h.absent hf
  have hpc (j : Nat) (hj : j ≠ i) : Function.update s.sets i .waking j = .absent := by
    rw [Function.update_of_ne hj]
    exact habs j
  exact
    { spec := ⟨hf, h.spec⟩
      value := by simp only [record, setPc, firstValue, hf, Option.getD_none]
      waker := fun _ => h.waker fun j hj => by cases (habs j).symm.trans hj
      registered := h.registered
      absent := fun hx => by cases hx
      winner := fun _ => ⟨i, v, List.mem_cons_self, .inl (Function.update_self _ _ _),
        fun j hj => .inl (hpc j hj)⟩
      woke := fun j hj => by
        by_cases hji : j = i
        · subst hji
          cases (Function.update_self _ _ _).symm.trans hj
        · cases (hpc j hji).symm.trans hj }

theorem Inv.refuse (h : Inv s) {i : Nat} (hi : s.sets i = .absent) (v : α) {u : α}
    (hv : s.value = some u) : Inv ((s.setPc i (.returned false)).record (.refused i v)) := by
  have hf : firstValue s.log = some u := h.value.symm.trans hv
  have htrue (j : Nat) (hj : Function.update s.sets i (.returned false) j = .returned true) :
      s.sets j = .returned true := by
    by_cases hji : j = i
    · subst hji
      cases (Function.update_self _ _ _).symm.trans hj
    · rwa [Function.update_of_ne hji] at hj
  exact
    { spec := ⟨Option.isSome_iff_exists.mpr ⟨u, hf⟩, h.spec⟩
      value := h.value
      waker := fun hn => h.waker fun j hj => by
        refine hn j ?_
        have hji : j ≠ i := by
          rintro rfl
          cases hi.symm.trans hj
        exact (Function.update_of_ne hji _ _).trans hj
      registered := h.registered
      absent := fun hx => by cases hf.symm.trans hx
      winner := fun _ => by
        obtain ⟨w, x, hm, hw, hj⟩ := h.winner (by rw [hf]; rfl)
        have hwi : w ≠ i := by
          rintro rfl
          rcases hw with hw | hw <;> cases hi.symm.trans hw
        refine ⟨w, x, List.mem_cons_of_mem _ hm, ?_, fun j hjw => ?_⟩
        · exact hw.imp (Function.update_of_ne hwi _ _).trans (Function.update_of_ne hwi _ _).trans
        · by_cases hji : j = i
          · subst hji
            exact .inr (Function.update_self _ _ _)
          · exact (hj j hjw).imp (Function.update_of_ne hji _ _).trans
              (Function.update_of_ne hji _ _).trans
      woke := fun j hj => by
        obtain ⟨o, ho⟩ := h.woke j (htrue j hj)
        exact ⟨o, List.mem_cons_of_mem _ ho⟩ }

/-- The call that still has to wake is the one that installed, and nobody has woken yet. -/
theorem Inv.wake (h : Inv s) {i : Nat} (hi : s.sets i = .waking) :
    Inv (({ s with waker := none }.setPc i (.returned true)).record (.woke i s.waker)) := by
  have hsome : (firstValue s.log).isSome := by
    by_contra hn
    cases (h.absent (by simpa using hn) i).symm.trans hi
  obtain ⟨w, v, hm, hw, hj⟩ := h.winner hsome
  have hwi : i = w := by
    by_contra hne
    rcases hj i hne with hx | hx <;> cases hi.symm.trans hx
  subst hwi
  have hnone (j : Nat) : s.sets j ≠ .returned true := by
    intro hx
    by_cases hji : j = i
    · subst hji
      cases hi.symm.trans hx
    · rcases hj j hji with hy | hy <;> cases hx.symm.trans hy
  exact
    { spec := ⟨⟨⟨v, hm⟩, h.waker hnone⟩, h.spec⟩
      value := h.value
      waker := fun hn => absurd (Function.update_self _ _ _) (hn i)
      registered := h.registered
      absent := fun hx => by
        have hx : firstValue s.log = none := hx
        rw [hx] at hsome
        cases hsome
      winner := fun _ => ⟨i, v, List.mem_cons_of_mem _ hm, .inr (Function.update_self _ _ _),
        fun j hji => (hj j hji).imp (Function.update_of_ne hji _ _).trans
          (Function.update_of_ne hji _ _).trans⟩
      woke := fun j hjt => by
        by_cases hji : j = i
        · subst hji
          exact ⟨_, List.mem_cons_self⟩
        · exact absurd ((Function.update_of_ne hji _ _).symm.trans hjt) (hnone j) }

theorem Inv.register (h : Inv s) (k : ω) :
    Inv ({ s with waker := some k, poll := .registered k }.record (.registered k)) where
  spec := ⟨trivial, h.spec⟩
  value := h.value
  waker _ := rfl
  registered k' hk := by
    cases hk
    rfl
  absent := h.absent
  winner hs := by
    obtain ⟨i, v, hm, hi, hj⟩ := h.winner hs
    exact ⟨i, v, List.mem_cons_of_mem _ hm, hi, hj⟩
  woke i hi := by
    obtain ⟨o, ho⟩ := h.woke i hi
    exact ⟨o, List.mem_cons_of_mem _ ho⟩

theorem Inv.step (h : Inv s) (a : Act α ω) : Inv (s.step a) := by
  cases a with
  | set i v =>
    dsimp only [CellRun.step]
    split
    · rename_i hi
      cases hv : s.value with
      | none =>
        have := h.install hi v hv
        simpa only [TerminalCell.install, hv] using this
      | some u =>
        have := h.refuse hi v hv
        simpa only [TerminalCell.install, hv] using this
    · exact h
  | wake i =>
    dsimp only [CellRun.step]
    split
    · rename_i hi
      exact h.wake hi
    · exact h
  | get => exact h.observe (e := .got s.value) (p := s.poll) h.value rfl rfl fun _ hk => hk
  | poll k =>
    dsimp only [CellRun.step]
    split
    · cases hv : s.value with
      | none =>
        have hmiss := h.observe (e := .missed k) (p := .missed k) (h.value.symm.trans hv) rfl rfl
          nofun
        simpa only [TerminalCell.get, hv] using hmiss
      | some v =>
        have hready := h.observe (e := .ready v) (p := s.poll) (h.value.symm.trans hv) rfl rfl
          fun _ hk => hk
        simpa only [TerminalCell.get, hv] using hready
    · exact h
  | register =>
    dsimp only [CellRun.step]
    split
    · exact h.register _
    · exact h
  | reread =>
    dsimp only [CellRun.step]
    split
    · rename_i k hp
      cases hv : s.value with
      | none =>
        have hpend := h.observe (e := .pending k) (p := .idle)
          ⟨h.value.symm.trans hv, h.registered k hp⟩ rfl rfl nofun
        simpa only [TerminalCell.get, hv] using hpend
      | some v =>
        have hready := h.observe (e := .ready v) (p := .idle) (h.value.symm.trans hv) rfl rfl nofun
        simpa only [TerminalCell.get, hv] using hready
    · exact h

theorem Inv.run (h : Inv s) (acts : List (Act α ω)) : Inv (s.run acts) := by
  induction acts generalizing s with
  | nil => exact h
  | cons a acts ih => exact ih (h.step a)

/-! ## 5. What the cell promises -/

/-- A `get` or a poll has returned `v`. -/
def Observed (s : CellRun α ω) (v : α) : Prop := .got (some v) ∈ s.log ∨ .ready v ∈ s.log

/-- What the users of the cell rely on. -/
structure Exact (s : CellRun α ω) : Prop where
  /-- No two `set` calls return true ... -/
  once : ∀ i j, s.sets i = .returned true → s.sets j = .returned true → i = j
  /-- ... and when no call is under way, one has, unless there was no call. -/
  someone : ∀ i, s.sets i ≠ .absent → (∀ j, s.sets j ≠ .waking) → ∃ j, s.sets j = .returned true
  /-- Whatever was observed was installed, by the call that returns true. -/
  observed : ∀ v, s.Observed v → ∃ i, .installed i v ∈ s.log ∧
    (s.sets i = .waking ∨ s.sets i = .returned true)
  /-- There is one value to observe, for ever. -/
  sticky : ∀ i j u v, .installed i u ∈ s.log → .installed j v ∈ s.log → i = j ∧ u = v
  /-- Once a `set` has returned, whatever it returned, a poll that starts is ready at once. -/
  ready : ∀ i won, s.sets i = .returned won → s.poll = .idle → ∀ k, ∃ j v,
    .installed j v ∈ s.log ∧ s.step (.poll k) = s.record (.ready v)
  /-- When the first `set` has returned, it has woken every poll that had returned `Pending`: its
  waker, or the one a later poll had put in its place. -/
  woken : ∀ post k pre, s.log = post ++ .pending k :: pre → ∀ i, s.sets i = .returned true →
    ∃ k', .woke i (some k') ∈ post ∧ (k' = k ∨ .registered k' ∈ post)

theorem Inv.winner_unique (h : Inv s) {i j : Nat}
    (hi : s.sets i = .waking ∨ s.sets i = .returned true)
    (hj : s.sets j = .waking ∨ s.sets j = .returned true) : i = j := by
  have hsome : (firstValue s.log).isSome := by
    by_contra hn
    have habs := h.absent (by simpa using hn) i
    rcases hi with hi | hi <;> cases habs.symm.trans hi
  obtain ⟨w, v, -, -, hother⟩ := h.winner hsome
  have heq (x : Nat) (hx : s.sets x = .waking ∨ s.sets x = .returned true) : x = w := by
    by_contra hne
    rcases hother x hne with hy | hy <;> rcases hx with hx | hx <;> cases hx.symm.trans hy
  rw [heq i hi, heq j hj]

/-- A call that has got past the lock is the first, or was refused because of it. -/
theorem Inv.installed_of_begun (h : Inv s) {i : Nat} (hi : s.sets i ≠ .absent) :
    ∃ j v, .installed j v ∈ s.log ∧ (s.sets j = .waking ∨ s.sets j = .returned true) ∧
      firstValue s.log = some v := by
  have hsome : (firstValue s.log).isSome := by
    by_contra hn
    exact hi (h.absent (by simpa using hn) i)
  obtain ⟨j, v, hm, hj, -⟩ := h.winner hsome
  exact ⟨j, v, hm, hj, firstValue_of_installed h.spec hm⟩

theorem Inv.woken (h : Inv s) {post pre : List (CellEvent α ω)} {k : ω}
    (hlog : s.log = post ++ .pending k :: pre) {i : Nat} (hi : s.sets i = .returned true) :
    ∃ k', .woke i (some k') ∈ post ∧ (k' = k ∨ .registered k' ∈ post) := by
  have hspec := h.spec
  rw [hlog] at hspec
  obtain ⟨hnone, hlast⟩ : firstValue pre = none ∧ lastWaker pre = some k := hspec.at
  obtain ⟨o, ho⟩ := h.woke i hi
  rw [hlog] at ho
  rcases List.mem_append.mp ho with ho | ho
  · obtain ⟨p1, p2, rfl⟩ := List.append_of_mem ho
    rw [List.append_assoc] at hspec
    have hwoke : CellSpec (.woke i o) (p2 ++ .pending k :: pre) := hspec.at
    obtain ⟨-, rfl⟩ := hwoke
    have hlast' : lastWaker (.pending k :: pre) = some k := hlast
    obtain ⟨k', hk', hor⟩ := lastWaker_append hlast' p2
    refine ⟨k', hk' ▸ ho, hor.imp_right fun hm => ?_⟩
    exact List.mem_append_right _ (List.mem_cons_of_mem _ hm)
  · -- before the poll read nothing, nobody had anything to wake for
    rcases List.mem_cons.mp ho with ho | ho
    · cases ho
    · obtain ⟨p1, p2, rfl⟩ := List.append_of_mem ho
      have hwoke : CellSpec (.woke i o) p2 := hspec.past.2.at
      obtain ⟨⟨v, hv⟩, -⟩ := hwoke
      have hm : .installed i v ∈ p1 ++ .woke i o :: p2 :=
        List.mem_append_right _ (List.mem_cons_of_mem _ hv)
      have := firstValue_isSome_of_installed hm
      rw [hnone] at this
      cases this

/-- **The terminal cell is exact**, whatever the order of the steps of its users. -/
theorem terminal_cell_exact (acts : List (Act α ω)) :
    Exact ((init : CellRun α ω).run acts) := by
  have h : Inv ((init : CellRun α ω).run acts) := inv_init.run acts
  generalize (init : CellRun α ω).run acts = s at h
  have hfirst {v : α} (hv : s.Observed v) : firstValue s.log = some v := by
    rcases hv with hv | hv
    · obtain ⟨post, pre, hlog⟩ := List.append_of_mem hv
      have hspec := h.spec
      rw [hlog] at hspec ⊢
      have hgot : some v = firstValue pre := hspec.at
      have hgot' : firstValue (.got (some v) :: pre) = some v := hgot.symm
      exact firstValue_append hgot' post
    · obtain ⟨post, pre, hlog⟩ := List.append_of_mem hv
      have hspec := h.spec
      rw [hlog] at hspec ⊢
      have hready : firstValue (.ready v :: pre) = some v := hspec.at
      exact firstValue_append hready post
  refine ⟨fun i j hi hj => h.winner_unique (.inr hi) (.inr hj), fun i hi hdone => ?_,
    fun v hv => ?_, fun i j u v hu hv => ?_, fun i won hi hp k => ?_,
    fun post k pre hlog i hi => h.woken hlog hi⟩
  · obtain ⟨j, v, -, hj, -⟩ := h.installed_of_begun hi
    exact ⟨j, hj.resolve_left (hdone j)⟩
  · obtain ⟨i, u, hm, hi, -⟩ := h.winner (by rw [hfirst hv]; rfl)
    have hu := firstValue_of_installed h.spec hm
    rw [hfirst hv] at hu
    cases hu
    exact ⟨i, hm, hi⟩
  · exact installed_unique h.spec hu hv
  · obtain ⟨j, v, hm, -, hv⟩ := h.installed_of_begun (i := i) (by rw [hi]; nofun)
    refine ⟨j, v, hm, ?_⟩
    have hval : s.value = some v := h.value.trans hv
    simp only [CellRun.step, hp, TerminalCell.get, hval]

/-- The value is installed between the fast path and the registration: the second read sees it. -/
example : ((init : CellRun Nat Nat).run
    [.poll 0, .set 0 55, .register, .wake 0, .reread]).log =
    [.ready 55, .woke 0 (some 0), .registered 0, .installed 0 55, .missed 0] := rfl

/-! ## 6. The cell of the driver's model -/

/-- The values `set` was called with, the latest to take the lock first. -/
def setCalls : List (CellEvent α ω) → List α
  | [] => []
  | .installed _ v :: tr | .refused _ v :: tr => v :: setCalls tr
  | _ :: tr => setCalls tr

/-- Elsewhere a cell is its value and `set` is `cellSet`, in one step. -/
def AsCellSet (s : CellRun α ω) : Prop :=
  s.value = (setCalls s.log).foldr (fun v c => cellSet c v) none

theorem AsCellSet.step (h : AsCellSet s) (a : Act α ω) : AsCellSet (s.step a) := by
  unfold AsCellSet at h
  cases a with
  | set i v =>
    dsimp only [CellRun.step]
    split
    · have hv := TerminalCell.install_value s.cell v
      split
      · rename_i c hc
        rw [hc] at hv
        exact hv.trans (congrArg (cellSet · v) h)
      · rename_i c hc
        -- a refused value leaves the cell as it is
        have hsame : c = s.cell := by
          unfold TerminalCell.install at hc
          split at hc
          · exact (Prod.mk.inj hc).1.symm
          · cases hc
        rw [hc, hsame] at hv
        exact hv.trans (congrArg (cellSet · v) h)
    · exact h
  | wake | register =>
    dsimp only [CellRun.step]
    split <;> exact h
  | get => exact h
  | poll | reread =>
    dsimp only [CellRun.step]
    split
    · split <;> exact h
    · exact h

/-- **The cell refines `cellSet`**: the value is what the calls of `set` leave, one after the
other in the order in which they took the lock. -/
theorem asCellSet_run (acts : List (Act α ω)) : AsCellSet ((init : CellRun α ω).run acts) := by
  have h0 : AsCellSet (init : CellRun α ω) := rfl
  generalize (init : CellRun α ω) = s at h0
  induction acts generalizing s with
  | nil => exact h0
  | cons a acts ih => exact ih (s.step a) (h0.step a)

end CellRun

end QuicheH3
