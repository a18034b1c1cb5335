/-
# No operation is dropped

Two things could leave the user of a stream without an answer.  An entry could go while operations
are queued on it: their completions are dropped uncompleted (`cancel`).  And an entry could go under
a handle whose status cell was never written: what the handle learns once the channel is closed
would then be the adapter's own error.

Neither happens to a stream that is opened once and for which nothing is submitted after its
`Finish`.  An entry goes in one of two ways (`Kept.move`): its direction was ended by a terminal,
and then the terminal is PUBLISHED and nothing is queued; or its `Finish` was completed, and then
nothing was submitted behind it.
-/
import QuicheH3.Life.Operations

namespace QuicheH3

open Lib

/-! ## 1. Events -/

/-- No completion of stream `id` is dropped. -/
def NoCancel (id : Nat) (e : Event) (pre : List Event) : Prop :=
  ∀ t, e = .cancel t → ¬ Submitted t id pre

/-- The event makes no handle of stream `id` and drops no completion. -/
def Event.mild (id : Nat) : Event → Prop
  | .handle i _ => i ≠ id
  | .cancel _ => False
  | _ => True

section Events

variable {id t : Nat} {tr tr' tr0 : List Event}

theorem noCancel_of_mild (e : Event) (pre : List Event) (h : e.mild id) : NoCancel id e pre := by
  rintro t rfl
  exact h.elim

theorem mild_of_isFront (e : Event) (h : e.isFront) : e.mild id := by
  cases e <;> first | exact h.elim | trivial

theorem submitted_beside (hg : Grows (Event.beside id tr0) tr tr') (h : Submitted t id tr') :
    Submitted t id tr := by
  obtain ⟨cmd, hm, ht, hid⟩ := h
  exact ⟨cmd, hg.old hm fun hx => hx hid, ht, hid⟩

/-- What is dropped beside the line is not the line's. -/
theorem noCancel_beside (hg : Grows (Event.beside id tr) tr tr') (h : Always (NoCancel id) tr) :
    Always (NoCancel id) tr' := by
  obtain ⟨evs, rfl, hall⟩ := hg
  induction evs with
  | nil => exact h
  | cons e evs ih =>
    have hrest : ∀ x ∈ evs, x.beside id tr := fun x hx => hall x (List.mem_cons_of_mem _ hx)
    refine ⟨?_, ih hrest⟩
    rintro t rfl hs
    exact hall _ List.mem_cons_self (submitted_beside ⟨evs, rfl, hrest⟩ hs)

end Events

/-! ## 2. The line -/

namespace Line

/-- What an entry stands for: a direction that has finished without a terminal has nothing left and
its `Finish` was asked for; a terminal is published. -/
structure EntryKept (id : Nat) (l : Line) (s : StreamSendState) : Prop where
  done : s.finished = true → s.terminal = none → l.ops = [] ∧ Finishing id l.hist
  reset : s.pendingReset.isSome → s.terminal.isSome
  told : s.terminal.isSome → Published s.status l.hist

/-- What the user of a handle can learn: a terminal is published, or the stream is finishing, or the
entry that will be told of a terminal is there. -/
def Minded (id : Nat) (l : Line) (c : Nat) : Prop :=
  Published c l.hist ∨ Finishing id l.hist ∨ ∃ s, l.send = some s ∧ s.status = c

/-- Nothing on the line is dropped without an answer. -/
structure Kept (id : Nat) (l : Line) : Prop where
  order : InOrder id l
  entry : ∀ s, l.send = some s → EntryKept id l s
  handle : ∀ c, .handle id c ∈ l.hist → Minded id l c
  ok : Always (NoCancel id) l.hist

variable {id t : Nat} {ok : Bytes → Nat → Prop} {l l' : Line} {s s' : StreamSendState}

theorem EntryKept.mono (h : EntryKept id l s) (hops : l'.ops = l.ops) (hsub : l.hist ⊆ l'.hist) :
    EntryKept id l' s where
  done hf ht := by
    obtain ⟨ho, hF⟩ := h.done hf ht
    exact ⟨hops.trans ho, hF.mono hsub⟩
  reset := h.reset
  told ht := (h.told ht).mono hsub

namespace Kept

/-- A handle that was made before is still minded. -/
theorem minded (h : Kept id l) (hsub : l.hist ⊆ l'.hist) {c : Nat} (hc : .handle id c ∈ l.hist)
    (hs : ∀ s, l.send = some s → Minded id l' s.status) : Minded id l' c := by
  rcases h.handle c hc with hp | hf | ⟨s, hs', rfl⟩
  · exact .inl (hp.mono hsub)
  · exact .inr (.inl (hf.mono hsub))
  · exact hs s hs'

/-- The entry goes on. -/
theorem goOn (h : Kept id l) (hord : InOrder id l')
    (hg : Grows (Event.mild id) l.hist l'.hist)
    (hs : l.send = some s) (hs' : l'.send = some s') (hst : s'.status = s.status)
    (he : EntryKept id l' s') : Kept id l' where
  order := hord
  entry x hx := by
    cases hs'.symm.trans hx
    exact he
  handle c hc := by
    refine h.minded hg.subset (hg.old hc fun hx => hx rfl) fun x hx => ?_
    cases hs.symm.trans hx
    exact .inr (.inr ⟨s', hs', hst⟩)
  ok := hg.always noCancel_of_mild h.ok

/-- An entry that has not ended goes on, and has not finished. -/
theorem send (h : Kept id l) (hord : InOrder id l')
    (hg : Grows (Event.mild id) l.hist l'.hist)
    (hs : l.send = some s) (ho : s.Open) (hs' : l'.send = some s') (hst : s'.status = s.status)
    (ht : s'.terminal = s.terminal) (hp : s'.pendingReset = s.pendingReset)
    (hf : s'.finished = true → l'.ops = [] ∧ Finishing id l'.hist) : Kept id l' := by
  refine h.goOn hord hg hs hs' hst ⟨fun hfin _ => hf hfin, fun hx => ?_, fun hx => ?_⟩
  · rw [hp, ho.pendingReset] at hx
    cases hx
  · rw [ht, ho.terminal] at hx
    cases hx

/-- An entry that has operations has not finished. -/
theorem not_finished (h : Kept id l) (hs : l.send = some s) (ht : s.terminal = none)
    {op : SendOp} (hop : op ∈ l.ops) : s.finished ≠ true := by
  intro hf
  rw [((h.entry s hs).done hf ht).1] at hop
  cases hop

theorem mem_ops (hs : l.send = some s) {op : SendOp} {ops : List SendOp}
    (hop : s.sendOps = op :: ops) : op ∈ l.ops := by
  rw [ops_some hs, hop]
  exact List.mem_append_left _ List.mem_cons_self

/-- The `Finish` at the front is completed: nothing is left. -/
theorem finished (h : Kept id l) (hP : Always (NoLate id) l.hist) {ops : List SendOp}
    (hs : l.send = some s) (hop : s.sendOps = .finish t :: ops) (hs' : l'.send = some s')
    (hops : s'.sendOps = ops) (hc : l'.cmds = l.cmds) (hsub : l.hist ⊆ l'.hist) :
    l'.ops = [] ∧ Finishing id l'.hist := by
  have hl : l.ops = .finish t :: (ops ++ opsAmong l.cmds) := by
    rw [ops_some hs, hop]
    rfl
  constructor
  · rw [ops_some hs', hops, hc]
    exact h.order.finish_alone hP hl
  · have hfin : Finishing id l.hist :=
      ⟨t, h.order.submitted_finish (by rw [hl]; exact List.mem_cons_self)⟩
    exact hfin.mono hsub

/-- An entry is made where there is none; so every handle there is was told, or the stream is
finishing. -/
theorem new (h : Kept id l) (hs : l.send = none) {c' : Nat} (hc' : .handle id c' ∈ l.hist)
    (hsub : l.hist ⊆ l'.hist) : Minded id l' c' :=
  h.minded hsub hc' fun s hx => by cases hs.symm.trans hx

theorem entry_new {c : Nat} : EntryKept id l (.new c) := ⟨nofun, nofun, nofun⟩

/-- The entry goes: it has no operation, and who looks at its cell finds a terminal, or has
finished. -/
theorem reclaim (h : Kept id l) (hs : l.send = some s) (hf : s.finished = true) :
    s.sendOps = [] ∧ (Published s.status l.hist ∨ Finishing id l.hist) := by
  cases ht : s.terminal with
  | some e =>
    have hsome : s.terminal.isSome := by rw [ht]; rfl
    exact ⟨h.order.ended s hs hsome, .inl ((h.entry s hs).told hsome)⟩
  | none =>
    obtain ⟨hops, hfin⟩ := (h.entry s hs).done hf ht
    rw [ops_some hs] at hops
    exact ⟨(List.append_eq_nil_iff.mp hops).1, .inr hfin⟩

/-- **Every step drops no operation and leaves no handle alone.** -/
theorem move (h : Kept id l) (hm : Move id ok l l') (hP : Always (NoLate id) l'.hist) :
    Kept id l' := by
  have hpast : Always (NoLate id) l.hist := hP.suffix hm.suffix
  have hord := h.order.move hm
  have hone (e : Event) (tr : List Event) (he : e.mild id) : Grows (Event.mild id) tr (e :: tr) :=
    .one he
  have htwo (e e' : Event) (tr : List Event) (he : e.mild id) (he' : e'.mild id) :
      Grows (Event.mild id) tr (e :: e' :: tr) := .cons he (.one he')
  cases hm with
  | beside tr hg =>
    have hsub : l.hist ⊆ tr := hg.subset
    refine ⟨hord, fun s hs => ?_, fun c hc => ?_, noCancel_beside hg h.ok⟩
    · exact (h.entry s hs).mono rfl hsub
    · exact h.minded hsub (hg.old hc fun hx => hx rfl) fun s hs => .inr (.inr ⟨s, hs, rfl⟩)
  | front v cs tr hv hf =>
    subst hv
    have hg : Grows (Event.mild id) v.hist tr := hf.grows.mono mild_of_isFront
    refine ⟨hord, fun s hs => ?_, fun c hc => ?_, hg.always noCancel_of_mild h.ok⟩
    · have he := h.entry s hs
      refine ⟨fun hfin ht => ?_, he.reset, fun ht => (he.told ht).mono hg.subset⟩
      obtain ⟨hops, hF⟩ := he.done hfin ht
      refine ⟨?_, hF.mono hg.subset⟩
      rw [InOrder.front_ops, hops, List.nil_append]
      exact opsAmong_eq_nil hf hP hF
    · have hsub : v.line.hist ⊆ tr := hg.subset
      exact h.minded hsub (hg.old hc fun hx => hx rfl) fun s hs => .inr (.inr ⟨s, hs, rfl⟩)
  | skip cmd rest hc hop =>
    have hops : ({ l with cmds := rest } : Line).ops = l.ops := by
      unfold ops
      rw [hc, opsAmong_cons_none hop]
      rfl
    refine ⟨hord, fun s hs => ?_, h.handle, h.ok⟩
    exact (h.entry s hs).mono hops (List.Subset.refl _)
  | queue cmd rest op s hc hop hs ht =>
    have hin : op ∈ l.ops := by
      rw [ops_some hs, hc, opsAmong_cons_some hop]
      exact List.mem_append_right _ List.mem_cons_self
    have he := h.entry s hs
    refine h.goOn hord (.refl _ _) hs rfl rfl ⟨?_, he.reset, he.told⟩
    exact fun hf _ => (h.not_finished hs ht hin hf).elim
  | refuse cmd rest op s e hc hop hs ht =>
    have he := h.entry s hs
    refine h.goOn hord (hone _ _ trivial) hs rfl rfl ⟨?_, he.reset,
      fun hx => (he.told hx).mono (List.subset_cons_self _ _)⟩
    intro _ hx
    rw [ht] at hx
    cases hx
  | make c hs hn =>
    have hg := hone (.sendOpen id c) l.hist trivial
    refine ⟨hord, fun s hx => ?_, fun c' hc' => ?_, hg.always noCancel_of_mild h.ok⟩
    · cases hx
      exact entry_new
    · exact h.new hs (hg.old hc' fun hx => hx rfl) hg.subset
  | opened c hs hn =>
    have hsub : l.hist ⊆ .sendOpen id c :: .handle id c :: l.hist :=
      (suffix_cons_cons _ _ _).subset
    refine ⟨hord, fun s hx => ?_, fun c' hc' => ?_, ⟨nofun, nofun, h.ok⟩⟩
    · cases hx
      exact entry_new
    · simp only [List.mem_cons, reduceCtorEq, false_or, Event.handle.injEq, true_and] at hc'
      rcases hc' with rfl | hc'
      · exact .inr (.inr ⟨_, rfl, rfl⟩)
      · exact h.new hs hc' hsub
  | retained c e hn =>
    have hsub : l.hist ⊆ .sendSet c e :: .handle id c :: l.hist := (suffix_cons_cons _ _ _).subset
    refine ⟨hord, fun s hs => ?_, fun c' hc' => ?_, ⟨nofun, nofun, h.ok⟩⟩
    · exact (h.entry s hs).mono rfl hsub
    · simp only [List.mem_cons, reduceCtorEq, false_or, Event.handle.injEq, true_and] at hc'
      rcases hc' with rfl | hc'
      · exact .inl ⟨e, List.mem_cons_self⟩
      · exact h.minded hsub hc' fun s hs => .inr (.inr ⟨s, hs, rfl⟩)
  | lapse c hs hf =>
    have hg := hone (.sendClose id c) l.hist trivial
    have hfin : Finishing id (.sendClose id c :: l.hist) := Finishing.mono hf hg.subset
    refine ⟨hord, nofun, fun c' hc' => ?_, hg.always noCancel_of_mild h.ok⟩
    exact .inr (.inl hfin)
  | reclaim s hs hf =>
    obtain ⟨hops, hend⟩ := h.reclaim hs hf
    have hcan : cancelled s.sendOps l.hist = l.hist := by
      rw [hops]
      rfl
    have hg : Grows (Event.mild id) l.hist
        (.sendClose id s.status :: cancelled s.sendOps l.hist) := by
      rw [hcan]
      exact hone _ _ trivial
    refine ⟨hord, nofun, fun c hc => ?_, hg.always noCancel_of_mild h.ok⟩
    refine h.minded hg.subset (hg.old hc fun hx => hx rfl) fun x hx => ?_
    cases hs.symm.trans hx
    exact hend.imp (·.mono hg.subset) fun hF => .inl (hF.mono hg.subset)
  | ended s e reset fin tr hs ho hc =>
    have hset : Grows (Event.mild id) l.hist tr := by
      cases hc with
      | old => exact .refl _ _
      | new => exact hone _ _ trivial
    have hpub : Published s.status tr := by
      cases hc with
      | old hp => exact hp
      | new => exact ⟨e, List.mem_cons_self⟩
    have hres : Grows (Event.mild id) tr (resolved s.sendOps (.error e) tr) :=
      World.grows_resolved _ _ _ fun _ _ => trivial
    exact h.goOn hord (hset.trans hres) hs rfl rfl
      ⟨nofun, fun _ => rfl, fun _ => hpub.mono hres.subset⟩
  | served s code hs hp =>
    have he := h.entry s hs
    have hterm : s.terminal.isSome := he.reset (by rw [hp]; rfl)
    refine h.goOn hord (.refl _ _) hs rfl rfl ⟨fun _ ht => ?_, nofun, he.told⟩
    rw [show s.terminal = none from ht] at hterm
    cases hterm
  | sendErr s data fin err hs ho hw =>
    have hg := hone (.streamSend id data fin (.error err)) l.hist trivial
    exact h.goOn hord hg hs hs rfl ((h.entry s hs).mono rfl hg.subset)
  | flush s buf fin n hs ho hh hr hn hm =>
    have hg := hone (.streamSend id buf.offered (buf.offerFin fin) (.ok n)) l.hist trivial
    refine h.send hord hg hs ho rfl rfl rfl rfl fun hf => ?_
    obtain ⟨hops, hF⟩ := (h.entry s hs).done hf ho.terminal
    rw [ops_some hs] at hops
    rw [ops_some rfl]
    exact ⟨hops, hF.mono hg.subset⟩
  | flushFin s buf n t ops hs ho hh hr hop hn hm =>
    have hg := htwo (.resolve t (.ok ()))
      (.streamSend id buf.offered (buf.offerFin true) (.ok n)) l.hist trivial trivial
    exact h.send hord hg hs ho rfl rfl rfl rfl fun _ =>
      h.finished hpast hs hop rfl rfl rfl hg.subset
  | emptyHeld s buf hs hh hr =>
    have he := h.entry s hs
    refine h.goOn hord (.refl _ _) hs rfl rfl ⟨fun hf ht => ?_, he.reset, he.told⟩
    obtain ⟨hops, hF⟩ := he.done hf ht
    rw [ops_some hs] at hops
    rw [ops_some rfl]
    exact ⟨hops, hF⟩
  | loneFin s n t ops hs ho hh hop hn =>
    have hg := htwo (.resolve t (.ok ())) (.streamSend id [] true (.ok n)) l.hist trivial trivial
    exact h.send hord hg hs ho rfl rfl rfl rfl fun _ =>
      h.finished hpast hs hop rfl rfl rfl hg.subset
  | emptyFin s buf t ops hs ho hh hr hop =>
    have hg := hone (.resolve t (.ok ())) l.hist trivial
    exact h.send hord hg hs ho rfl rfl rfl rfl fun _ =>
      h.finished hpast hs hop rfl rfl rfl hg.subset
  | hold _ _ _ _ _ hs ho _ hop | offer _ _ _ _ _ _ hs ho _ hop | skipWrite _ _ _ _ _ hs ho _ hop =>
    exact h.send hord (hone _ _ trivial) hs ho rfl rfl rfl rfl
      fun hf => (h.not_finished hs ho.terminal (mem_ops hs hop) hf).elim
  | accept s buf t p ops n hs ho hh hop hr hn hm =>
    exact h.send hord (htwo _ _ _ trivial trivial) hs ho rfl rfl rfl rfl
      fun hf => (h.not_finished hs ho.terminal (mem_ops hs hop) hf).elim

theorem init (id : Nat) : Kept id Life.fresh.line := ⟨.init id, nofun, nofun, trivial⟩

end Kept

end Line

end QuicheH3
