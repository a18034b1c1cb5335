/-
# The sticky terminal

The terminal of a send half is kept twice: in the registry entry (`terminal`), where later
commands find it, and in the status cell the handle reads.  The worker writes the two side by side
and the cell is first-writer-wins, so an entry over a cell that somebody has written would keep a
terminal of its own.  This does not happen, WHATEVER the transport reports: an entry is made over a
cell nobody has seen, and only its own moves write that cell.

Contents
  1  the invariant
  2  ends, 3 making entries
  4  the moves
-/
import QuicheH3.Life.Fate

namespace QuicheH3

open Lib

/-! ## 1. The invariant -/

/-- Events that write no status cell of stream `id`; `tr` says which cells are those. -/
def Event.spareCells (id : Nat) (tr : List Event) : Event → Prop
  | .sendSet c _ => ¬ CellOf c id tr
  | _ => True

theorem spareCells_of_foreign {id : Nat} {tr : List Event} (e : Event) (h : e.foreign id tr) :
    e.spareCells id tr := by
  cases e <;> first | exact h | trivial

theorem spareCells_of_isFront {id : Nat} {tr : List Event} (e : Event) (h : e.isFront) :
    e.spareCells id tr := by
  cases e <;> first | exact h.elim | trivial

theorem spareCells_of_isEnd {id : Nat} {tr : List Event} (e : Event) (h : e.isEnd id) :
    e.spareCells id tr := by
  cases e <;> first | exact h.elim | trivial

/-- The entry is over a cell of the stream, and holds what the cell holds. -/
structure Paired (id : Nat) (v : Life) : Prop where
  cell : ∀ s, v.send = some s → CellOf s.status id v.hist
  stuck : ∀ s, v.send = some s → ∀ e, s.terminal = some e ↔ .sendSet s.status e ∈ v.hist

namespace Paired

variable {srv : Bool} {id : Nat} {ok : Bytes → Nat → Prop} {v v' : Life} {s s' : StreamSendState}

variable (h : Paired id v)

include h

/-- The cell is not touched, and the entry keeps it with its terminal, or goes. -/
theorem keep (hg : Grows (Event.spareCells id v.hist) v.hist v'.hist)
    (hs : ∀ s', v'.send = some s' →
      ∃ s, v.send = some s ∧ s'.status = s.status ∧ s'.terminal = s.terminal) : Paired id v' where
  cell s' hs' := by
    obtain ⟨s, hx, hst, -⟩ := hs s' hs'
    exact hst ▸ (h.cell s hx).mono hg.subset
  stuck s' hs' e := by
    obtain ⟨s, hx, hst, hte⟩ := hs s' hs'
    rw [hst, hte, h.stuck s hx e]
    exact ⟨(hg.subset ·), fun hm => hg.old hm (not_not_intro (h.cell s hx))⟩

theorem same (hg : Grows (Event.spareCells id v.hist) v.hist v'.hist)
    (hs : v'.send = v.send) : Paired id v' :=
  h.keep hg fun s' hx => ⟨s', hs ▸ hx, rfl, rfl⟩

theorem emit (e : Event) (he : e.spareCells id v.hist) : Paired id (v.emit e) :=
  h.same (.one he) rfl

/-- The entry moves on under its cell. -/
theorem put (hs : v.send = some s)
    (hg : Grows (Event.spareCells id v.hist) v.hist v'.hist) (hs' : v'.send = some s')
    (hst : s'.status = s.status) (hte : s'.terminal = s.terminal) : Paired id v' :=
  h.keep hg fun x hx => by
    cases hs'.symm.trans hx
    exact ⟨s, hs, hst, hte⟩

omit h in
/-- An entry is made over a cell nobody has written. -/
theorem made {c : Nat} (hs : v.send = some (.new c)) (hc : CellOf c id v.hist)
    (hn : ¬ Published c v.hist) : Paired id v where
  cell s hx := by
    cases hs.symm.trans hx
    exact hc
  stuck s hx e := by
    cases hs.symm.trans hx
    exact iff_of_false nofun fun hm => hn ⟨e, hm⟩

/-- An open entry's cell is unwritten. -/
theorem unpublished (hs : v.send = some s) (ho : s.Open) : ¬ Published s.status v.hist := by
  rintro ⟨e, he⟩
  cases ho.terminal.symm.trans ((h.stuck s hs e).mpr he)

/-- The terminal is put in the entry and in its cell. -/
theorem written (hs : v.send = some s) (ho : s.Open) {e : SendEnd}
    {tr : List Event} (hc : SetCell s.status e v.hist tr)
    (hg : Grows (fun x => ∀ c y, x ≠ .sendSet c y) tr v'.hist) (hs' : v'.send = some s')
    (hst : s'.status = s.status) (hte : s'.terminal = some e) : Paired id v' := by
  have hn := h.unpublished hs ho
  have htr := hc.eq_cons hn
  have hsub : v.hist ⊆ v'.hist := fun x hx => hg.subset (hc.suffix.subset hx)
  refine ⟨fun x hx => ?_, fun x hx y => ?_⟩
  · cases hs'.symm.trans hx
    exact hst ▸ (h.cell s hs).mono hsub
  · cases hs'.symm.trans hx
    rw [hst, hte, hg.mem_iff fun hn => hn _ _ rfl, htr, List.mem_cons]
    constructor
    · rintro ⟨rfl⟩
      exact .inl rfl
    · rintro (hx | hx)
      · cases hx
        rfl
      · exact absurd ⟨y, hx⟩ hn

/-! ## 2. Ends -/

theorem settle : Paired id (v.settle id) := by
  refine h.same ((Life.settle_grows v id).mono spareCells_of_isEnd) ?_
  unfold Life.settle Life.closeRecv
  split
  · split <;> rfl
  · rfl

theorem closeSend : Paired id (v.closeSend id) := by
  refine h.keep ((Life.closeSend_grows v id).mono spareCells_of_isEnd) fun s hs => ?_
  unfold Life.closeSend at hs
  split at hs
  · exact ⟨s, hs, rfl, rfl⟩
  · cases hs

theorem reclaim : Paired id (v.reclaim id) := by
  unfold Life.reclaim
  split
  · split
    · exact h.closeSend.same (.refl _ _) rfl
    · exact h
  · exact h

theorem closeRecv : Paired id (v.closeRecv id) := by
  refine h.same ((Life.closeRecv_grows v id).mono spareCells_of_isEnd) ?_
  unfold Life.closeRecv
  split <;> rfl

theorem recvDone : Paired id (v.recvDone id) := by
  have h1 : Paired id ((v.closeRecv id).emit (.recvDone id)) := h.closeRecv.emit _ trivial
  unfold Life.recvDone
  refine reclaim (settle ?_)
  exact h1.same (.refl _ _) rfl

theorem sendDone : Paired id (v.sendDone id) := by
  unfold Life.sendDone
  refine settle (h.keep (.one trivial) fun s' hs' => ?_)
  obtain ⟨s, hs, rfl⟩ := Option.map_eq_some_iff.mp hs'
  exact ⟨s, hs, rfl, rfl⟩

theorem completeFinish : Paired id (v.completeFinish id) := by
  have hpop : Paired id v.popOp := by
    unfold Life.popOp
    split
    · rename_i s hs
      split
      · exact h.put hs (.one trivial) rfl rfl rfl
      · exact h
    · exact h
  exact hpop.sendDone.reclaim

/-! ## 3. Making entries -/

theorem take {b : Bool} {p : PeerStream} (ht : Life.Take v b p v') : Paired id v' := by
  cases ht with
  | pending | parked => exact h.same (.refl _ _) rfl

theorem openRecv (j : Nat) : Paired id (v.openRecv id j) :=
  (h.closeRecv.emit (.recvOpen id j) trivial).same (.refl _ _) rfl

omit h in
/-- A fresh cell stays unwritten while halves are built. -/
theorem unpublished_of_grows {c : Nat} {tr tr' : List Event}
    (hg : Grows (fun e => ∀ c x, e ≠ .sendSet c x) tr tr') (h : ¬ Published c tr) :
    ¬ Published c tr' := by
  rintro ⟨e, he⟩
  exact h ⟨e, hg.old he fun hn => hn _ _ rfl⟩

omit h in
theorem mute_of_isEnd (e : Event) (h : e.isEnd id) : ∀ c x, e ≠ .sendSet c x := by
  rintro c x rfl
  exact h

/-- A retained stop goes to a cell of its own, and no entry is made. -/
theorem openSend {c : Nat} (hc : FreshCell c v.hist)
    (retained : Option SendEnd) : Paired id (v.openSend id c retained) := by
  cases retained with
  | some e =>
    refine h.same (.cons (hc.1 id) (.one trivial)) rfl
  | none =>
    refine made rfl (.inr List.mem_cons_self) ?_
    have hmute := (Life.closeSend_grows (v.emit (.handle id c)) id).mono mute_of_isEnd
    have hg : Grows (fun e => ∀ c x, e ≠ .sendSet c x) v.hist
        ((v.emit (.handle id c)).closeSend id).hist :=
      Grows.trans (.one (by simp)) hmute
    exact unpublished_of_grows (hg.cons (by simp)) hc.2

omit h in
/-- The cell of a new half is one that no entry is over. -/
theorem freshCell_openRecv {c j : Nat} (hc : FreshCell c v.hist) :
    FreshCell c (v.openRecv id j).hist := by
  have hg : Grows (fun e => (∀ c x, e ≠ .sendSet c x) ∧ (∀ i c, e ≠ .handle i c) ∧
      ∀ i c, e ≠ .sendOpen i c) v.hist (v.openRecv id j).hist := by
    unfold Life.openRecv Life.closeRecv
    split
    · exact .one (by simp)
    · exact .cons (by simp) (.one (by simp))
  refine ⟨fun i hi => hc.1 i (hi.imp ?_ ?_), unpublished_of_grows (hg.mono fun _ he => he.1) hc.2⟩
  · exact fun hm => hg.old hm fun hn => hn.2.1 _ _ rfl
  · exact fun hm => hg.old hm fun hn => hn.2.2 _ _ rfl

omit h in
theorem freshCell_emit {c : Nat} (hc : FreshCell c v.hist) (e : Event)
    (he : (∀ c x, e ≠ .sendSet c x) ∧ (∀ i c, e ≠ .handle i c) ∧ ∀ i c, e ≠ .sendOpen i c) :
    FreshCell c (v.emit e).hist := by
  refine ⟨fun i hi => hc.1 i (hi.imp ?_ ?_), ?_⟩
  · exact fun hm => (List.mem_cons.mp hm).resolve_left fun hx => he.2.1 i c hx.symm
  · exact fun hm => (List.mem_cons.mp hm).resolve_left fun hx => he.2.2 i c hx.symm
  · rintro ⟨x, hx⟩
    exact hc.2 ⟨x, (List.mem_cons.mp hx).resolve_left fun hx => he.1 c x hx.symm⟩

/-- The halves of a local stream. -/
theorem openLocal {c : Nat} (hc : FreshCell c v.hist) (j : Nat) (b : Bool) :
    Paired id (if b then ((v.emit (.streamPriority id true)).openRecv id j).openSend id c none
      else (v.emit (.streamPriority id true)).openSend id c none) := by
  have h1 := h.emit (.streamPriority id true) trivial
  have hc1 := freshCell_emit hc (.streamPriority id true) (by simp)
  split
  · exact (h1.openRecv j).openSend (freshCell_openRecv hc1) none
  · exact h1.openSend hc1 none

theorem ensure {c : Nat} (hc : ¬ Published c v.hist) : Paired id (v.ensure id c) := by
  unfold Life.ensure
  split
  · exact h
  · refine made rfl (.inr List.mem_cons_self) ?_
    have hg := Grows.refl (fun e => ∀ c x, e ≠ .sendSet c x) v.hist
    exact unpublished_of_grows (hg.cons (by simp)) hc

theorem enqueue {c : Nat} (hc : ¬ Published c v.hist) (op : SendOp) :
    Paired id (v.enqueue id c op) := by
  have h1 := h.ensure hc
  unfold Life.enqueue
  dsimp only
  split
  · exact h1
  · rename_i s hs
    split
    · exact h1.emit _ trivial
    · exact h1.put hs (.refl _ _) rfl rfl rfl

theorem pop {c : Nat} (hc : FreshCell c v.hist) (cmd : DriverCommand) (rest : List DriverCommand) :
    Paired id (v.pop cmd rest) ∧ ¬ Published c (v.pop cmd rest).hist :=
  ⟨h.same (.one trivial) rfl,
    unpublished_of_grows (.one (by simp)) hc.2⟩

theorem front {cs : List DriverCommand} {tr : List Event}
    (hf : Life.Front id v cs tr) : Paired id (v.submit cs tr) :=
  h.same (hf.grows.mono spareCells_of_isFront) rfl

theorem undeliver (b : Bool) : Paired id (v.undeliver id b) := by
  have h1 := h.closeSend.emit (.streamShutdown id .write h3RequestCancelled) trivial
  cases b with
  | true => exact h1.closeRecv.emit (.streamShutdown id .read h3RequestCancelled) trivial
  | false => exact h1

/-! ## 4. The moves -/

omit h in
theorem grows_resolved (ops : List SendOp) (res : Except SendEnd Unit) (tr : List Event) :
    Grows (fun x => ∀ c y, x ≠ .sendSet c y) tr (resolved ops res tr) :=
  World.grows_resolved _ _ _ fun _ _ => by simp

/-- **Every move keeps the terminal and its cell together.** -/
theorem move (hm : Life.Move srv id ok v v') : Paired id v' := by
  cases hm with
  | other tr hg => exact h.same (hg.mono spareCells_of_foreign) rfl
  | front cs tr hf => exact h.front hf
  | cursor | stale | lost | skipParked => exact h.same (.refl _ _) rfl
  | writable ans hs hb ha hp => exact h.same (.cons trivial (.one trivial)) rfl
  | repark v1 b p ht => exact (h.take ht).same (.refl _ _) rfl
  | tear v1 b p ht =>
    refine (h.take ht).same ?_ rfl
    dsimp only
    split
    · exact .cons trivial (.one trivial)
    · exact .one trivial
  | admitBidi v1 b p j c cs tr ht hb hc v2 hv hf =>
    have h2 : Paired id v2 := by
      subst hv
      exact (((h.take ht).openRecv j).openSend (freshCell_openRecv hc) _).same (.refl _ _) rfl
    exact (h2.front hf).emit _ trivial
  | admitUni v1 b p j cs tr ht hb v2 hv hf =>
    have h2 : Paired id v2 := by
      subst hv
      exact ((h.take ht).openRecv j).same (.refl _ _) rfl
    exact (h2.front hf).emit _ trivial
  | clean tr hg park pend hn hpark hpend hs =>
    exact h.same (hg.mono (of_passing spareCells_of_foreign fun _ => trivial)) rfl
  | settle => exact h.settle
  | openBidi j c hl hb hc => exact h.openLocal hc j true
  | openUni c hl hb hc => exact h.openLocal hc 0 false
  | undeliver j c cs tr hl hc v2 hv hf hd hs =>
    have h2 : Paired id v2 := hv ▸ h.openLocal hc j (isBidi id)
    exact (h2.front hf).undeliver (isBidi id)
  | recvEnd j tr hr hg hs =>
    have h1 : Paired id { v with hist := tr } := h.same (hg.mono spareCells_of_foreign) rfl
    exact h1.recvDone
  | abandon j hr hd => exact (h.emit (.streamShutdown id .read h3NoError) trivial).recvDone
  | applySend _ _ _ rest _ _ hn | applyFinish _ rest _ _ hn =>
    exact (h.pop hn _ rest).1.enqueue (h.pop hn _ rest).2 _
  | applyReset code rest c hc hn => exact (h.pop hn _ rest).1.ensure (h.pop hn _ rest).2
  | applyStop code rest hc =>
    have h1 : Paired id (v.pop (.stopSending id code) rest) :=
      h.same (.one trivial) rfl
    exact (h1.emit (.streamShutdown id .read code) trivial).recvDone
  | resetEntry s code tr hs ho ha hc =>
    exact h.written hs ho hc (grows_resolved _ _ _) rfl rfl rfl
  | capacity | sendErr => exact h.emit _ trivial
  | flush _ _ _ _ hs | hold _ _ _ _ _ hs | offer _ _ _ _ _ _ hs | skipWrite _ _ _ _ _ hs =>
    exact h.put hs (.one trivial) rfl rfl rfl
  | flushFin s buf n t ops hs ho hh hr hop hn hm =>
    have h1 : Paired id (v.offered id buf.offered (buf.offerFin true) n { s with held := none }) :=
      h.put hs (.one trivial) rfl rfl rfl
    exact h1.completeFinish
  | emptyHeld s buf hs => exact h.put hs (.refl _ _) rfl rfl rfl
  | emptyFin s buf t ops hs =>
    have h1 : Paired id { v with send := some { s with held := none } } :=
      h.put hs (.refl _ _) rfl rfl rfl
    exact h1.completeFinish
  | loneFin s n t ops hs => exact (h.emit (.streamSend id [] true (.ok n)) trivial).completeFinish
  | accept s buf t p ops n hs =>
    exact h.put hs (.cons trivial (.one trivial)) rfl rfl rfl
  | sendEnd s e tr hs ho hc =>
    refine sendDone ?_
    exact h.written hs ho hc (grows_resolved _ _ _) rfl rfl rfl
  | resetTurn s code hs hp =>
    have h1 : Paired id { v with send := some { s with pendingReset := none } } :=
      h.put hs (.refl _ _) rfl rfl rfl
    exact ((h1.emit (.turn id) trivial).emit (.streamShutdown id .write code) trivial).sendDone
  | _ => exact h.same (.one trivial) rfl

omit h in
theorem init : Paired id .fresh := ⟨fun s hs => (by cases hs), fun s hs => (by cases hs)⟩

end Paired

end QuicheH3
