/-
# The last sender of a byte channel

The receive entry of a stream holds the sending side of its byte channel, so the channel ends when
the entry goes.  The entry goes from many places.  Most of them fill the terminal cell first, or
know that the reader is gone; two do not look: a `StopSending` command, which the reader of a LIVE
stream may send (`stop_sending`), and the opening of a stream whose id is already in the registry.

`Guarded` is the invariant behind this: an entry that is taken for ended, or not yet there, is
really absent.  It holds as long as commands and opens find the half they would drop settled
(`Spares`).
-/
import QuicheH3.Life.Fate

namespace QuicheH3

open Lib

/-! ## 1. Conditions -/

/-- The byte channel of half `h` may end: its cell is filled, or its reader is gone. -/
def Closable (h : Nat) (tr : List Event) : Prop := Sealed h tr ∨ .recvDropped h ∈ tr

theorem Closable.mono {h : Nat} {tr tr' : List Event} (hc : Closable h tr) (hs : tr ⊆ tr') :
    Closable h tr' := hc.imp (fun ⟨e, he⟩ => ⟨e, hs he⟩) fun hd => hs hd

/-- The record of the cell of half `h` being filled. -/
def Event.fills (h : Nat) : Event → Bool
  | .recvSet i _ => i == h
  | _ => false

instance (h : Nat) (tr : List Event) : Decidable (Sealed h tr) :=
  decidable_of_iff (tr.any (Event.fills h) = true) (by
    rw [List.any_eq_true]
    constructor
    · rintro ⟨x, hx, hf⟩
      cases x with
      | recvSet i e => exact ⟨e, (beq_iff_eq.mp hf : i = h) ▸ hx⟩
      | _ => cases hf
    · rintro ⟨e, he⟩
      exact ⟨_, he, beq_self_eq_true h⟩)

instance (h : Nat) (tr : List Event) : Decidable (Closable h tr) :=
  inferInstanceAs (Decidable (_ ∨ _))

/-- The half the worker holds for stream `id`, if any, may be dropped. -/
def HeldSettled (id : Nat) (pre : List Event) : Prop := ∀ h ∈ owner id pre, Closable h pre

instance (id : Nat) (pre : List Event) : Decidable (HeldSettled id pre) :=
  inferInstanceAs (Decidable (∀ h ∈ owner id pre, _))

/-- The stream whose `StopSending` is applied. -/
def Event.stopped : Event → Option Nat
  | .applied (.stopSending id _) => some id
  | _ => none

/-- A `StopSending` is applied when its half is settled; a stream is opened that no cursor took for
a peer's, and that has no unsettled half. -/
def Spares (e : Event) (pre : List Event) : Prop :=
  (∀ id ∈ e.stopped, HeldSettled id pre) ∧ ∀ id ∈ e.opened, ¬ Discovered id pre ∧ HeldSettled id pre

instance (e : Event) (pre : List Event) : Decidable (Spares e pre) :=
  inferInstanceAs (Decidable ((∀ id ∈ e.stopped, _) ∧ ∀ id ∈ e.opened, _))

/-- The sender of a half is dropped after the cell was filled, or after the reader was dropped. -/
def ClosesSealed (e : Event) (pre : List Event) : Prop :=
  ∀ id h, e = .recvClose id h → Closable h pre

/-- Events that neither make nor drop the receive entry of stream `id`. -/
def Event.sparesRecv (id : Nat) : Event → Prop
  | .recvOpen i _ | .recvClose i _ => i ≠ id
  | _ => True

section SparesRecv

variable {id : Nat} {tr tr' : List Event}

theorem sparesRecv_of_foreign (e : Event) (h : e.foreign id tr) : e.sparesRecv id := by
  cases e <;> first | exact h | trivial

theorem sparesRecv_of_isFront (e : Event) (h : e.isFront) : e.sparesRecv id := by
  cases e <;> first | exact h.elim | trivial

theorem blind_owner_spares : Blind (Event.sparesRecv id) (owner id) := by
  intro e tr he
  cases e with
  | recvOpen | recvClose => exact if_neg he
  | _ => rfl

theorem sparesRecv_cancelled (ops : List SendOp) (tr : List Event) :
    Grows (Event.sparesRecv id) tr (cancelled ops tr) := World.grows_cancelled _ _ fun _ _ =>
      trivial

theorem sparesRecv_resolved (ops : List SendOp) (res : Except SendEnd Unit) (tr : List Event) :
    Grows (Event.sparesRecv id) tr (resolved ops res tr) :=
  World.grows_resolved _ _ _ fun _ _ => trivial

theorem SetCell.sparesRecv {c : Nat} {e : SendEnd} (h : SetCell c e tr tr') :
    Grows (Event.sparesRecv id) tr tr' := by
  cases h with
  | old => exact .refl _ _
  | new => exact .one trivial

end SparesRecv

/-! ## 2. The invariant -/

/-- The admission slot says that the stream has no receive entry: it waits in a parking list, or its
receive direction is done. -/
def withoutRecv : Option AdmitState → Bool
  | some (.parked _) => true
  | some (.registered _ rd) => rd
  | none => false

theorem withoutRecv_markSend (a : Option AdmitState) :
    withoutRecv (markSend a) = withoutRecv a := by
  cases a with
  | none => rfl
  | some a => cases a <;> rfl

/-- The receive entry is the one the history opened last, and its half can be closed. -/
structure Guarded (id : Nat) (v : Life) : Prop where
  entry : v.recv = owner id v.hist
  held : ∀ h, .recvOpen id h ∈ v.hist → v.recv = some h ∨ Closable h v.hist
  absent : withoutRecv v.admission = true → v.recv = none
  waits : v.pend.isSome ∨ v.admission.isSome → Discovered id v.hist
  ok : Always (fun e pre => ∀ h, e = .recvClose id h → Closable h pre) v.hist

namespace Guarded

variable {srv : Bool} {id : Nat} {ok : Bytes → Nat → Prop} {v v' : Life} {s : StreamSendState}

variable (h : Guarded id v)

include h

/-- The receive entry is as it was. -/
theorem change (hg : Grows (Event.sparesRecv id) v.hist v'.hist)
    (hr : v'.recv = v.recv) (ha : withoutRecv v'.admission = true → v.recv = none)
    (hw : v'.pend.isSome ∨ v'.admission.isSome → Discovered id v'.hist) : Guarded id v' where
  entry := by rw [hr, h.entry, blind_owner_spares.grows hg]
  held x hx := by
    rcases h.held x (hg.old hx fun hn => hn rfl) with ho | hc
    · exact .inl (hr.trans ho)
    · exact .inr (hc.mono hg.subset)
  absent hx := hr.trans (ha hx)
  waits := hw
  ok := hg.always (fun e pre he x hx => by subst hx; exact absurd rfl he) h.ok

theorem keep (hg : Grows (Event.sparesRecv id) v.hist v'.hist)
    (hr : v'.recv = v.recv) (ha : v'.admission = v.admission) (hp : v'.pend = v.pend) :
    Guarded id v' :=
  h.change hg hr (fun hx => h.absent (ha ▸ hx)) fun hx =>
    (h.waits (by rwa [← hp, ← ha])).mono hg.subset

theorem emit (e : Event) (he : e.sparesRecv id) : Guarded id (v.emit e) :=
  h.keep (.one he) rfl rfl rfl

/-- A half that may be closed is closed. -/
theorem closeRecv (hc : ∀ x, v.recv = some x → Closable x v.hist) :
    Guarded id (v.closeRecv id) := by
  unfold Life.closeRecv
  split
  · exact h
  · rename_i x hx
    have hsub : v.hist ⊆ .recvClose id x :: v.hist := List.subset_cons_self _ _
    exact
      { entry := (if_pos rfl).symm
        held := fun y hy => by
          refine .inr (Closable.mono ?_ hsub)
          rcases List.mem_cons.mp hy with hy | hy
          · cases hy
          · exact (h.held y hy).elim (hc y) fun hcl => hcl
        absent := fun _ => rfl
        waits := fun hw => (h.waits hw).mono hsub
        ok := ⟨fun y hy => by cases hy; exact hc x hx, h.ok⟩ }

omit h in
theorem closeRecv_none (v : Life) : (v.closeRecv id).recv = none := by
  unfold Life.closeRecv
  split
  · assumption
  · rfl

/-- A half is opened where there was none, or one that may be closed. -/
theorem openRecv (hc : ∀ x, v.recv = some x → Closable x v.hist)
    (ha : withoutRecv v.admission = false) (j : Nat) : Guarded id (v.openRecv id j) := by
  have h1 := h.closeRecv hc
  have hsub : (v.closeRecv id).hist ⊆ (v.openRecv id j).hist := List.subset_cons_self _ _
  have hadm : (v.openRecv id j).admission = v.admission := by
    unfold Life.openRecv Life.closeRecv
    dsimp only
    split <;> rfl
  exact
    { entry := (if_pos rfl).symm
      held := fun x hx => by
        rcases List.mem_cons.mp hx with hx | hx
        · cases hx
          exact .inl rfl
        · rcases h1.held x hx with hn | hcl
          · rw [closeRecv_none] at hn
            cases hn
          · exact .inr (hcl.mono hsub)
      absent := fun hx => by
        rw [hadm, ha] at hx
        cases hx
      waits := fun hw => (h1.waits hw).mono hsub
      ok := ⟨fun x hx => (by cases hx), h1.ok⟩ }

/-! ## 3. Ends -/

omit h in
theorem withoutRecv_of_allDone {b : Bool} {a : Option AdmitState} (h : allDone b a = true) :
    withoutRecv a = true := by
  cases a with
  | none => cases h
  | some a =>
    cases a with
    | parked p => cases h
    | registered sd rd =>
      cases b with
      | true => exact (Bool.and_eq_true _ _ ▸ h).2
      | false => exact h

/-- Contract A drops no half. -/
theorem settle : Guarded id (v.settle id) := by
  unfold Life.settle
  split
  · rename_i hd
    have hr := h.absent (withoutRecv_of_allDone hd)
    have h1 :
        ({ v with admission := none } : Life).closeRecv id = { v with admission := none } := by
      simp only [Life.closeRecv, hr]
    rw [h1]
    exact h.change (.refl _ _) rfl (fun hx => by cases hx) fun hx =>
      h.waits (hx.imp_right fun ha => by cases ha)
  · exact h

theorem closeSend : Guarded id (v.closeSend id) := by
  unfold Life.closeSend
  split
  · exact h
  · exact h.keep (.cons trivial (sparesRecv_cancelled _ _)) rfl rfl rfl

theorem reclaim : Guarded id (v.reclaim id) := by
  unfold Life.reclaim
  split
  · split
    · have h1 := h.closeSend
      exact h1.change (.refl _ _) rfl (fun hx => by cases hx) fun hx =>
        h1.waits (hx.imp_right fun ha => by cases ha)
    · exact h
  · exact h

/-- The receive direction is done; the half may be closed. -/
theorem recvDone (hc : ∀ x, v.recv = some x → Closable x v.hist) : Guarded id (v.recvDone id) := by
  have h1 := (h.closeRecv hc).emit (.recvDone id) trivial
  unfold Life.recvDone
  refine reclaim (settle (h1.change (.refl _ _) rfl (fun _ => closeRecv_none v) fun hw => ?_))
  refine h1.waits (hw.imp_right fun ha => ?_)
  cases hx : ((v.closeRecv id).emit (.recvDone id)).admission with
  | none => simp [hx, markRecv] at ha
  | some a => rfl

theorem sendDone : Guarded id (v.sendDone id) := by
  unfold Life.sendDone
  refine settle (h.change (.one trivial) rfl (fun hx => ?_) fun hw => ?_)
  · exact h.absent (withoutRecv_markSend v.admission ▸ hx)
  · refine (h.waits (hw.imp_right fun ha => ?_)).mono (List.subset_cons_self _ _)
    cases hx : v.admission with
    | none => simp [hx, markSend] at ha
    | some a => rfl

theorem completeFinish : Guarded id (v.completeFinish id) := by
  have hpop : Guarded id v.popOp := by
    unfold Life.popOp
    split
    · split
      · exact h.keep (.one trivial) rfl rfl rfl
      · exact h
    · exact h
  exact hpop.sendDone.reclaim

/-! ## 4. Beginnings -/

/-- A stream that leaves a queue has been discovered, and has no receive entry. -/
theorem take {b : Bool} {p : PeerStream} (ht : Life.Take v b p v') :
    Guarded id v' ∧ v'.recv = none ∧ v'.admission = none ∧ Discovered id v'.hist := by
  cases ht with
  | pending hq ha hr hp =>
    have hd := h.waits (.inl (by rw [hp]; rfl))
    exact ⟨h.change (.refl _ _) rfl h.absent fun _ => hd, hr, ha, hd⟩
  | parked hq ha =>
    have hd := h.waits (.inr (by rw [ha]; rfl))
    have hr := h.absent (by rw [ha]; rfl)
    exact ⟨h.change (.refl _ _) rfl (fun hx => by cases hx) fun _ => hd, hr, rfl, hd⟩

/-- The half of a stream that has none. -/
theorem admitted (hr : v.recv = none) (ha : v.admission = none) (j : Nat) :
    Guarded id (v.openRecv id j) := by
  refine h.openRecv (fun x hx => ?_) (by rw [ha]; rfl) j
  rw [hr] at hx
  cases hx

omit h in
theorem openSend_recv (v : Life) (id c : Nat) (retained : Option SendEnd) :
    (v.openSend id c retained).recv = v.recv := by
  cases retained with
  | some e => rfl
  | none =>
    change ((v.emit (.handle id c)).closeSend id).recv = v.recv
    unfold Life.closeSend
    split <;> rfl

theorem openSend (c : Nat) (retained : Option SendEnd) : Guarded id (v.openSend id c retained) := by
  have h1 := h.emit (.handle id c) trivial
  cases retained with
  | some e => exact h1.emit (.sendSet c e) trivial
  | none => exact (h1.closeSend.emit (.sendOpen id c) trivial).keep (.refl _ _) rfl rfl rfl

/-- The halves of a local stream that no cursor took for a peer's. -/
theorem openLocal (hd : ¬ Discovered id v.hist) (hs : HeldSettled id v.hist)
    (j c : Nat) (b : Bool) :
    Guarded id (if b then ((v.emit (.streamPriority id true)).openRecv id j).openSend id c none
      else (v.emit (.streamPriority id true)).openSend id c none) := by
  have h1 := h.emit (.streamPriority id true) trivial
  have ha : v.admission = none := by
    by_contra hn
    exact hd (h.waits (.inr (Option.isSome_iff_ne_none.mpr hn)))
  have hc (x : Nat) (hx : v.recv = some x) : Closable x (.streamPriority id true :: v.hist) :=
    (hs x (h.entry ▸ hx)).mono (List.subset_cons_self _ _)
  split
  · exact (h1.openRecv hc (congrArg withoutRecv ha) j).openSend c none
  · exact h1.openSend c none

theorem ensure (c : Nat) : Guarded id (v.ensure id c) := by
  unfold Life.ensure
  split
  · exact h
  · exact h.keep (.one trivial) rfl rfl rfl

theorem enqueue (c : Nat) (op : SendOp) : Guarded id (v.enqueue id c op) := by
  have h1 := h.ensure c
  unfold Life.enqueue
  dsimp only
  split
  · exact h1
  · split
    · exact h1.emit _ trivial
    · exact h1.keep (.refl _ _) rfl rfl rfl

theorem front {cs : List DriverCommand} {tr : List Event}
    (hf : Life.Front id v cs tr) : Guarded id (v.submit cs tr) :=
  h.keep (hf.grows.mono sparesRecv_of_isFront) rfl rfl rfl

theorem pop (cmd : DriverCommand) (rest : List DriverCommand) :
    Guarded id (v.pop cmd rest) := h.keep (.one trivial) rfl rfl rfl

/-- The handoff was dropped before the halves are. -/
theorem undeliver {b : Bool}
    (hc : b = true → ∀ x, v.recv = some x → Closable x v.hist) : Guarded id (v.undeliver id b) := by
  have h1 := h.closeSend.emit (.streamShutdown id .write h3RequestCancelled) trivial
  cases b with
  | false => exact h1
  | true =>
    have hsub := ((Life.closeSend_suffix v id).trans
      (Life.emit_suffix _ (.streamShutdown id .write h3RequestCancelled))).subset
    refine (h1.closeRecv fun x hx => (hc rfl x ?_).mono hsub).emit _ trivial
    have hr : (v.closeSend id).recv = v.recv := by
      unfold Life.closeSend
      split <;> rfl
    exact hr ▸ hx

/-! ## 5. The moves -/

/-- **Every move that spares the halves keeps the invariant.** -/
theorem move (hm : Life.Move srv id ok v v') (hP : Always Spares v'.hist) : Guarded id v' := by
  -- the condition at an event, read off the history after the move
  have hat {e : Event} {tr : List Event} (hs : e :: tr <:+ v'.hist) : Spares e tr :=
    (hP.suffix hs).1
  cases hm with
  | other tr hg => exact h.keep (hg.mono sparesRecv_of_foreign) rfl rfl rfl
  | front cs tr hf => exact h.front hf
  | cursor | lost | skipParked | emptyHeld => exact h.keep (.refl _ _) rfl rfl rfl
  | readable hr ha hp =>
    exact h.change (.one trivial) rfl h.absent fun _ => .inl List.mem_cons_self
  | writable ans hs hb ha hp =>
    exact h.change (.cons trivial (.one trivial)) rfl h.absent fun _ =>
      .inr (List.mem_cons_of_mem _ List.mem_cons_self)
  | mergePending ans p hs hp =>
    have hd := h.waits (.inl (by rw [hp]; rfl))
    exact h.change (.one trivial) rfl h.absent fun _ =>
      hd.mono (List.subset_cons_self _ _)
  | mergeParked ans p hs ha =>
    have hd := h.waits (.inr (by rw [ha]; rfl))
    have hr := h.absent (by rw [ha]; rfl)
    exact h.change (.one trivial) rfl (fun _ => hr) fun _ =>
      hd.mono (List.subset_cons_self _ _)
  | stale b hq hs =>
    exact h.change (.refl _ _) rfl h.absent fun hw => h.waits (hw.imp_left nofun)
  | repark v1 b p ht =>
    obtain ⟨h1, hr, -, hd⟩ := h.take ht
    exact h1.change (.refl _ _) rfl (fun _ => hr) fun _ => hd
  | tear v1 b p ht =>
    obtain ⟨h1, -⟩ := h.take ht
    refine h1.keep ?_ rfl rfl rfl
    dsimp only
    split
    · exact .cons trivial (.one trivial)
    · exact .one trivial
  | admitBidi v1 b p j c cs tr ht hb hc v2 hv hf =>
    obtain ⟨h1, hr, ha, hd⟩ := h.take ht
    have h2 := (h1.admitted hr ha j).openSend c p.pendingSendTerminal
    have h3 : Guarded id v2 := by
      subst hv
      exact h2.change (.refl _ _) rfl nofun fun _ =>
        hd.mono ((Life.openRecv_suffix v1 id j).trans (Life.openSend_suffix _ id c _)).subset
    exact (h3.front hf).emit _ trivial
  | admitUni v1 b p j cs tr ht hb v2 hv hf =>
    obtain ⟨h1, hr, ha, hd⟩ := h.take ht
    have h3 : Guarded id v2 := by
      subst hv
      exact (h1.admitted hr ha j).change (.refl _ _) rfl nofun fun _ =>
        hd.mono (Life.openRecv_suffix v1 id j).subset
    exact (h3.front hf).emit _ trivial
  | clean tr hg park pend hn hpark hpend hs =>
    refine h.change (hg.mono (of_passing sparesRecv_of_foreign fun _ => trivial)) rfl
      (fun hx => ?_) fun hw => (h.waits (hw.imp ?_ ?_)).mono hg.subset
    · cases park with
      | true => cases hx
      | false => exact h.absent hx
    · cases pend <;> simp
    · cases park <;> simp
  | settle => exact h.settle
  | openBidi j c hl hb hc =>
    obtain ⟨hd, hs⟩ := (hat (Life.open_grows v id j c true).suffix).2 id rfl
    exact h.openLocal hd hs j c true
  | openUni c hl hb hc =>
    obtain ⟨hd, hs⟩ := (hat (Life.open_grows v id 0 c false).suffix).2 id rfl
    exact h.openLocal hd hs 0 c false
  | undeliver j c cs tr hl hc v2 hv hf hd hs =>
    have hsuf : .streamPriority id true :: v.hist <:+ v2.hist :=
      hv ▸ (Life.open_grows v id j c (isBidi id)).suffix
    obtain ⟨hnew, hset⟩ := (hat ((hsuf.trans hf.grows.suffix).trans
      (Life.undeliver_suffix (v2.submit cs tr) id _))).2 id rfl
    have h2 : Guarded id v2 := hv ▸ h.openLocal hnew hset j c (isBidi id)
    refine (h2.front hf).undeliver fun hb x hx => .inr ?_
    have hj : v2.recv = some j := by
      subst hv
      rw [if_pos hb]
      exact openSend_recv _ id c none
    cases hj.symm.trans hx
    exact hd hb
  | recvEnd j tr hr hg hs =>
    have h1 : Guarded id { v with hist := tr } :=
      h.keep (hg.mono sparesRecv_of_foreign) rfl rfl rfl
    refine h1.recvDone fun x hx => .inl ?_
    cases hr.symm.trans hx
    exact hs
  | abandon j hr hd =>
    refine (h.emit (.streamShutdown id .read h3NoError) trivial).recvDone fun x hx => .inr ?_
    cases hr.symm.trans hx
    exact List.mem_cons_of_mem _ hd
  | applySend _ _ _ rest c | applyFinish _ rest c => exact (h.pop _ rest).enqueue c _
  | applyReset code rest c hc hn => exact (h.pop _ rest).ensure c
  | applyStop code rest hc =>
    have hset : HeldSettled id v.hist := by
      have hs : .applied (.stopSending id code) :: v.hist <:+
          ((v.pop (.stopSending id code) rest).emit (.streamShutdown id .read code)).hist :=
        List.suffix_cons _ _
      exact (hat (hs.trans (Life.recvDone_suffix _ id))).1 id rfl
    refine ((h.pop _ rest).emit (.streamShutdown id .read code) trivial).recvDone fun x hx => ?_
    refine (hset x (h.entry ▸ hx)).mono ?_
    exact fun e he => List.mem_cons_of_mem _ (List.mem_cons_of_mem _ he)
  | resetEntry s code tr hs ho ha hc =>
    exact h.keep (hc.sparesRecv.trans (sparesRecv_resolved _ _ _)) rfl rfl rfl
  | capacity | sendErr => exact h.emit _ trivial
  | flushFin s buf n t ops hs =>
    have h1 : Guarded id (v.offered id buf.offered (buf.offerFin true) n { s with held := none }) :=
      h.keep (.one trivial) rfl rfl rfl
    exact h1.completeFinish
  | emptyFin s buf t ops hs =>
    have h1 : Guarded id { v with send := some { s with held := none } } :=
      h.keep (.refl _ _) rfl rfl rfl
    exact h1.completeFinish
  | loneFin s n t ops hs => exact (h.emit (.streamSend id [] true (.ok n)) trivial).completeFinish
  | accept s buf t p ops n hs =>
    exact h.keep (.cons trivial (.one trivial)) rfl rfl rfl
  | sendEnd s e tr hs ho hc =>
    refine sendDone ?_
    exact h.keep (hc.sparesRecv.trans (sparesRecv_resolved _ _ _)) rfl rfl rfl
  | resetTurn s code hs hp =>
    refine sendDone ?_
    exact h.keep (.cons trivial (.one trivial)) rfl rfl rfl
  | _ => exact h.keep (.one trivial) rfl rfl rfl

omit h in
theorem init : Guarded id .fresh where
  entry := rfl
  held x hx := by cases hx
  absent hx := by cases hx
  waits hx := by rcases hx with hx | hx <;> cases hx
  ok := trivial

end Guarded

end QuicheH3
