/-
# Where a discovered stream goes

Two things hold of every stream whatever the transport reports.

`Queued`: a stream that waits for admission, or is parked, stands in the queue of its class.
The converse is what a misreporting transport can break (`Life/Slot.lean`): an entry of a queue
may be stale.  A stream cannot be lost the other way round.

`Handed`: a peer stream that has, or had, halves was handed over to the accepting task; and a
peer stream that was discovered still waits, or was handed over, or was shut down in every
direction it has.  There is no fourth way out.
-/
import QuicheH3.Life.Slot
import QuicheH3.Life.Refine
import QuicheH3.Recv.Integrity

namespace QuicheH3

open Lib

/-! ## 1. Nothing begins to wait -/

namespace Life

variable {v v' v'' : Life}

/-- The queues are as before and nothing waits that did not. -/
structure Rests (v v' : Life) : Prop where
  pendQ : v'.pendQ = v.pendQ
  parkQ : v'.parkQ = v.parkQ
  pend : v'.pend.isSome → v.pend.isSome
  parked : isParked v'.admission = true → isParked v.admission = true

namespace Rests

theorem refl (v : Life) : Rests v v := ⟨rfl, rfl, fun h => h, fun h => h⟩

theorem trans (h : Rests v v') (h' : Rests v' v'') : Rests v v'' :=
  ⟨h'.pendQ.trans h.pendQ, h'.parkQ.trans h.parkQ, fun hx => h.pend (h'.pend hx),
    fun hx => h.parked (h'.parked hx)⟩

/-- Only the admission state changes, and not to parked. -/
theorem of_not_parked (hq : v'.pendQ = v.pendQ) (hk : v'.parkQ = v.parkQ) (hp : v'.pend = v.pend)
    (ha : isParked v'.admission = false) : Rests v v' :=
  ⟨hq, hk, fun hx => hp ▸ hx, fun hx => by rw [ha] at hx; cases hx⟩

theorem emit (v : Life) (e : Event) : Rests v (v.emit e) := ⟨rfl, rfl, fun h => h, fun h => h⟩

theorem closeRecv (v : Life) (id : Nat) : Rests v (v.closeRecv id) := by
  unfold Life.closeRecv
  split
  · exact refl v
  · exact ⟨rfl, rfl, fun h => h, fun h => h⟩

theorem closeSend (v : Life) (id : Nat) : Rests v (v.closeSend id) := by
  unfold Life.closeSend
  split
  · exact refl v
  · exact ⟨rfl, rfl, fun h => h, fun h => h⟩

theorem settle (v : Life) (id : Nat) : Rests v (v.settle id) := by
  unfold Life.settle
  split
  · have h1 : Rests v { v with admission := none } := of_not_parked rfl rfl rfl rfl
    have h2 := h1.trans (closeRecv { v with admission := none } id)
    exact ⟨h2.pendQ, h2.parkQ, h2.pend, h2.parked⟩
  · exact refl v

theorem reclaim (v : Life) (id : Nat) : Rests v (v.reclaim id) := by
  unfold Life.reclaim
  split
  · split
    · have h1 := closeSend v id
      exact ⟨h1.pendQ, h1.parkQ, h1.pend, fun hx => by cases hx⟩
    · exact refl v
  · exact refl v

theorem isParked_markRecv (a : Option AdmitState) : isParked (markRecv a) = isParked a := by
  cases a with
  | none => rfl
  | some a => cases a <;> rfl

theorem isParked_markSend (a : Option AdmitState) : isParked (markSend a) = isParked a := by
  cases a with
  | none => rfl
  | some a => cases a <;> rfl

theorem recvDone (v : Life) (id : Nat) : Rests v (v.recvDone id) := by
  have h1 := (closeRecv v id).trans (emit _ (.recvDone id))
  refine Rests.trans ?_ ((settle _ id).trans (reclaim _ id))
  exact ⟨h1.pendQ, h1.parkQ, h1.pend, fun hx => h1.parked (isParked_markRecv _ ▸ hx)⟩

theorem sendDone (v : Life) (id : Nat) : Rests v (v.sendDone id) := by
  refine Rests.trans ?_ (settle _ id)
  exact ⟨rfl, rfl, fun h => h, fun hx => isParked_markSend v.admission ▸ hx⟩

theorem completeFinish (v : Life) (id : Nat) : Rests v (v.completeFinish id) := by
  unfold Life.completeFinish Life.popOp
  refine Rests.trans ?_ ((sendDone _ id).trans (reclaim _ id))
  split
  · split
    · exact ⟨rfl, rfl, fun h => h, fun h => h⟩
    · exact refl v
  · exact refl v

theorem openRecv (v : Life) (id h : Nat) : Rests v (v.openRecv id h) :=
  ⟨(closeRecv v id).pendQ, (closeRecv v id).parkQ, (closeRecv v id).pend, (closeRecv v id).parked⟩

theorem openSend (v : Life) (id c : Nat) (retained : Option SendEnd) :
    Rests v (v.openSend id c retained) := by
  obtain ⟨-, ha, hp, hpq, hkq⟩ := Slot.openSend_slots v id c retained
  exact ⟨hpq, hkq, fun hx => hp ▸ hx, fun hx => ha ▸ hx⟩

/-- The halves of a local stream. -/
theorem openLocal (v : Life) (id h c : Nat) (b : Bool) :
    Rests v (if b then ((v.emit (.streamPriority id true)).openRecv id h).openSend id c none
      else (v.emit (.streamPriority id true)).openSend id c none) := by
  have h0 := emit v (.streamPriority id true)
  split
  · exact h0.trans ((openRecv _ id h).trans (openSend _ id c none))
  · exact h0.trans (openSend _ id c none)

theorem ensure (v : Life) (id c : Nat) : Rests v (v.ensure id c) := by
  unfold Life.ensure
  split
  · exact refl v
  · exact ⟨rfl, rfl, fun h => h, fun h => h⟩

theorem enqueue (v : Life) (id c : Nat) (op : SendOp) : Rests v (v.enqueue id c op) := by
  refine (ensure v id c).trans ?_
  unfold Life.enqueue
  dsimp only
  split
  · exact refl _
  · split
    · exact emit _ _
    · exact ⟨rfl, rfl, fun h => h, fun h => h⟩

theorem undeliver (v : Life) (id : Nat) (b : Bool) : Rests v (v.undeliver id b) := by
  have h1 := (closeSend v id).trans (emit _ (.streamShutdown id .write h3RequestCancelled))
  cases b with
  | true => exact h1.trans ((closeRecv _ id).trans (emit _ _))
  | false => exact h1

theorem pop (v : Life) (cmd : DriverCommand) (rest : List DriverCommand) :
    Rests v (v.pop cmd rest) := ⟨rfl, rfl, fun h => h, fun h => h⟩

end Rests

end Life

/-! ## 2. What waits stands in its queue -/

/-- A stream that waits stands in the queue of its class, and in no queue of the other. -/
structure Queued (id : Nat) (v : Life) : Prop where
  pend : v.pend.isSome → 0 < v.pendQ (isBidi id)
  parked : isParked v.admission = true → 0 < v.parkQ (isBidi id)
  pendClass : ∀ b, 0 < v.pendQ b → b = isBidi id
  parkClass : ∀ b, 0 < v.parkQ b → b = isBidi id

namespace Queued

variable {srv : Bool} {id : Nat} {v v' : Life} {b : Bool}

theorem rests (h : Queued id v) (hr : Life.Rests v v') : Queued id v' where
  pend hx := hr.pendQ ▸ h.pend (hr.pend hx)
  parked hx := hr.parkQ ▸ h.parked (hr.parked hx)
  pendClass c hc := h.pendClass c (hr.pendQ ▸ hc)
  parkClass c hc := h.parkClass c (hr.parkQ ▸ hc)

/-- The stream enters the queue of its class. -/
theorem pos_bump (q : Bool → Nat) (b : Bool) : 0 < bump b q b := by simp [bump]

theorem of_bump {q : Bool → Nat} {c : Bool} (hq : ∀ c, 0 < q c → c = b) (hc : 0 < bump b q c) :
    c = b := by
  by_contra hn
  rw [bump, Function.update_of_ne hn] at hc
  exact hn (hq c hc)

theorem of_unbump {q : Bool → Nat} {c : Bool} (hc : 0 < unbump b q c) : 0 < q c := by
  by_cases hn : c = b
  · subst hn
    rw [unbump, Function.update_self] at hc
    omega
  · rwa [unbump, Function.update_of_ne hn] at hc

/-- The stream leaves a pending queue, and waits for nothing. -/
theorem leavePend (h : Queued id v) (hp : v'.pend = none) (hq : v'.pendQ = unbump b v.pendQ)
    (ha : v'.admission = v.admission) (hk : v'.parkQ = v.parkQ) : Queued id v' where
  pend hx := by simp [hp] at hx
  parked hx := hk ▸ h.parked (ha ▸ hx)
  pendClass c hc := h.pendClass c (of_unbump (hq ▸ hc))
  parkClass c hc := h.parkClass c (hk ▸ hc)

/-- The stream leaves a parked queue, and is not parked. -/
theorem leavePark (h : Queued id v) (ha : isParked v'.admission = false)
    (hk : v'.parkQ = unbump b v.parkQ) (hp : v'.pend = v.pend) (hq : v'.pendQ = v.pendQ) :
    Queued id v' where
  pend hx := hq ▸ h.pend (hp ▸ hx)
  parked hx := by rw [ha] at hx; cases hx
  pendClass c hc := h.pendClass c (hq ▸ hc)
  parkClass c hc := h.parkClass c (of_unbump (hk ▸ hc))

theorem take (h : Queued id v) {p : PeerStream} (ht : Life.Take v b p v') :
    Queued id v' ∧ b = isBidi id ∧ v'.admission = none := by
  cases ht with
  | pending hq ha hr hp => exact ⟨h.leavePend rfl rfl rfl rfl, h.pendClass b hq, ha⟩
  | parked hq ha => exact ⟨h.leavePark rfl rfl rfl rfl, h.parkClass b hq, rfl⟩

theorem discover (h : Queued id v) (p : PeerStream) (tr : List Event) :
    Queued id { v with pend := some p, pendQ := bump (isBidi id) v.pendQ, hist := tr } where
  pend _ := pos_bump _ _
  parked hx := h.parked hx
  pendClass _ hc := of_bump h.pendClass hc
  parkClass c hc := h.parkClass c hc

/-- The halves of a peer stream are built and the stream is registered. -/
theorem register (h : Queued id v) (h1 : Life.Rests v v') {sd rd : Bool} {cs : List DriverCommand}
    {tr : List Event} : Queued id ((({ v' with
      admission := some (.registered sd rd) } : Life).submit cs tr).emit (.handOver id)) :=
  h.rests ⟨h1.pendQ, h1.parkQ, h1.pend, fun hx => by cases hx⟩

/-- **Every move leaves every waiting stream in the queue of its class.** -/
theorem move {ok : Bytes → Nat → Prop} (h : Queued id v) (hm : Life.Move srv id ok v v') :
    Queued id v' := by
  cases hm with
  | readable hr ha hp => exact h.discover _ _
  | writable ans hs hb ha hp =>
    have h1 := h.discover { PeerStream.new id with pendingSendTerminal := World.stoppedOf ans }
      (.streamCapacity id ans :: .writableNext id false :: v.hist)
    rw [hb] at h1
    exact h1
  | mergePending ans p hs hp =>
    exact h.rests ⟨rfl, rfl, fun _ => by rw [hp]; rfl, fun h => h⟩
  | mergeParked ans p hs ha =>
    exact h.rests ⟨rfl, rfl, fun h => h, fun _ => by rw [ha]; rfl⟩
  | stale b hq hs => exact h.leavePend rfl rfl rfl rfl
  | lost b hq hp => exact h.leavePend hp rfl rfl rfl
  | skipParked b hq ha =>
    refine h.leavePark ?_ rfl rfl rfl
    change isParked v.admission = false
    cases hx : v.admission with
    | none => rfl
    | some a =>
      cases a with
      | parked p => exact absurd hx (ha p)
      | registered sd rd => rfl
  | repark v1 b p ht =>
    obtain ⟨h1, hb, -⟩ := h.take ht
    subst hb
    exact ⟨h1.pend, fun _ => pos_bump _ _, h1.pendClass, fun _ hc => of_bump h1.parkClass hc⟩
  | tear v1 b p ht => exact (h.take ht).1.rests ⟨rfl, rfl, fun h => h, fun h => h⟩
  | admitBidi v1 b p j c cs tr ht hb hc v2 hv hf =>
    subst hv
    exact (h.take ht).1.register ((Life.Rests.openRecv v1 id j).trans (.openSend _ id c _))
  | admitUni v1 b p j cs tr ht hb v2 hv hf =>
    subst hv
    exact (h.take ht).1.register (.openRecv v1 id j)
  | clean tr hg park pend hn hpark hpend hs =>
    -- what is queued is cleaned up, and what is not queued does not wait
    have hpos : ∀ q : Bool → Nat, 0 < q (isBidi id) → 0 < q true ∨ 0 < q false := fun q hq => by
      cases hb : isBidi id <;> rw [hb] at hq
      · exact .inr hq
      · exact .inl hq
    refine ⟨fun hx => ?_, fun hx => ?_, fun b hb => ?_, fun b hb => ?_⟩
    · change (if pend then none else v.pend).isSome = true at hx
      split at hx
      · cases hx
      · rename_i hn
        exact absurd (hpend.mpr ⟨hpos _ (h.pend hx), hx⟩) hn
    · change isParked (if park then none else v.admission) = true at hx
      split at hx
      · cases hx
      · rename_i hn
        refine absurd (hpark.mpr ⟨hpos _ (h.parked hx), ?_⟩) hn
        cases ha : v.admission with
        | none => simp [ha, isParked] at hx
        | some a =>
          cases a with
          | parked p => exact ⟨p, rfl⟩
          | registered sd rd => simp [ha, isParked] at hx
    · exact absurd hb (Nat.lt_irrefl 0)
    · exact absurd hb (Nat.lt_irrefl 0)
  | settle => exact h.rests (.settle v id)
  | openBidi j c hl hb hc => exact h.rests (.openLocal v id j c true)
  | openUni c hl hb hc => exact h.rests (.openLocal v id 0 c false)
  | undeliver j c cs tr hl hc v2 hv hf hd hs =>
    have h1 : Queued id v2 := hv ▸ h.rests (.openLocal v id j c (isBidi id))
    have h2 : Queued id (v2.submit cs tr) := h1.rests ⟨rfl, rfl, fun h => h, fun h => h⟩
    exact h2.rests (.undeliver _ id _)
  | recvEnd j tr hr hg hs =>
    have h1 : Queued id { v with hist := tr } := h.rests ⟨rfl, rfl, fun h => h, fun h => h⟩
    exact h1.rests (.recvDone _ id)
  | abandon j hr hd => exact h.rests ((Life.Rests.emit v _).trans (.recvDone _ id))
  | applySend _ _ _ rest c | applyFinish _ rest c =>
    exact h.rests ((Life.Rests.pop v _ rest).trans (.enqueue _ id c _))
  | applyReset code rest c hc hn =>
    exact h.rests ((Life.Rests.pop v _ rest).trans (.ensure _ id c))
  | applyStop code rest hc =>
    exact h.rests ((Life.Rests.pop v _ rest).trans ((Life.Rests.emit _ _).trans (.recvDone _ id)))
  | flushFin s buf n t ops =>
    have h1 : Queued id (v.offered id buf.offered (buf.offerFin true) n { s with held := none }) :=
      h.rests ⟨rfl, rfl, fun h => h, fun h => h⟩
    exact h1.rests (.completeFinish _ id)
  | emptyFin s buf t ops =>
    have h1 : Queued id { v with send := some { s with held := none } } :=
      h.rests ⟨rfl, rfl, fun h => h, fun h => h⟩
    exact h1.rests (.completeFinish _ id)
  | loneFin s n t ops => exact h.rests ((Life.Rests.emit v _).trans (.completeFinish _ id))
  | sendEnd | resetTurn =>
    refine Queued.rests ?_ (Life.Rests.sendDone _ id)
    exact h.rests ⟨rfl, rfl, fun h => h, fun h => h⟩
  | _ => exact h.rests ⟨rfl, rfl, fun h => h, fun h => h⟩

theorem init (id : Nat) : Queued id .fresh := by
  constructor <;> simp [Life.fresh, isParked]

end Queued

/-! ## 3. What was discovered -/

/-- The stream waits, was handed over, or was shut down. -/
def Answered (id : Nat) (v : Life) : Prop :=
  v.pend.isSome ∨ isParked v.admission = true ∨ .handOver id ∈ v.hist ∨ Shut id v.hist

/-- What became of the stream is on record. -/
structure Handed (srv : Bool) (id : Nat) (v : Life) : Prop where
  known : serverInitiated id ≠ srv → Known id v.hist → .handOver id ∈ v.hist
  reg : ∀ sd rd, v.admission = some (.registered sd rd) → Known id v.hist
  recv : v.recv.isSome → Known id v.hist
  send : v.send.isSome → Known id v.hist
  cmds : v.cmds ≠ [] → Known id v.hist
  fate : serverInitiated id ≠ srv → Discovered id v.hist → Answered id v

namespace Handed

variable {srv : Bool} {id : Nat} {v v' : Life} {b : Bool}

/-- A peer stream with halves was handed over, and that is all there is to say. -/
theorem ofKnown (h : Handed srv id v) (hk : Known id v.hist) (hs : v.hist ⊆ v'.hist) :
    Handed srv id v' := by
  have hk' := hk.mono hs
  exact ⟨fun hp _ => hs (h.known hp hk), fun _ _ _ => hk', fun _ => hk', fun _ => hk',
    fun _ => hk', fun hp _ => .inr (.inr (.inl (hs (h.known hp hk))))⟩

theorem ofHandOver (hk : Known id v.hist) (hh : .handOver id ∈ v.hist) : Handed srv id v :=
  ⟨fun _ _ => hh, fun _ _ _ => hk, fun _ => hk, fun _ => hk, fun _ => hk,
    fun _ _ => .inr (.inr (.inl hh))⟩

theorem ofLocal (hl : serverInitiated id = srv) (hk : Known id v.hist) : Handed srv id v :=
  ⟨fun hp => absurd hl hp, fun _ _ _ => hk, fun _ => hk, fun _ => hk, fun _ => hk,
    fun hp => absurd hl hp⟩

theorem Shut.mono {tr tr' : List Event} (h : Shut id tr) (hs : tr ⊆ tr') : Shut id tr' :=
  ⟨hs h.1, fun hb => hs (h.2 hb)⟩

/-- No halves are made and nothing is discovered; what waited still does, or was answered. -/
theorem change (h : Handed srv id v) (hg : Grows (Event.slotFree id) v.hist v'.hist)
    (hreg : ∀ sd rd, v'.admission = some (.registered sd rd) → v.admission = v'.admission)
    (hr : v'.recv = v.recv) (hs : v'.send = v.send)
    (hc : v'.cmds ≠ [] → v.cmds ≠ [] ∨ Known id v.hist)
    (hw : v.pend.isSome ∨ isParked v.admission = true → Answered id v') : Handed srv id v' := by
  have hk := known_iff hg
  have hd := discovered_iff hg
  refine ⟨fun hp hx => hg.mem (h.known hp (hk.mp hx)), fun sd rd hx => hk.mpr ?_,
    fun hx => hk.mpr (h.recv (hr ▸ hx)), fun hx => hk.mpr (h.send (hs ▸ hx)),
    fun hx => hk.mpr ((hc hx).elim h.cmds fun hk => hk), fun hp hx => ?_⟩
  · exact h.reg sd rd ((hreg sd rd hx).trans hx)
  · rcases h.fate hp (hd.mp hx) with hx | hx | hx | hx
    · exact hw (.inl hx)
    · exact hw (.inr hx)
    · exact .inr (.inr (.inl (hg.mem hx)))
    · exact .inr (.inr (.inr (Shut.mono hx hg.subset)))

/-- The same with nothing of the stream but its history and its cursors changed. -/
theorem quiet (h : Handed srv id v) (hg : Grows (Event.slotFree id) v.hist v'.hist)
    (ha : v'.admission = v.admission) (hp : v'.pend = v.pend) (hr : v'.recv = v.recv)
    (hs : v'.send = v.send) (hc : v'.cmds ≠ [] → v.cmds ≠ [] ∨ Known id v.hist) :
    Handed srv id v' :=
  h.change hg (fun _ _ _ => ha.symm) hr hs hc fun hw =>
    hw.elim (fun hx => .inl (hp ▸ hx)) fun hx => .inr (.inl (ha ▸ hx))

/-- The stream is discovered, and waits. -/
theorem discover (h : Handed srv id v) (evs : List Event) (p : PeerStream) (q : Bool → Nat)
    (hk : Known id (evs ++ v.hist) → Known id v.hist) :
    Handed srv id { v with pend := some p, pendQ := q, hist := evs ++ v.hist } := by
  have hs : v.hist ⊆ evs ++ v.hist := List.subset_append_right _ _
  exact ⟨fun hp hx => hs (h.known hp (hk hx)), fun sd rd hx => (h.reg sd rd hx).mono hs,
    fun hx => (h.recv hx).mono hs, fun hx => (h.send hx).mono hs, fun hx => (h.cmds hx).mono hs,
    fun _ _ => .inl rfl⟩

/-- What a stream taken out of its queue is like. -/
theorem take {p : PeerStream} (ht : Life.Take v b p v') : v'.recv = v.recv ∧ v'.send = v.send ∧
    v'.cmds = v.cmds ∧ v'.hist = v.hist ∧ v'.admission = none := by
  cases ht with
  | pending hq ha hr hp => exact ⟨rfl, rfl, rfl, rfl, ha⟩
  | parked hq ha => exact ⟨rfl, rfl, rfl, rfl, rfl⟩

theorem shut_tear (tr : List Event) : Shut id
    ((if isBidi id then [.streamShutdown id .write h3NoError] else []) ++
      .streamShutdown id .read h3NoError :: tr) := by
  cases hb : isBidi id with
  | true => exact ⟨by simp, fun _ => by simp⟩
  | false => exact ⟨by simp, fun hx => by rw [hb] at hx; cases hx⟩

theorem registered_of_allDone {a : Option AdmitState} (h : allDone b a = true) :
    ∃ sd rd, a = some (.registered sd rd) := by
  cases a with
  | none => cases h
  | some a =>
    cases a with
    | parked p => cases h
    | registered sd rd => exact ⟨sd, rd, rfl⟩

/-- **Every move keeps the record of what became of a discovered stream.** -/
theorem move {ok : Bytes → Nat → Prop} (h : Handed srv id v) (hm : Life.Move srv id ok v v') :
    Handed srv id v' := by
  have hsub := hm.suffix.subset
  cases hm with
  | other tr hg => exact h.quiet (hg.mono slotFree_of_foreign) rfl rfl rfl rfl .inl
  | front cs tr hf =>
    refine h.quiet (hf.grows.mono slotFree_of_isFront) rfl rfl rfl rfl fun hc => ?_
    by_cases hcs : cs = []
    · subst hcs
      exact .inl (by simpa [Life.submit] using hc)
    · exact .inr (hf.known hcs)
  | turn hn => exact h.quiet (.one trivial) rfl rfl rfl rfl .inl
  | readable hr ha hp =>
    exact h.discover [.readableNext id false] _ _ fun hk => by simpa [Known] using hk
  | writable ans hs hb ha hp =>
    exact h.discover [.streamCapacity id ans, .writableNext id false] _ _ fun hk => by
      simpa [Known] using hk
  | mergePending ans p hs hp =>
    exact h.change (.one trivial) (fun _ _ _ => rfl) rfl rfl .inl fun _ => .inl rfl
  | mergeParked ans p hs ha =>
    exact h.change (.one trivial) (fun _ _ hx => by cases hx) rfl rfl .inl fun _ => .inr (.inl rfl)
  | stale b hq hs =>
    -- a registered stream, or one with a half, has been handed over; a parked one still waits
    rcases hs with hs | hs
    · cases ha : v.admission with
      | none => simp [ha] at hs
      | some a =>
        cases a with
        | parked p =>
          exact h.change (.refl _ _) (fun _ _ _ => ha) rfl rfl .inl fun _ => .inr (.inl rfl)
        | registered sd rd => exact h.ofKnown (h.reg sd rd ha) hsub
    · exact h.ofKnown (h.recv hs) hsub
  | repark v1 b p ht =>
    obtain ⟨hr, hs, hc, hh, -⟩ := take ht
    refine h.change ?_ (fun _ _ hx => by cases hx) hr hs (fun hx => .inl (hc ▸ hx)) fun _ =>
      .inr (.inl rfl)
    change Grows _ v.hist v1.hist
    rw [hh]
    exact .refl _ _
  | tear v1 b p ht =>
    obtain ⟨hr, hs, hc, hh, ha⟩ := take ht
    refine h.change ?_ (fun sd rd hx => ?_) hr hs (fun hx => .inl (hc ▸ hx)) fun _ =>
      .inr (.inr (.inr (shut_tear v1.hist)))
    · change Grows _ v.hist (_ ++ _ :: v1.hist)
      rw [hh]
      split
      · exact .cons trivial (.one trivial)
      · exact .one trivial
    · change v1.admission = _ at hx
      rw [ha] at hx
      cases hx
  | admitBidi v1 b p j c cs tr ht hb hc v2 hv hf =>
    refine ofHandOver ?_ List.mem_cons_self
    refine Known.mono ?_ fun _ he => List.mem_cons_of_mem _ (hf.grows.mem he)
    subst hv
    exact Slot.known_openSend (v1.openRecv id j) id c p.pendingSendTerminal
  | admitUni v1 b p j cs tr ht hb v2 hv hf =>
    refine ofHandOver ?_ List.mem_cons_self
    refine Known.mono ?_ fun _ he => List.mem_cons_of_mem _ (hf.grows.mem he)
    subst hv
    exact (Slot.grows_openRecv v1 id j).2
  | clean tr hg park pend hn hpark hpend hs =>
    refine h.change (hg.mono (of_passing slotFree_of_foreign fun _ => trivial)) (fun sd rd hx => ?_)
      rfl rfl .inl fun hw => ?_
    · change (if park then none else v.admission) = _ at hx
      change v.admission = if park then none else v.admission
      split at hx
      · cases hx
      · rename_i hn
        simp [hn]
    · by_cases hx : park = true ∨ pend = true
      · exact .inr (.inr (.inr (hs hx)))
      · rw [not_or] at hx
        rcases hw with hw | hw
        · exact .inl (by simpa [hx.2] using hw)
        · exact .inr (.inl (by simpa [hx.1] using hw))
  | settle =>
    by_cases hd : allDone (isBidi id) v.admission = true
    · obtain ⟨sd, rd, ha⟩ := registered_of_allDone hd
      exact h.ofKnown (h.reg sd rd ha) hsub
    · have hv : v.settle id = v := if_neg hd
      rw [hv]
      exact h
  | openBidi _ c hl | openUni c hl => exact ofLocal hl (Slot.known_openSend _ id c none)
  | undeliver j c cs tr hl hc v2 hv hf hd hs =>
    refine ofLocal hl (Known.mono ?_ (Life.undeliver_suffix (v2.submit cs tr) id _).subset)
    refine Known.mono ?_ hf.grows.subset
    rw [hv]
    split <;> exact Slot.known_openSend _ id c none
  | recvEnd _ _ hr | abandon _ hr => exact h.ofKnown (h.recv (by rw [hr]; rfl)) hsub
  | applyResume _ hc | applySend _ _ _ _ _ hc | applyFinish _ _ _ hc | applyReset _ _ _ hc
  | applyStop _ _ hc => exact h.ofKnown (h.cmds (by simp [hc])) hsub
  | resetEntry _ _ _ hs | sendErr _ _ _ _ hs | flush _ _ _ _ hs | flushFin _ _ _ _ _ hs
  | emptyHeld _ _ hs | emptyFin _ _ _ _ hs | loneFin _ _ _ _ hs | hold _ _ _ _ _ hs
  | offer _ _ _ _ _ _ hs | accept _ _ _ _ _ _ hs | skipWrite _ _ _ _ _ hs | sendEnd _ _ _ hs
  | resetTurn _ _ hs => exact h.ofKnown (h.send (by rw [hs]; rfl)) hsub
  | capacity ans hs => exact h.ofKnown (h.send hs) hsub
  | _ => exact h.quiet (.refl _ _) rfl rfl rfl rfl .inl

theorem init (srv : Bool) (id : Nat) : Handed srv id .fresh := by
  constructor <;> simp [Life.fresh, Known, Discovered]

end Handed

/-! ## 4. Every run -/

namespace World

variable {σ : Type} {T : QuicConn σ}

theorem sound_withBuffers (isServer : Bool) (bidiCap uniCap depth : Nat) (cap : Option Nat)
    (c : σ) (script : List (List FrontAct)) :
    Sound (withBuffers isServer bidiCap uniCap depth cap c script) where
  peers := peersOk_withBuffers ..
  origin :=
    { face := by
        have hr : ¬ (default : RecvHalf).holder.Held ∧ (default : RecvHalf).pc = .idle :=
          ⟨fun h => h.1 rfl, rfl⟩
        have hs : ¬ (default : SendHalf).holder.Held ∧ (default : SendHalf).status = none :=
          ⟨fun h => h.1 rfl, rfl⟩
        have hl : (default : SendHalf).Final := nofun
        constructor <;>
          simp [withBuffers, Face.recvRef, Face.sendRef, Face.Final, CellOf, Submitted, hr, hs, hl]
      entry := by simp [withBuffers]
      cmd := by simp [withBuffers]
      applied := by simp [withBuffers] }
  recv := .init _ rfl
  counters := counters_withBuffers ..
  listening := rfl

theorem life_withBuffers (isServer : Bool) (bidiCap uniCap depth : Nat) (cap : Option Nat)
    (c : σ) (script : List (List FrontAct)) (id : Nat) :
    (withBuffers isServer bidiCap uniCap depth cap c script).life id = .fresh := by
  have hq (b : Bool) : pendingOf (withBuffers isServer bidiCap uniCap depth cap c script).reg b = []
      ∧ parkedOf (withBuffers isServer bidiCap uniCap depth cap c script).reg b = [] := by
    cases b <;> exact ⟨rfl, rfl⟩
  refine Life.ext ?_ ?_ ?_ ?_ (funext fun b => ?_) (funext fun b => ?_) rfl rfl rfl rfl rfl
  · simp [life, withBuffers, Life.fresh]
  · simp [life, withBuffers, Life.fresh]
  · simp [life, withBuffers, Life.fresh]
  · simp [life, withBuffers, Life.fresh]
  · simp [life, hq, Life.fresh]
  · simp [life, hq, Life.fresh]

/-- What the moves of one stream keep holds of every stream in every run. -/
theorem life_run {P : Event → List Event → Prop} {I : Nat → Life → Prop} (isServer : Bool)
    (bidiCap uniCap depth : Nat) (cap : Option Nat) (c : σ) (script : List (List FrontAct))
    (h0 : ∀ id, I id .fresh)
    (hI : ∀ id v v', Life.Move isServer id (T.Accepts id) v v' → Always P v'.hist → I id v →
      I id v')
    {w : World σ} (hs : Steps T (withBuffers isServer bidiCap uniCap depth cap c script) w)
    (hP : Always P w.trace) (id : Nat) : I id (w.life id) := by
  have hm := life_steps hs (sound_withBuffers isServer bidiCap uniCap depth cap c script) id
  unfold LifeMoves at hm
  rw [life_withBuffers] at hm
  exact Life.Moves.induct (hI id) hm hP (h0 id)

end World

end QuicheH3
