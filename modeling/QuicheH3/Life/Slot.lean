/-
# One slot for one stream

A stream is waiting for admission, or parked, or registered, or none of these, and the
admission containers agree on which.  This is not so for every transport: a scan takes an id
none of the registries knows for a NEW peer stream, and an id can be unknown because its stream
has ended (or because it is a local one).  `FreshReport` is the condition on the transport's
reports that excludes this, and `Slot` is what the containers then guarantee of a stream.

Contents
  1  reports, 2 the invariant
  3  ending a direction, 4 a stream that has halves, 5 admission
  6  the moves
-/
import QuicheH3.Life.Machine

namespace QuicheH3

open Lib

/-! ## 1. Reports -/

/-- The id a cursor reported, if no registry knew it. -/
def Event.untracked : Event → Option Nat
  | .readableNext id false | .writableNext id false => some id
  | _ => none

/-- The stream was taken for a new one. -/
def Discovered (id : Nat) (tr : List Event) : Prop :=
  .readableNext id false ∈ tr ∨ .writableNext id false ∈ tr

instance (id : Nat) (tr : List Event) : Decidable (Discovered id tr) :=
  inferInstanceAs (Decidable (_ ∨ _))

theorem Discovered.mono {id : Nat} {tr tr' : List Event} (h : Discovered id tr) (hs : tr ⊆ tr') :
    Discovered id tr' := h.imp (fun hm => hs hm) fun hm => hs hm

/-- The report is about a peer stream, and the first that no registry knew. -/
def FreshFor (srv : Bool) (id : Nat) (e : Event) (pre : List Event) : Prop :=
  id ∈ e.untracked → serverInitiated id ≠ srv ∧ ¬ Discovered id pre

instance (srv : Bool) (id : Nat) (e : Event) (pre : List Event) :
    Decidable (FreshFor srv id e pre) :=
  inferInstanceAs (Decidable (_ → _))

/-- What was reported as unknown is the peer's. -/
theorem peer_of_discovered {srv : Bool} {id : Nat} {tr : List Event}
    (h : Always (FreshFor srv id) tr) (hd : Discovered id tr) : serverInitiated id ≠ srv := by
  rcases hd with hd | hd
  · obtain ⟨post, pre, rfl⟩ := List.append_of_mem hd
    exact (h.at rfl).1
  · obtain ⟨post, pre, rfl⟩ := List.append_of_mem hd
    exact (h.at rfl).1

/-- A report of an id no registry knows is about a peer stream, and the first such report of it. -/
def FreshReport (srv : Bool) (e : Event) (pre : List Event) : Prop :=
  ∀ id ∈ e.untracked, serverInitiated id ≠ srv ∧ ¬ Discovered id pre

instance (srv : Bool) (e : Event) (pre : List Event) : Decidable (FreshReport srv e pre) :=
  inferInstanceAs (Decidable (∀ id ∈ e.untracked, _))

/-- Events that say nothing of how stream `id` stands with admission. -/
def Event.slotFree (id : Nat) : Event → Prop
  | .readableNext i t | .writableNext i t => t = true ∨ i ≠ id
  | .recvOpen i _ | .handle i _ | .sendOpen i _ | .handOver i => i ≠ id
  | _ => True

theorem slotFree_of_foreign {id : Nat} {tr : List Event} (e : Event) (h : e.foreign id tr) :
    e.slotFree id := by
  cases e <;> first | exact h | trivial

theorem slotFree_of_isFront {id : Nat} (e : Event) (h : e.isFront) : e.slotFree id := by
  cases e <;> trivial

section SlotFree

variable {id : Nat} {tr tr' : List Event}

theorem discovered_iff (h : Grows (Event.slotFree id) tr tr') :
    Discovered id tr' ↔ Discovered id tr :=
  or_congr (h.mem_iff (by simp [Event.slotFree])) (h.mem_iff (by simp [Event.slotFree]))

theorem known_iff (h : Grows (Event.slotFree id) tr tr') : Known id tr' ↔ Known id tr :=
  or_congr (exists_congr fun _ => h.mem_iff fun hn => hn rfl)
    (or_congr (exists_congr fun _ => h.mem_iff fun hn => hn rfl)
      (exists_congr fun _ => h.mem_iff fun hn => hn rfl))

theorem handOver_iff (h : Grows (Event.slotFree id) tr tr') :
    .handOver id ∈ tr' ↔ .handOver id ∈ tr := h.mem_iff fun hn => hn rfl

end SlotFree

/-! ## 2. The invariant -/

/-- The stream waits for a place in an accept queue. -/
def isParked : Option AdmitState → Bool
  | some (.parked _) => true
  | _ => false

/-- Nothing of the stream is registered and nothing ever was. -/
structure Untouched (srv : Bool) (id : Nat) (v : Life) : Prop where
  peer : serverInitiated id ≠ srv
  discovered : Discovered id v.hist
  recv : v.recv = none
  send : v.send = none
  unknown : ¬ Known id v.hist

/-- The stream stands in one place, and the containers agree on which. -/
structure Slot (srv : Bool) (id : Nat) (v : Life) : Prop where
  pend : v.pend.isSome → Untouched srv id v ∧ v.admission = none
  parked : isParked v.admission = true → Untouched srv id v
  pendQ : ∀ b, v.pendQ b = if b = isBidi id ∧ v.pend.isSome then 1 else 0
  parkQ : ∀ b, v.parkQ b = if b = isBidi id ∧ isParked v.admission = true then 1 else 0
  reg : ∀ sd rd, v.admission = some (.registered sd rd) →
    serverInitiated id ≠ srv ∧ Known id v.hist ∧ (rd = false ↔ v.recv.isSome)
  recvPeer : v.recv.isSome → serverInitiated id ≠ srv → ∃ sd, v.admission =
    some (.registered sd false)
  known : Known id v.hist → serverInitiated id ≠ srv → Discovered id v.hist
  recvKnown : v.recv.isSome → Known id v.hist
  sendKnown : v.send.isSome → Known id v.hist
  cmdsKnown : v.cmds ≠ [] → Known id v.hist
  handed : .handOver id ∈ v.hist → Known id v.hist
  ok : Always (fun e pre => e = .handOver id → serverInitiated id ≠ srv ∧ .handOver id ∉ pre) v.hist

namespace Slot

variable {srv : Bool} {id : Nat} {v v' : Life}

variable (h : Slot srv id v)

include h

/-- Directions may end; nothing is discovered, made or handed over. -/
theorem change (hg : Grows (Event.slotFree id) v.hist v'.hist)
    (hr : v'.recv.isSome → v'.recv = v.recv) (hp : v'.pend = v.pend)
    (hpq : v'.pendQ = v.pendQ) (hkq : v'.parkQ = v.parkQ)
    (hs : v'.send.isSome → v.send.isSome)
    (hc : v'.cmds ≠ [] → v.cmds ≠ [] ∨ Known id v.hist)
    (hpark : isParked v'.admission = isParked v.admission)
      (hnone : v.admission = none → v'.admission = none)
    (hreg : ∀ sd rd, v'.admission = some (.registered sd rd) →
      (∃ sd' rd', v.admission = some (.registered sd' rd')) ∧ (rd = false ↔ v'.recv.isSome))
    (hrp : v'.recv.isSome → ∀ sd, v.admission = some (.registered sd false) →
      ∃ sd', v'.admission = some (.registered sd' false)) : Slot srv id v' := by
  have hd := discovered_iff hg
  have hk := known_iff hg
  have hu : Untouched srv id v → Untouched srv id v' := fun u => by
    refine ⟨u.peer, hd.mpr u.discovered, ?_, ?_, fun hn => u.unknown (hk.mp hn)⟩
    · by_contra hn
      exact hn ((hr (Option.isSome_iff_ne_none.mpr hn)).trans u.recv)
    · by_contra hn
      have := hs (Option.isSome_iff_ne_none.mpr hn)
      rw [u.send] at this
      cases this
  exact
    { pend := fun hx => by
        rw [hp] at hx
        exact ⟨hu (h.pend hx).1, hnone (h.pend hx).2⟩
      parked := fun hx => hu (h.parked (hpark ▸ hx))
      pendQ := fun b => by rw [hpq, hp, h.pendQ b]
      parkQ := fun b => by rw [hkq, hpark, h.parkQ b]
      reg := fun sd rd hx => by
        obtain ⟨⟨sd', rd', ha⟩, hiff⟩ := hreg sd rd hx
        obtain ⟨h1, h2, -⟩ := h.reg sd' rd' ha
        exact ⟨h1, hk.mpr h2, hiff⟩
      recvPeer := fun hx hpeer => by
        obtain ⟨sd, ha⟩ := h.recvPeer (hr hx ▸ hx) hpeer
        exact hrp hx sd ha
      known := fun hx hpeer => hd.mpr (h.known (hk.mp hx) hpeer)
      recvKnown := fun hx => hk.mpr (h.recvKnown (hr hx ▸ hx))
      sendKnown := fun hx => hk.mpr (h.sendKnown (hs hx))
      cmdsKnown := fun hx => hk.mpr ((hc hx).elim h.cmdsKnown fun hk => hk)
      handed := fun hx => hk.mpr (h.handed ((handOver_iff hg).mp hx))
      ok := hg.always (fun e pre he hx => by subst hx; exact absurd rfl he) h.ok }

/-- The slots stay and nothing is said of them. -/
theorem keep (hg : Grows (Event.slotFree id) v.hist v'.hist)
    (hr : v'.recv = v.recv) (ha : v'.admission = v.admission) (hp : v'.pend = v.pend)
    (hpq : v'.pendQ = v.pendQ) (hkq : v'.parkQ = v.parkQ)
    (hs : v'.send.isSome → v.send.isSome)
    (hc : v'.cmds ≠ [] → v.cmds ≠ [] ∨ Known id v.hist) : Slot srv id v' :=
  h.change hg (fun _ => hr) hp hpq hkq hs hc (by rw [ha]) (fun hn => ha.trans hn)
    (fun sd rd hx => ⟨⟨sd, rd, ha ▸ hx⟩, hr ▸ (h.reg sd rd (ha ▸ hx)).2.2⟩)
    (fun _ sd hx => ⟨sd, ha.trans hx⟩)

/-- Only history, send entry and cursors change. -/
theorem keepHist (hg : Grows (Event.slotFree id) v.hist v'.hist) (hv : v' = { v with
      send := v'.send, readable := v'.readable, resume := v'.resume, runnable := v'.runnable
      hist := v'.hist }) (hs : v'.send.isSome → v.send.isSome) : Slot srv id v' := by
  refine h.keep hg ?_ ?_ ?_ ?_ ?_ hs fun hc => .inl ?_ <;> first | (rw [hv]) |
    (rw [hv] at hc; exact hc)

theorem emit (e : Event) (he : e.slotFree id) : Slot srv id (v.emit e) :=
  h.keepHist (.one he) rfl fun h => h

/-! ## 3. Ending a direction -/

theorem pend_none_of_known (hk : Known id v.hist) : v.pend = none := by
  by_contra hn
  exact (h.pend (Option.isSome_iff_ne_none.mpr hn)).1.unknown hk

theorem not_parked_of_known (hk : Known id v.hist) : isParked v.admission = false := by
  by_contra hn
  exact (h.parked (by simpa using hn)).unknown hk

/-- The registration goes, with no receive half left. -/
theorem unregister (hk : Known id v.hist) (hr : v.recv = none) :
    Slot srv id { v with admission := none } := by
  have hp := h.pend_none_of_known hk
  exact
    { h with
      pend := fun hx => by
        change v.pend.isSome = true at hx
        rw [hp] at hx
        cases hx
      parked := fun hx => by cases hx
      parkQ := fun b => by
        have h1 := h.parkQ b
        rw [h.not_parked_of_known hk] at h1
        exact h1
      reg := fun sd rd hx => by cases hx
      recvPeer := fun hx => by
        change v.recv.isSome = true at hx
        rw [hr] at hx
        cases hx }

theorem closeSend : Slot srv id (v.closeSend id) := by
  unfold Life.closeSend
  split
  · exact h
  · refine h.keepHist ?_ rfl (by simp)
    refine .cons trivial (World.grows_cancelled _ _ fun _ _ => trivial)

/-- Contract A finds no receive half. -/
theorem settle : Slot srv id (v.settle id) := by
  unfold Life.settle
  split
  · rename_i hd
    -- registered with its receive direction done, so there is no receive half
    obtain ⟨sd, ha⟩ : ∃ sd, v.admission = some (.registered sd true) := by
      cases hx : v.admission with
      | none => simp [hx, allDone] at hd
      | some a =>
        cases a with
        | parked p => simp [hx, allDone] at hd
        | registered sd rd =>
          refine ⟨sd, ?_⟩
          simp only [hx, allDone] at hd
          split at hd
          · simp only [Bool.and_eq_true] at hd
            rw [hd.2]
          · rw [hd]
    obtain ⟨-, hk, hr⟩ := h.reg sd true ha
    have hrn : v.recv = none := by
      cases hx : v.recv with
      | none => rfl
      | some j => simp [hx] at hr
    have h1 := h.unregister hk hrn
    have h2 :
        ({ v with admission := none } : Life).closeRecv id = { v with admission := none } := by
      simp only [Life.closeRecv, hrn]
    rw [h2]
    exact h1.keepHist (.refl _ _) rfl fun h => h
  · exact h

theorem reclaim : Slot srv id (v.reclaim id) := by
  unfold Life.reclaim
  split
  · rename_i s hs
    split
    · rename_i hc
      have h1 := h.closeSend
      refine h1.unregister ?_ ?_
      · have hk := h.sendKnown (by rw [hs]; rfl)
        refine hk.mono ?_
        simp only [Life.closeSend, hs]
        exact (Grows.cons (C := fun _ => True) trivial
          (World.grows_cancelled _ _ fun _ _ => trivial)).subset
      · simp only [Life.closeSend, hs]
        exact hc.2
    · exact h
  · exact h

/-- `mark_recv_done` before contract A. -/
theorem recvFlags : Slot srv id { (v.closeRecv id).emit (.recvDone id) with
      readable := false, resume := false, admission := markRecv (v.closeRecv id).admission } := by
  have hclosed : ∃ tr, Grows (Event.slotFree id) v.hist tr ∧
      v.closeRecv id = { v with recv := none, hist := tr } := by
    unfold Life.closeRecv
    split
    · rename_i hr
      exact ⟨v.hist, .refl _ _, by rw [← hr]⟩
    · rename_i j _
      exact ⟨.recvClose id j :: v.hist, .one trivial, rfl⟩
  obtain ⟨tr, hg, hv⟩ := hclosed
  rw [hv]
  refine h.change (.cons (e := Event.recvDone id) trivial hg) (fun hx => by cases hx) rfl rfl rfl
    (fun hx => hx)
    (fun hx => .inl hx) ?_ (fun hn => ?_) (fun sd rd hx => ?_) (fun hx => by cases hx)
  · change isParked (markRecv v.admission) = isParked v.admission
    cases v.admission with
    | none => rfl
    | some a => cases a <;> rfl
  · change markRecv v.admission = none
    rw [hn]
    rfl
  · change markRecv v.admission = some (.registered sd rd) at hx
    cases hy : v.admission with
    | none => simp [hy, markRecv] at hx
    | some a =>
      cases a with
      | parked p => simp [hy, markRecv] at hx
      | registered sd' rd' =>
        simp only [hy, markRecv, Option.some.injEq, AdmitState.registered.injEq] at hx
        exact ⟨⟨sd', rd', rfl⟩, by simp [← hx.2, Life.emit]⟩

theorem recvDone : Slot srv id (v.recvDone id) := h.recvFlags.settle.reclaim

/-- `mark_send_done` before contract A. -/
theorem sendFlags : Slot srv id { v with
      send := v.send.map Life.finish, hist := .sendDone id :: v.hist, runnable := false
      admission := markSend v.admission } := by
  refine h.change (.one (e := Event.sendDone id) trivial) (fun _ => rfl) rfl rfl rfl
    (fun hx => ?_) (fun hx => .inl hx) ?_ (fun hn => ?_) (fun sd rd hx => ?_) (fun _ sd hx => ?_)
  · simpa using hx
  · change isParked (markSend v.admission) = isParked v.admission
    cases v.admission with
    | none => rfl
    | some a => cases a <;> rfl
  · change markSend v.admission = none
    rw [hn]
    rfl
  · change markSend v.admission = some (.registered sd rd) at hx
    cases hy : v.admission with
    | none => simp [hy, markSend] at hx
    | some a =>
      cases a with
      | parked p => simp [hy, markSend] at hx
      | registered sd' rd' =>
        simp only [hy, markSend, Option.some.injEq, AdmitState.registered.injEq] at hx
        exact ⟨⟨sd', rd', rfl⟩, hx.2 ▸ (h.reg sd' rd' hy).2.2⟩
  · exact ⟨true, by change markSend v.admission = _; rw [hx]; rfl⟩

theorem sendDone : Slot srv id (v.sendDone id) := h.sendFlags.settle

/-- The head operation is completed. -/
theorem popOp : Slot srv id (v.popOp) := by
  unfold Life.popOp
  split
  · rename_i s hs
    split
    · exact h.keepHist (.one trivial) rfl fun _ => by rw [hs]; rfl
    · exact h
  · exact h

theorem completeFinish : Slot srv id (v.completeFinish id) :=
  h.popOp.sendDone.reclaim

/-! ## 4. A stream that has halves -/

/-- Once a stream has halves it waits nowhere, and what happens to its send side is no matter. -/
theorem keepKnown (hk : Known id v.hist)
    (hg : Grows (fun e => e ≠ .handOver id) v.hist v'.hist) (hr : v'.recv = v.recv)
    (ha : v'.admission = v.admission) (hp : v'.pend = v.pend) (hpq : v'.pendQ = v.pendQ)
    (hkq : v'.parkQ = v.parkQ) : Slot srv id v' := by
  have hk' : Known id v'.hist := hk.mono hg.subset
  have hpn : v'.pend = none := hp.trans (h.pend_none_of_known hk)
  have hpk : isParked v'.admission = false := ha ▸ h.not_parked_of_known hk
  exact
    { pend := fun hx => by simp [hpn] at hx
      parked := fun hx => by simp [hpk] at hx
      pendQ := fun b => by rw [hpq, hp, h.pendQ b]
      parkQ := fun b => by rw [hkq, ha, h.parkQ b]
      reg := fun sd rd hx => by
        obtain ⟨h1, -, h3⟩ := h.reg sd rd (ha ▸ hx)
        exact ⟨h1, hk', hr ▸ h3⟩
      recvPeer := fun hx hpeer => by
        rw [hr] at hx
        rw [ha]
        exact h.recvPeer hx hpeer
      known := fun _ hpeer => (h.known hk hpeer).imp (hg.subset ·) (hg.subset ·)
      recvKnown := fun _ => hk'
      sendKnown := fun _ => hk'
      cmdsKnown := fun _ => hk'
      handed := fun _ => hk'
      ok := hg.always (fun e pre he hx => absurd hx he) h.ok }

/-- A local stream waits nowhere and is never registered. -/
theorem keepLocal (hl : serverInitiated id = srv) (hk' : Known id v'.hist)
    (hg : Grows (fun e => e ≠ .handOver id) v.hist v'.hist)
    (ha : v'.admission = v.admission) (hp : v'.pend = v.pend) (hpq : v'.pendQ = v.pendQ)
    (hkq : v'.parkQ = v.parkQ) : Slot srv id v' := by
  have hpn : v'.pend.isSome → False := fun hx => (h.pend (hp ▸ hx)).1.peer hl
  have hpk : isParked v'.admission = true → False := fun hx => (h.parked (ha ▸ hx)).peer hl
  exact
    { pend := fun hx => (hpn hx).elim
      parked := fun hx => (hpk hx).elim
      pendQ := fun b => by rw [hpq, hp, h.pendQ b]
      parkQ := fun b => by rw [hkq, ha, h.parkQ b]
      reg := fun sd rd hx => absurd hl (h.reg sd rd (ha ▸ hx)).1
      recvPeer := fun _ hpeer => absurd hl hpeer
      known := fun _ hpeer => absurd hl hpeer
      recvKnown := fun _ => hk'
      sendKnown := fun _ => hk'
      cmdsKnown := fun _ => hk'
      handed := fun _ => hk'
      ok := hg.always (fun e pre he hx => absurd hx he) h.ok }

theorem ensure (hk : Known id v.hist) (c : Nat) : Slot srv id (v.ensure id c) := by
  unfold Life.ensure
  split
  · exact h
  · exact h.keepKnown hk (.one (by simp)) rfl rfl rfl rfl rfl

theorem enqueue (hk : Known id v.hist) (c : Nat) (op : SendOp) :
    Slot srv id (v.enqueue id c op) := by
  have h1 := h.ensure hk c
  have hk1 : Known id (v.ensure id c).hist := hk.mono (Life.ensure_suffix v id c).subset
  unfold Life.enqueue
  dsimp only
  split
  · exact h1
  · split
    · exact h1.emit _ trivial
    · exact h1.keepKnown hk1 (.refl _ _) rfl rfl rfl rfl rfl

/-! ## 5. Admission -/

theorem take {b : Bool} {p : PeerStream} (ht : Life.Take v b p v') :
    Slot srv id v' ∧ Untouched srv id v' ∧ v'.admission = none ∧ v'.pend = none ∧
      b = isBidi id := by
  -- what is common to the two queues
  have key : Untouched srv id v' → v'.admission = none → v'.pend = none → v'.cmds = v.cmds →
      v'.hist = v.hist → (∀ c, v'.pendQ c = 0) → (∀ c, v'.parkQ c = 0) → Slot srv id v' := by
    intro u ha hp hc hh h1 h2
    exact
      { pend := fun hx => by simp [hp] at hx
        parked := fun hx => by simp [ha, isParked] at hx
        pendQ := fun c => by simp [h1, hp]
        parkQ := fun c => by simp [h2, ha, isParked]
        reg := fun sd rd hx => by simp [ha] at hx
        recvPeer := fun hx => by simp [u.recv] at hx
        known := fun hx => absurd hx u.unknown
        recvKnown := fun hx => by simp [u.recv] at hx
        sendKnown := fun hx => by simp [u.send] at hx
        cmdsKnown := fun hx => hh ▸ h.cmdsKnown (hc ▸ hx)
        handed := fun hx => hh ▸ h.handed (hh ▸ hx)
        ok := hh ▸ h.ok }
  cases ht with
  | pending hq ha hr hp =>
    obtain ⟨u, -⟩ := h.pend (by rw [hp]; rfl)
    have hu : Untouched srv id { v with pendQ := unbump b v.pendQ, pend := none } :=
      ⟨u.peer, u.discovered, u.recv, u.send, u.unknown⟩
    have hb : b = isBidi id := by
      have := h.pendQ b
      by_contra hn
      simp [hn] at this
      omega
    refine ⟨key hu ha rfl rfl rfl (fun c => ?_) (fun c => ?_), hu, ha, rfl, hb⟩
    · subst hb
      by_cases hc : c = isBidi id
      · subst hc
        simp [unbump, h.pendQ, hp]
      · simp [unbump, hc, h.pendQ]
    · simp [h.parkQ, ha, isParked]
  | parked hq ha =>
    have u := h.parked (by rw [ha]; rfl)
    have hpn : v.pend = none := by
      by_contra hn
      have := (h.pend (Option.isSome_iff_ne_none.mpr hn)).2
      rw [ha] at this
      cases this
    have hu : Untouched srv id { v with parkQ := unbump b v.parkQ, admission := none } :=
      ⟨u.peer, u.discovered, u.recv, u.send, u.unknown⟩
    have hb : b = isBidi id := by
      have := h.parkQ b
      by_contra hn
      simp [hn] at this
      omega
    refine ⟨key hu rfl hpn rfl rfl (fun c => ?_) (fun c => ?_), hu, rfl, hpn, hb⟩
    · simp [h.pendQ, hpn]
    · subst hb
      by_cases hc : c = isBidi id
      · subst hc
        simp [unbump, h.parkQ, ha, isParked]
      · simp [unbump, hc, h.parkQ]

theorem repark (u : Untouched srv id v) (ha : v.admission = none)
    (hp : v.pend = none) (p : PeerStream) :
    Slot srv id { v with admission := some (.parked p), parkQ := bump (isBidi id) v.parkQ } := by
  have hu : Untouched srv id
      { v with admission := some (.parked p), parkQ := bump (isBidi id) v.parkQ } :=
    ⟨u.peer, u.discovered, u.recv, u.send, u.unknown⟩
  exact
    { h with
      pend := fun hx => by
        change v.pend.isSome = true at hx
        simp [hp] at hx
      parked := fun _ => hu
      parkQ := fun b => by
        by_cases hb : b = isBidi id
        · subst hb
          simp [bump, h.parkQ, ha, isParked]
        · simp [bump, hb, h.parkQ]
      reg := fun sd rd hx => by simp at hx
      recvPeer := fun hx => by
        change v.recv.isSome = true at hx
        simp [u.recv] at hx }

omit h in
/-- A peer stream that was just registered. -/
theorem registered {sd : Bool} (hpeer : serverInitiated id ≠ srv) (hd : Discovered id v.hist)
    (hk : Known id v.hist) (hr : v.recv.isSome) (ha : v.admission = some (.registered sd false))
    (hp : v.pend = none) (hpq : ∀ b, v.pendQ b = 0) (hkq : ∀ b, v.parkQ b = 0)
    (hok : Always (fun e pre => e = .handOver id →
      serverInitiated id ≠ srv ∧ .handOver id ∉ pre) v.hist) : Slot srv id v where
  pend hx := by simp [hp] at hx
  parked hx := by simp [ha, isParked] at hx
  pendQ b := by simp [hpq, hp]
  parkQ b := by simp [hkq, ha, isParked]
  reg sd' rd hx := by
    rw [ha, Option.some.injEq, AdmitState.registered.injEq] at hx
    exact ⟨hpeer, hk, by simp [← hx.2, hr]⟩
  recvPeer _ _ := ⟨sd, ha⟩
  known _ _ := hd
  recvKnown _ := hk
  sendKnown _ := hk
  cmdsKnown _ := hk
  handed _ := hk
  ok := hok

/-- The halves of an untouched stream are built and it is handed over. -/
theorem handOver (u : Untouched srv id v) (hp : v.pend = none)
    (ha : v.admission = none) {v2 : Life} {sd : Bool} {cs : List DriverCommand} {tr : List Event}
    (hg : Grows (fun e => e ≠ .handOver id) v.hist v2.hist) (hk : Known id v2.hist)
    (hr : v2.recv.isSome) (ha2 : v2.admission = some (.registered sd false))
      (hp2 : v2.pend = v.pend)
    (hpq : v2.pendQ = v.pendQ) (hkq : v2.parkQ = v.parkQ) (hf : Life.Front id v2 cs tr) :
    Slot srv id ((v2.submit cs tr).emit (.handOver id)) := by
  have hg2 : Grows (fun e => e ≠ .handOver id) v.hist tr :=
    hg.trans (hf.grows.mono fun e he hx => by subst hx; exact he)
  have hnot : .handOver id ∉ v.hist := fun hm => u.unknown (h.handed hm)
  have hnot2 : .handOver id ∉ tr := fun hm => hnot (hg2.old hm fun hn => hn rfl)
  refine registered u.peer ?_ ?_ hr ha2 (hp2.trans hp) (fun b => ?_) (fun b => ?_) ?_
  · exact u.discovered.imp (fun hm => List.mem_cons_of_mem _ (hg2.subset hm))
      (fun hm => List.mem_cons_of_mem _ (hg2.subset hm))
  · exact (hk.mono hf.grows.subset).mono (List.subset_cons_self _ _)
  · change v2.pendQ b = 0
    simp [hpq, h.pendQ, hp]
  · change v2.parkQ b = 0
    simp [hkq, h.parkQ, ha, isParked]
  · exact ⟨fun _ => ⟨u.peer, hnot2⟩, hg2.always (fun e pre he hx => absurd hx he) h.ok⟩

/-! ## 6. The moves -/

omit h in
/-- Building halves hands nothing over. -/
theorem grows_openRecv (v : Life) (id j : Nat) :
    Grows (fun e => e ≠ .handOver id) v.hist (v.openRecv id j).hist ∧
      Known id (v.openRecv id j).hist := by
  refine ⟨?_, .inl ⟨j, List.mem_cons_self⟩⟩
  unfold Life.openRecv Life.closeRecv
  split
  · exact .one (by simp)
  · exact .cons (by simp) (.one (by simp))

omit h in
theorem grows_openSend (v : Life) (id c : Nat) (retained : Option SendEnd) :
    Grows (fun e => e ≠ .handOver id) v.hist (v.openSend id c retained).hist := by
  cases retained with
  | some e => exact .cons (by simp) (.one (by simp))
  | none =>
    unfold Life.openSend Life.closeSend
    dsimp only
    split
    · exact .cons (by simp) (.one (by simp))
    · refine .cons (by simp) (.cons (by simp) ?_)
      exact Grows.trans (.one (by simp))
        (World.grows_cancelled _ _ fun _ _ => by simp)

omit h in
theorem openSend_slots (v : Life) (id c : Nat) (retained : Option SendEnd) :
    (v.openSend id c retained).recv = v.recv ∧ (v.openSend id c retained).admission = v.admission ∧
      (v.openSend id c retained).pend = v.pend ∧ (v.openSend id c retained).pendQ = v.pendQ ∧
      (v.openSend id c retained).parkQ = v.parkQ := by
  cases retained with
  | some e => exact ⟨rfl, rfl, rfl, rfl, rfl⟩
  | none =>
    unfold Life.openSend Life.closeSend
    dsimp only
    split <;> exact ⟨rfl, rfl, rfl, rfl, rfl⟩

omit h in
theorem openRecv_slots (v : Life) (id j : Nat) :
    (v.openRecv id j).admission = v.admission ∧ (v.openRecv id j).pend = v.pend ∧
      (v.openRecv id j).pendQ = v.pendQ ∧ (v.openRecv id j).parkQ = v.parkQ := by
  unfold Life.openRecv Life.closeRecv
  split <;> exact ⟨rfl, rfl, rfl, rfl⟩

omit h in
theorem known_openSend (v : Life) (id c : Nat) (retained : Option SendEnd) :
    Known id (v.openSend id c retained).hist := by
  cases retained with
  | some e => exact .inr (.inl ⟨c, List.mem_cons_of_mem _ List.mem_cons_self⟩)
  | none => exact .inr (.inr ⟨c, List.mem_cons_self⟩)

/-- The halves of a local stream. -/
theorem openLocal (hl : serverInitiated id = srv) (j c : Nat) (b : Bool) :
    Slot srv id (if b then ((v.emit (.streamPriority id true)).openRecv id j).openSend id c none
      else (v.emit (.streamPriority id true)).openSend id c none) := by
  have h0 : Grows (fun e => e ≠ .handOver id) v.hist (v.emit (.streamPriority id true)).hist :=
    .one (by simp)
  split
  · obtain ⟨a1, a2, a3, a4⟩ := openRecv_slots (v.emit (.streamPriority id true)) id j
    obtain ⟨-, b1, b2, b3, b4⟩ := openSend_slots
      ((v.emit (.streamPriority id true)).openRecv id j) id c none
    have hg := (h0.trans (grows_openRecv _ id j).1).trans (grows_openSend _ id c none)
    exact h.keepLocal hl (known_openSend _ id c none) hg (b1.trans a1) (b2.trans a2)
      (b3.trans a3) (b4.trans a4)
  · obtain ⟨-, b1, b2, b3, b4⟩ := openSend_slots (v.emit (.streamPriority id true)) id c none
    exact h.keepLocal hl (known_openSend _ id c none) (h0.trans (grows_openSend _ id c none)) b1 b2
      b3 b4

theorem front {cs : List DriverCommand} {tr : List Event}
    (hf : Life.Front id v cs tr) : Slot srv id (v.submit cs tr) := by
  refine h.keep (hf.grows.mono slotFree_of_isFront) rfl rfl rfl rfl rfl (fun h => h) fun hc => ?_
  by_cases hcs : cs = []
  · subst hcs
    exact .inl (by simpa [Life.submit] using hc)
  · exact .inr (hf.known hcs)

theorem undeliver (hl : serverInitiated id = srv) (hk : Known id v.hist)
    (b : Bool) : Slot srv id (v.undeliver id b) := by
  have h1 : Slot srv id ((v.closeSend id).emit (.streamShutdown id .write h3RequestCancelled)) :=
    h.closeSend.emit _ trivial
  have hk1 : Known id ((v.closeSend id).emit (.streamShutdown id .write h3RequestCancelled)).hist :=
    hk.mono ((Life.closeSend_suffix v id).trans (Life.emit_suffix _ _)).subset
  cases b with
  | false => exact h1
  | true =>
    change Slot srv id ((((v.closeSend id).emit
      (.streamShutdown id .write h3RequestCancelled)).closeRecv id).emit _)
    generalize (v.closeSend id).emit (.streamShutdown id .write h3RequestCancelled) = v1 at h1 hk1
    refine emit ?_ _ trivial
    unfold Life.closeRecv
    split
    · exact h1
    · refine h1.keepLocal hl (hk1.mono (List.subset_cons_self _ _)) (.one (by simp)) rfl
        rfl rfl rfl

theorem clean {tr : List Event} (hg : Grows (Event.passing id v.hist) v.hist tr) {park pend : Bool}
    (hpark : park = true ↔ (0 < v.parkQ true ∨ 0 < v.parkQ false) ∧
      ∃ p, v.admission = some (.parked p))
    (hpend : pend = true ↔ (0 < v.pendQ true ∨ 0 < v.pendQ false) ∧ v.pend.isSome) :
    Slot srv id { v with
      admission := if park then none else v.admission, parkQ := fun _ => 0
      pend := if pend then none else v.pend, pendQ := fun _ => 0, hist := tr } := by
  -- by the queues, everything that waits is in them
  have hpe : (if pend then none else v.pend) = none := by
    by_cases hx : v.pend.isSome
    · have h1 := h.pendQ (isBidi id)
      rw [if_pos ⟨rfl, hx⟩] at h1
      have : pend = true := hpend.mpr ⟨by cases hb : isBidi id <;> rw [hb] at h1 <;> omega, hx⟩
      simp [this]
    · split
      · rfl
      · simpa using hx
  have hpa : isParked (if park then none else v.admission) = false := by
    by_cases hx : ∃ p, v.admission = some (.parked p)
    · have h1 := h.parkQ (isBidi id)
      obtain ⟨p, hp⟩ := hx
      rw [if_pos ⟨rfl, by rw [hp]; rfl⟩] at h1
      have : park = true := hpark.mpr ⟨by cases hb : isBidi id <;> rw [hb] at h1 <;> omega, p, hp⟩
      simp [this, isParked]
    · split
      · rfl
      · cases ha : v.admission with
        | none => rfl
        | some a =>
          cases a with
          | parked p => exact absurd ⟨p, ha⟩ hx
          | registered sd rd => rfl
  have hreg : ∀ sd rd, (if park then none else v.admission) = some (.registered sd rd) →
      v.admission = some (.registered sd rd) := by
    intro sd rd hx
    split at hx
    · cases hx
    · exact hx
  have hsf := hg.mono (of_passing slotFree_of_foreign fun _ => trivial)
  have hk := known_iff hsf
  have hd := discovered_iff hsf
  exact
    { pend := fun hx => by
        change (if pend then none else v.pend).isSome = true at hx
        rw [hpe] at hx
        cases hx
      parked := fun hx => by
        change isParked (if park then none else v.admission) = true at hx
        rw [hpa] at hx
        cases hx
      pendQ := fun b => by
        change 0 = if b = isBidi id ∧ (if pend then none else v.pend).isSome = true then 1 else 0
        simp [hpe]
      parkQ := fun b => by
        change 0 = if b = isBidi id ∧ isParked (if park then none else v.admission) =
          true then 1 else 0
        simp [hpa]
      reg := fun sd rd hx => by
        obtain ⟨h1, h2, h3⟩ := h.reg sd rd (hreg sd rd hx)
        exact ⟨h1, hk.mpr h2, h3⟩
      recvPeer := fun hx hpeer => by
        obtain ⟨sd, ha⟩ := h.recvPeer hx hpeer
        refine ⟨sd, ?_⟩
        change (if park then none else v.admission) = _
        split
        · rename_i hp
          obtain ⟨-, p, hp⟩ := hpark.mp hp
          rw [ha] at hp
          cases hp
        · exact ha
      known := fun hx hpeer => hd.mpr (h.known (hk.mp hx) hpeer)
      recvKnown := fun hx => hk.mpr (h.recvKnown hx)
      sendKnown := fun hx => hk.mpr (h.sendKnown hx)
      cmdsKnown := fun hx => hk.mpr (h.cmdsKnown hx)
      handed := fun hx => hk.mpr (h.handed ((handOver_iff hsf).mp hx))
      ok := hsf.always (fun e pre he hx => by subst hx; exact absurd rfl he) h.ok }

/-- A scan takes the stream for a new one. -/
theorem discover (hr : v.recv = none) (ha : v.admission = none)
    (hp : v.pend = none) (evs : List Event) (p : PeerStream)
    (hev : ∀ e ∈ evs, ∀ i, e ≠ .handOver i) (hd : Discovered id (evs ++ v.hist))
    (hpeer : serverInitiated id ≠ srv) (hnew : ¬ Discovered id v.hist)
    (hk : Known id (evs ++ v.hist) → Known id v.hist) :
    Slot srv id { v with
      pend := some p, pendQ := bump (isBidi id) v.pendQ, hist := evs ++ v.hist } := by
  have hunk : ¬ Known id v.hist := fun hn => hnew (h.known hn hpeer)
  have hsn : v.send = none := by
    by_contra hn
    exact hunk (h.sendKnown (Option.isSome_iff_ne_none.mpr hn))
  have hu : Untouched srv id { v with
      pend := some p, pendQ := bump (isBidi id) v.pendQ, hist := evs ++ v.hist } :=
    ⟨hpeer, hd, hr, hsn, fun hn => hunk (hk hn)⟩
  have hg : Grows (fun e => e ≠ .handOver id) v.hist (evs ++ v.hist) :=
    ⟨evs, rfl, fun e he => hev e he id⟩
  have hmono : Known id v.hist → Known id (evs ++ v.hist) := fun hn => hn.mono hg.subset
  exact
    { pend := fun _ => ⟨hu, ha⟩
      parked := fun hx => by
        change isParked v.admission = true at hx
        simp [ha, isParked] at hx
      pendQ := fun b => by
        by_cases hb : b = isBidi id
        · subst hb
          simp [bump, h.pendQ, hp]
        · simp [bump, hb, h.pendQ]
      parkQ := h.parkQ
      reg := fun sd rd hx => by
        change v.admission = _ at hx
        simp [ha] at hx
      recvPeer := fun hx => by
        change v.recv.isSome = true at hx
        simp [hr] at hx
      known := fun _ _ => hd
      recvKnown := fun hx => hmono (h.recvKnown hx)
      sendKnown := fun hx => hmono (h.sendKnown hx)
      cmdsKnown := fun hx => hmono (h.cmdsKnown hx)
      handed := fun hx => hmono (h.handed (hg.old hx fun hn => hn rfl))
      ok := hg.always (fun e pre he hx => absurd hx he) h.ok }

/-- What waits is in the queue of its class, and only what waits. -/
theorem pend_of_pendQ {b : Bool} (hq : 0 < v.pendQ b) : v.pend.isSome := by
  rw [h.pendQ b] at hq
  by_contra hn
  simp [hn] at hq

theorem parked_of_parkQ {b : Bool} (hq : 0 < v.parkQ b) : isParked v.admission = true := by
  rw [h.parkQ b] at hq
  by_contra hn
  simp [hn] at hq

/-- A change of the send entry with events about it. -/
theorem sendMove {s : StreamSendState} (hs : v.send = some s)
    (hg : Grows (fun e => e ≠ .handOver id) v.hist v'.hist)
    (hv : v' = { v with send := v'.send, runnable := v'.runnable, hist := v'.hist }) :
    Slot srv id v' := by
  have hk := h.sendKnown (by rw [hs]; rfl)
  refine h.keepKnown hk hg ?_ ?_ ?_ ?_ ?_ <;> rw [hv]

omit h in
theorem setCell_grows {c : Nat} {e : SendEnd} {tr tr' : List Event} (h : SetCell c e tr tr') :
    Grows (fun x => x ≠ .handOver id) tr tr' := by
  cases h with
  | old => exact .refl _ _
  | new => exact .one (by simp)

theorem sendEnd {s : StreamSendState} (hs : v.send = some s) {e : SendEnd}
    {tr : List Event} (hc : SetCell s.status e v.hist tr) : Slot srv id (v.sendEnd id s e tr) := by
  refine sendDone (h.sendMove hs ?_ rfl)
  exact (setCell_grows hc).trans (World.grows_resolved _ _ _ fun _ _ => by simp)

theorem resetEntry {s : StreamSendState} (hs : v.send = some s) {code : Nat}
    {tr : List Event} (hc : SetCell s.status (.reset code) v.hist tr) :
    Slot srv id (v.resetEntry s code tr) := by
  refine h.sendMove hs ?_ rfl
  exact (setCell_grows hc).trans (World.grows_resolved _ _ _ fun _ _ => by simp)

/-- The next command of the stream is taken up; there is one only if the stream has halves. -/
theorem pop {cmd : DriverCommand} {rest : List DriverCommand} (hc : v.cmds = cmd :: rest) :
    Slot srv id (v.pop cmd rest) ∧ Known id (v.pop cmd rest).hist := by
  have hk := h.cmdsKnown (by simp [hc])
  exact ⟨h.keepKnown hk (.one (by simp)) rfl rfl rfl rfl rfl,
    hk.mono (List.subset_cons_self _ _)⟩

/-- **Every move keeps the slot.** -/
theorem move {ok : Bytes → Nat → Prop} (hm : Life.Move srv id ok v v')
    (hP : Always (FreshFor srv id) v'.hist) : Slot srv id v' := by
  cases hm with
  | other tr hg => exact h.keepHist (hg.mono slotFree_of_foreign) rfl fun h => h
  | front cs tr hf => exact h.front hf
  | cursor r s n hr hs hn hd => exact h.keepHist (.refl _ _) rfl fun h => h
  | turn hn => exact h.keepHist (.one trivial) rfl fun h => h
  | readable hr ha hp =>
    obtain ⟨hpeer, hnew⟩ := hP.1 rfl
    refine h.discover hr ha hp [.readableNext id false] _ (by simp)
      (.inl List.mem_cons_self) hpeer hnew fun hk => ?_
    simpa [Known] using hk
  | writable ans hs hb ha hp =>
    obtain ⟨hpeer, hnew⟩ := hP.2.1 rfl
    have hunk : ¬ Known id v.hist := fun hn => hnew (h.known hn hpeer)
    have hr : v.recv = none := by
      by_contra hn
      exact hunk (h.recvKnown (Option.isSome_iff_ne_none.mpr hn))
    have h1 := h.discover hr ha hp [.streamCapacity id ans, .writableNext id false]
      { PeerStream.new id with pendingSendTerminal := World.stoppedOf ans }
      (by simp) (.inr (by simp)) hpeer hnew fun hk => by simpa [Known] using hk
    rw [hb] at h1
    exact h1
  | mergePending ans p hs hp =>
    have h := h.emit (.streamCapacity id ans) trivial
    have hx : v.pend.isSome := by rw [hp]; rfl
    obtain ⟨u, ha⟩ := h.pend hx
    have ha : v.admission = none := ha
    exact { h with
      pend := fun _ => ⟨⟨u.peer, u.discovered, u.recv, u.send, u.unknown⟩, ha⟩
      parked := fun hx => by
        have hx' : isParked v.admission = true := hx
        simp [ha, isParked] at hx'
      pendQ := fun b => by
        have hq : v.pendQ b = if b = isBidi id ∧ v.pend.isSome then 1 else 0 := h.pendQ b
        rw [hp] at hq
        exact hq }
  | mergeParked ans p hs ha =>
    have h := h.emit (.streamCapacity id ans) trivial
    have hx : isParked v.admission = true := by rw [ha]; rfl
    have u := h.parked hx
    exact { h with
      pend := fun hp => by
        have hn : v.admission = none := (h.pend hp).2
        rw [ha] at hn
        cases hn
      parked := fun _ => ⟨u.peer, u.discovered, u.recv, u.send, u.unknown⟩
      parkQ := fun b => by
        have hq : v.parkQ b = if b = isBidi id ∧ isParked v.admission = true then 1 else 0 :=
          h.parkQ b
        rw [ha] at hq
        exact hq
      reg := fun sd rd hx => by cases hx
      recvPeer := fun hx => by
        have hr : v.recv = none := u.recv
        have hx' : v.recv.isSome = true := hx
        simp [hr] at hx' }
  | stale b hq hs =>
    obtain ⟨u, ha⟩ := h.pend (h.pend_of_pendQ hq)
    simp [ha, u.recv] at hs
  | lost b hq hp =>
    have := h.pend_of_pendQ hq
    simp [hp] at this
  | skipParked b hq ha =>
    have := h.parked_of_parkQ hq
    cases hx : v.admission with
    | none => simp [hx, isParked] at this
    | some a =>
      cases a with
      | parked p => exact absurd hx (ha p)
      | registered sd rd => simp [hx, isParked] at this
  | repark v1 b p ht =>
    obtain ⟨h1, u, ha, hp, hb⟩ := h.take ht
    rw [hb]
    exact h1.repark u ha hp p
  | tear v1 b p ht =>
    obtain ⟨h1, -⟩ := h.take ht
    refine h1.keepHist ?_ rfl fun h => h
    have h2 : Grows (Event.slotFree id) v1.hist (.streamShutdown id .read h3NoError :: v1.hist) :=
      .one trivial
    change Grows _ v1.hist (_ ++ _)
    split
    · exact .cons trivial h2
    · exact h2
  | admitBidi v1 b p j c cs tr ht hb hc v2 hv hf =>
    obtain ⟨h1, u, ha, hp, -⟩ := h.take ht
    obtain ⟨a1, a2, a3, a4⟩ := openRecv_slots v1 id j
    obtain ⟨b0, b1, b2, b3, b4⟩ := openSend_slots (v1.openRecv id j) id c p.pendingSendTerminal
    obtain ⟨g1, hk⟩ := grows_openRecv v1 id j
    have g2 := grows_openSend (v1.openRecv id j) id c p.pendingSendTerminal
    subst hv
    refine h1.handOver u hp ha (g1.trans g2) (hk.mono g2.subset) ?_ rfl (b2.trans a2) (b3.trans a3)
      (b4.trans a4) hf
    change ((v1.openRecv id j).openSend id c p.pendingSendTerminal).recv.isSome = true
    rw [b0]
    rfl
  | admitUni v1 b p j cs tr ht hb v2 hv hf =>
    obtain ⟨h1, u, ha, hp, -⟩ := h.take ht
    obtain ⟨a1, a2, a3, a4⟩ := openRecv_slots v1 id j
    obtain ⟨g1, hk⟩ := grows_openRecv v1 id j
    subst hv
    exact h1.handOver u hp ha g1 hk rfl rfl a2 a3 a4 hf
  | clean tr hg park pend hn hpark hpend hs => exact h.clean hg hpark hpend
  | settle => exact h.settle
  | openBidi j c hl hb hc => exact h.openLocal hl j c true
  | openUni c hl hb hc => exact h.openLocal hl 0 c false
  | undeliver j c cs tr hl hc v2 hv hf hd hs =>
    have h1 : Slot srv id v2 := hv ▸ h.openLocal hl j c (isBidi id)
    have hk : Known id v2.hist := by
      rw [hv]
      split <;> exact known_openSend _ id c none
    exact (h1.front hf).undeliver hl (hk.mono hf.grows.subset) (isBidi id)
  | recvEnd j tr hr hg hs =>
    have h1 : Slot srv id { v with hist := tr } :=
      h.keepHist (hg.mono slotFree_of_foreign) rfl fun h => h
    exact h1.recvDone
  | abandon j hr hd => exact (h.emit (.streamShutdown id .read h3NoError) trivial).recvDone
  | applyResume rest hc => exact (h.pop hc).1.keepHist (.refl _ _) rfl fun h => h
  | applySend _ _ _ _ c hc | applyFinish _ _ c hc => exact (h.pop hc).1.enqueue (h.pop hc).2 c _
  | applyReset code rest c hc hn => exact (h.pop hc).1.ensure (h.pop hc).2 c
  | applyStop code rest hc =>
    exact ((h.pop hc).1.emit (.streamShutdown id .read code) trivial).recvDone
  | resetEntry s code tr hs ho ha hc => exact h.resetEntry hs hc
  | capacity ans hs => exact h.emit (.streamCapacity id ans) trivial
  | sendErr _ _ _ _ hs | flush _ _ _ _ hs | hold _ _ _ _ _ hs | offer _ _ _ _ _ _ hs
  | skipWrite _ _ _ _ _ hs => exact h.sendMove hs (.one (by simp)) rfl
  | flushFin s buf n t ops hs ho hh hr hop hn hm =>
    have h1 :
        Slot srv id (v.offered id buf.offered (buf.offerFin true) n { s with held := none }) :=
      h.sendMove hs (.one (by simp)) rfl
    exact h1.completeFinish
  | emptyHeld s buf hs => exact h.sendMove hs (.refl _ _) rfl
  | emptyFin s buf t ops hs =>
    have h1 : Slot srv id { v with send := some { s with held := none } } :=
      h.sendMove hs (.refl _ _) rfl
    exact h1.completeFinish
  | loneFin s n t ops hs => exact (h.emit (.streamSend id [] true (.ok n)) trivial).completeFinish
  | accept s buf t p ops n hs =>
    exact h.sendMove hs (.cons (by simp) (.one (by simp))) rfl
  | sendEnd s e tr hs ho hc => exact h.sendEnd hs hc
  | resetTurn s code hs hp =>
    have h1 : Slot srv id { v with send := some { s with pendingReset := none } } :=
      h.sendMove hs (.refl _ _) rfl
    exact ((h1.emit (.turn id) trivial).emit (.streamShutdown id .write code) trivial).sendDone

omit h in
theorem init : Slot srv id .fresh := by
  constructor <;> simp [Life.fresh, isParked, Known, Discovered, Always]

end Slot

end QuicheH3
