/-
# Reports of living streams only

`FreshReport` is about what the REGISTRIES know, which a transport cannot see.  A transport can
answer for less: it reports a peer stream it has not reported before, or a stream one of whose
directions, the one concerned, has not ended (`LiveReport`).  This module shows that this is
enough: as long as a direction has not ended the driver has not forgotten it.

A direction has ended when the worker has marked it done, when the driver has shut it down, or,
for a stream that still waits for admission, when the peer's `STOP_SENDING` has been seen.

Contents
  1  ended directions, 2 the reports of a transport
  3  the invariant, 4 ending a direction, 5 admission and opening
  6  the moves
-/
import QuicheH3.Life.Slot
import QuicheH3.Open.Machine

namespace QuicheH3

open Lib

/-! ## 1. Ended directions -/

def RecvEnded (id : Nat) (tr : List Event) : Prop :=
  .recvDone id ∈ tr ∨ ∃ code, .streamShutdown id .read code ∈ tr

def SendEnded (id : Nat) (tr : List Event) : Prop :=
  .sendDone id ∈ tr ∨ (∃ code, .streamShutdown id .write code ∈ tr) ∨
    ∃ code, .streamCapacity id (.error (.streamStopped code)) ∈ tr

theorem RecvEnded.mono {id : Nat} {tr tr' : List Event} (h : RecvEnded id tr) (hs : tr ⊆ tr') :
    RecvEnded id tr' := h.imp (hs ·) fun ⟨code, hc⟩ => ⟨code, hs hc⟩

theorem SendEnded.mono {id : Nat} {tr tr' : List Event} (h : SendEnded id tr) (hs : tr ⊆ tr') :
    SendEnded id tr' :=
  h.imp (hs ·) (Or.imp (fun ⟨code, hc⟩ => ⟨code, hs hc⟩) fun ⟨code, hc⟩ => ⟨code, hs hc⟩)

/-- The event ends the receive direction of stream `id`. -/
def Event.endsRecv (id : Nat) : Event → Bool
  | .recvDone i | .streamShutdown i .read _ => i == id
  | _ => false

/-- The event ends its send direction. -/
def Event.endsSend (id : Nat) : Event → Bool
  | .sendDone i | .streamShutdown i .write _ | .streamCapacity i (.error (.streamStopped _)) =>
    i == id
  | _ => false

theorem recvEnded_iff {id : Nat} {tr : List Event} :
    RecvEnded id tr ↔ ∃ e ∈ tr, e.endsRecv id = true := by
  constructor
  · rintro (h | ⟨code, h⟩) <;> exact ⟨_, h, by simp [Event.endsRecv]⟩
  · rintro ⟨e, he, hx⟩
    unfold Event.endsRecv at hx
    split at hx
    · cases eq_of_beq hx
      exact .inl he
    · cases eq_of_beq hx
      exact .inr ⟨_, he⟩
    · cases hx

theorem sendEnded_iff {id : Nat} {tr : List Event} :
    SendEnded id tr ↔ ∃ e ∈ tr, e.endsSend id = true := by
  constructor
  · rintro (h | ⟨code, h⟩ | ⟨code, h⟩) <;> exact ⟨_, h, by simp [Event.endsSend]⟩
  · rintro ⟨e, he, hx⟩
    unfold Event.endsSend at hx
    split at hx
    · cases eq_of_beq hx
      exact .inl he
    · cases eq_of_beq hx
      exact .inr (.inl ⟨_, he⟩)
    · cases eq_of_beq hx
      exact .inr (.inr ⟨_, he⟩)
    · cases hx

instance (id : Nat) (tr : List Event) : Decidable (RecvEnded id tr) :=
  decidable_of_iff _ recvEnded_iff.symm

instance (id : Nat) (tr : List Event) : Decidable (SendEnded id tr) :=
  decidable_of_iff _ sendEnded_iff.symm

/-- A stop the driver keeps for a waiting stream was seen at the transport. -/
theorem sendEnded_of_stopped {id : Nat} {tr : List Event} {ans : Except QuicheError Nat}
    (hm : .streamCapacity id ans ∈ tr) (hs : (World.stoppedOf ans).isSome) : SendEnded id tr := by
  unfold World.stoppedOf at hs
  split at hs
  · exact .inr (.inr ⟨_, hm⟩)
  · cases hs

/-! ## 2. The reports of a transport -/

/-- The id the readable cursor reported. -/
def Event.reads : Event → Option Nat
  | .readableNext id _ => some id
  | _ => none

/-- The id the writable cursor reported. -/
def Event.writes : Event → Option Nat
  | .writableNext id _ => some id
  | _ => none

/-- A cursor has reported the stream. -/
def Seen (id : Nat) (tr : List Event) : Prop :=
  ∃ t, .readableNext id t ∈ tr ∨ .writableNext id t ∈ tr

/-- The stream exists: the peer's, and reported; or opened by the driver. -/
def Started (srv : Bool) (id : Nat) (tr : List Event) : Prop :=
  (serverInitiated id ≠ srv ∧ Seen id tr) ∨ Opened id tr

/-- A report is of a peer stream not seen before, or of a stream whose direction concerned has
not ended; a local uni stream has no receive direction. -/
def LiveReport (srv : Bool) (e : Event) (pre : List Event) : Prop :=
  (∀ id ∈ e.reads, (serverInitiated id ≠ srv ∧ ¬ Seen id pre) ∨
    (Started srv id pre ∧ (serverInitiated id ≠ srv ∨ isBidi id = true) ∧ ¬ RecvEnded id pre)) ∧
  ∀ id ∈ e.writes, (serverInitiated id ≠ srv ∧ ¬ Seen id pre) ∨
    (Started srv id pre ∧ ¬ SendEnded id pre)

instance (id : Nat) (tr : List Event) : Decidable (Seen id tr) :=
  inferInstanceAs (Decidable (∃ _ : Bool, _))

instance (srv : Bool) (id : Nat) (tr : List Event) : Decidable (Started srv id tr) :=
  inferInstanceAs (Decidable ((serverInitiated id ≠ srv ∧ Seen id tr) ∨
    Event.streamPriority id true ∈ tr))

instance (srv : Bool) (e : Event) (pre : List Event) : Decidable (LiveReport srv e pre) :=
  inferInstanceAs (Decidable ((∀ id ∈ e.reads, _) ∧ ∀ id ∈ e.writes, _))

theorem Discovered.seen {id : Nat} {tr : List Event} (h : Discovered id tr) : Seen id tr :=
  ⟨false, h⟩

/-! ## 3. The invariant -/

/-- A direction that has not ended is kept somewhere. -/
structure Ledger (id : Nat) (v : Life) : Prop where
  peerRecv : Discovered id v.hist → ¬ RecvEnded id v.hist →
    v.recv.isSome ∨ v.admission.isSome ∨ v.pend.isSome
  peerSend : Discovered id v.hist → isBidi id = true → ¬ SendEnded id v.hist →
    v.send.isSome ∨ v.admission.isSome ∨ v.pend.isSome
  ownRecv : Opened id v.hist → isBidi id = true → ¬ RecvEnded id v.hist → v.recv.isSome
  ownSend : Opened id v.hist → ¬ SendEnded id v.hist → v.send.isSome
  sendDone : ∀ rd, v.admission = some (.registered true rd) → isBidi id = true → SendEnded id v.hist
  recvDone : ∀ sd, v.admission = some (.registered sd true) → RecvEnded id v.hist
  finished : ∀ s, v.send = some s → s.finished = true → SendEnded id v.hist
  pendStop : ∀ p, v.pend = some p → p.pendingSendTerminal.isSome → SendEnded id v.hist
  parkStop : ∀ p, v.admission = some (.parked p) → p.pendingSendTerminal.isSome →
    SendEnded id v.hist

section Routine

variable {id : Nat} {tr tr' : List Event}

theorem discovered_of_routine (h : Grows (Event.routine id) tr tr')
    (hd : Discovered id tr') : Discovered id tr :=
  hd.imp (h.old · (by simp [Event.routine])) (h.old · (by simp [Event.routine]))

theorem opened_of_routine (h : Grows (Event.routine id) tr tr')
    (ho : Opened id tr') : Opened id tr := h.old ho (by simp [Event.routine])

end Routine

namespace Ledger

variable {srv : Bool} {id : Nat} {v v' : Life}

variable (h : Ledger id v)

include h

/-- What is kept may change, but nothing is dropped whose direction has not ended. -/
theorem change (hg : Grows (Event.routine id) v.hist v'.hist)
    (hr : v.recv.isSome → ¬ RecvEnded id v'.hist → v'.recv.isSome)
    (hs : v.send.isSome → ¬ SendEnded id v'.hist → v'.send.isSome)
    (hp : v.pend.isSome → v'.pend.isSome ∨ v'.admission.isSome ∨
      (RecvEnded id v'.hist ∧ (isBidi id = true → SendEnded id v'.hist)))
    (har : v.admission.isSome → ¬ RecvEnded id v'.hist → v'.admission.isSome ∨ v'.recv.isSome)
    (has : v.admission.isSome → isBidi id = true → ¬ SendEnded id v'.hist →
      v'.admission.isSome ∨ v'.send.isSome)
    (hsd : ∀ rd, v'.admission = some (.registered true rd) → isBidi id = true →
      SendEnded id v'.hist)
    (hrd : ∀ sd, v'.admission = some (.registered sd true) → RecvEnded id v'.hist)
    (hfin : ∀ s, v'.send = some s → s.finished = true → SendEnded id v'.hist)
    (hps : ∀ p, v'.pend = some p → p.pendingSendTerminal.isSome → SendEnded id v'.hist)
    (hks : ∀ p, v'.admission = some (.parked p) → p.pendingSendTerminal.isSome →
      SendEnded id v'.hist) : Ledger id v' where
  peerRecv hd hne := by
    rcases h.peerRecv (discovered_of_routine hg hd) (fun he => hne (he.mono hg.subset)) with
      hx | hx | hx
    · exact .inl (hr hx hne)
    · exact (har hx hne).elim (fun h => .inr (.inl h)) .inl
    · rcases hp hx with hp | hp | hp
      · exact .inr (.inr hp)
      · exact .inr (.inl hp)
      · exact absurd hp.1 hne
  peerSend hd hb hne := by
    rcases h.peerSend (discovered_of_routine hg hd) hb (fun he => hne (he.mono hg.subset)) with
      hx | hx | hx
    · exact .inl (hs hx hne)
    · exact (has hx hb hne).elim (fun h => .inr (.inl h)) .inl
    · rcases hp hx with hp | hp | hp
      · exact .inr (.inr hp)
      · exact .inr (.inl hp)
      · exact absurd (hp.2 hb) hne
  ownRecv ho hb hne :=
    hr (h.ownRecv (opened_of_routine hg ho) hb fun he => hne (he.mono hg.subset)) hne
  ownSend ho hne :=
    hs (h.ownSend (opened_of_routine hg ho) fun he => hne (he.mono hg.subset)) hne
  sendDone := hsd
  recvDone := hrd
  finished := hfin
  pendStop := hps
  parkStop := hks

/-- Only the send entry, the cursors, the commands and the history change, and the send entry
neither goes nor becomes finished. -/
theorem keep (hg : Grows (Event.routine id) v.hist v'.hist)
    (hr : v'.recv = v.recv) (ha : v'.admission = v.admission) (hp : v'.pend = v.pend)
    (hs : v.send.isSome → v'.send.isSome)
    (hf : ∀ s, v'.send = some s → s.finished = true →
      ∃ s0, v.send = some s0 ∧ s0.finished = true) : Ledger id v' := by
  have hm : ∀ {x}, SendEnded x v.hist → SendEnded x v'.hist := fun he => he.mono hg.subset
  exact h.change hg (fun hx _ => hr ▸ hx) (fun hx _ => hs hx) (fun hx => .inl (hp ▸ hx))
    (fun hx _ => .inl (ha ▸ hx)) (fun hx _ _ => .inl (ha ▸ hx))
    (fun rd hx hb => hm (h.sendDone rd (ha ▸ hx) hb))
    (fun sd hx => (h.recvDone sd (ha ▸ hx)).mono hg.subset)
    (fun s hx hfx => by
      obtain ⟨s0, h0, hf0⟩ := hf s hx hfx
      exact hm (h.finished s0 h0 hf0))
    (fun p hx hx' => hm (h.pendStop p (hp ▸ hx) hx'))
    (fun p hx hx' => hm (h.parkStop p (ha ▸ hx) hx'))

theorem emit (e : Event) (he : e.routine id) : Ledger id (v.emit e) :=
  h.keep (.one he) rfl rfl rfl (fun h => h) fun s hs hf => ⟨s, hs, hf⟩

/-! ## 4. Ending a direction -/

/-- Contract A drops a registration both of whose directions have ended. -/
theorem settle (hs : Slot srv id v) : Ledger id (v.settle id) := by
  have hsl := hs.settle
  unfold Life.settle at hsl ⊢
  split
  · rename_i hd
    -- both directions are done, or the receive direction of a uni stream is
    obtain ⟨sd, ha, hb⟩ : ∃ sd, v.admission = some (.registered sd true) ∧
        (isBidi id = true → sd = true) := by
      cases hx : v.admission with
      | none => simp [hx, allDone] at hd
      | some a =>
        cases a with
        | parked p => simp [hx, allDone] at hd
        | registered sd rd =>
          simp only [hx, allDone] at hd
          split at hd
          · simp only [Bool.and_eq_true] at hd
            exact ⟨sd, by rw [hd.2], fun _ => hd.1⟩
          · rename_i hb
            exact ⟨sd, by rw [hd], fun h => absurd h hb⟩
    have hre := h.recvDone sd ha
    have hse : isBidi id = true → SendEnded id v.hist := fun h' =>
      h.sendDone true (by rw [ha, hb h']) h'
    have hrn : v.recv = none := by
      have hiff := (hs.reg sd true ha).2.2
      cases hx : v.recv with
      | none => rfl
      | some j => simp [hx] at hiff
    have h2 :
        ({ v with admission := none } : Life).closeRecv id = { v with admission := none } := by
      simp only [Life.closeRecv, hrn]
    rw [h2]
    exact h.change (.refl _ _) (fun hx _ => hx) (fun hx _ => hx) (fun hx => .inl hx)
      (fun _ hne => absurd hre hne) (fun _ hb' hne => absurd (hse hb') hne)
      (fun rd hx => by cases hx) (fun sd hx => by cases hx) h.finished h.pendStop
      (fun p hx => by cases hx)
  · exact h

/-- The send entry goes once its direction has ended. -/
theorem closeSend (he : SendEnded id v.hist) : Ledger id (v.closeSend id) := by
  unfold Life.closeSend
  split
  · exact h
  · rename_i s hs
    have hg : Grows (Event.routine id) v.hist (.sendClose id s.status ::
        cancelled s.sendOps v.hist) :=
      .cons trivial (World.grows_cancelled _ _ fun _ _ => trivial)
    have hm : SendEnded id (.sendClose id s.status :: cancelled s.sendOps v.hist) :=
      he.mono hg.subset
    exact h.change hg (fun hx _ => hx) (fun _ hne => absurd hm hne) (fun hx => .inl hx)
      (fun hx _ => .inl hx) (fun hx _ _ => .inl hx) (fun _ _ _ => hm)
      (fun sd hx => (h.recvDone sd hx).mono hg.subset) (fun s hx => by cases hx)
      (fun _ _ _ => hm) (fun _ _ _ => hm)

theorem reclaim (hs : Slot srv id v) : Ledger id (v.reclaim id) := by
  unfold Life.reclaim
  split
  · rename_i s hsx
    split
    · rename_i hc
      have hse := h.finished s hsx hc.1
      have h1 := h.closeSend hse
      have hk : Known id v.hist := hs.sendKnown (by rw [hsx]; rfl)
      have hg : v.hist ⊆ (v.closeSend id).hist := (Life.closeSend_suffix v id).subset
      have hcl : (v.closeSend id).admission = v.admission ∧ (v.closeSend id).recv = none := by
        simp only [Life.closeSend, hsx]
        exact ⟨trivial, hc.2⟩
      -- a registration without a receive half has its receive direction done
      have hre : v.admission.isSome → RecvEnded id v.hist := by
        intro hx
        cases ha : v.admission with
        | none => simp [ha] at hx
        | some a =>
          cases a with
          | parked p =>
            have := (hs.parked (by rw [ha]; rfl)).send
            rw [hsx] at this
            cases this
          | registered sd rd =>
            have hiff := (hs.reg sd rd ha).2.2
            rw [hc.2] at hiff
            have : rd = true := by simpa using hiff
            exact h.recvDone sd (by rw [ha, this])
      exact h1.change (.refl _ _) (fun hx _ => hx) (fun hx _ => hx) (fun hx => .inl hx)
        (fun hx hne => absurd ((hre (hcl.1 ▸ hx)).mono hg) hne)
        (fun _ _ hne => absurd (hse.mono hg) hne) (fun rd hx => by cases hx)
        (fun sd hx => by cases hx) h1.finished h1.pendStop (fun p hx => by cases hx)
    · exact h
  · exact h

theorem recvFlags : Ledger id { (v.closeRecv id).emit (.recvDone id) with
      readable := false, resume := false, admission := markRecv (v.closeRecv id).admission } := by
  have hclosed : ∃ tr, Grows (Event.routine id) v.hist tr ∧
      v.closeRecv id = { v with recv := none, hist := tr } := by
    unfold Life.closeRecv
    split
    · rename_i hr
      exact ⟨v.hist, .refl _ _, by rw [← hr]⟩
    · rename_i j _
      exact ⟨.recvClose id j :: v.hist, .one trivial, rfl⟩
  obtain ⟨tr, hg, hv⟩ := hclosed
  rw [hv]
  have hg' : Grows (Event.routine id) v.hist (.recvDone id :: tr) := .cons trivial hg
  have he : RecvEnded id (.recvDone id :: tr) := .inl List.mem_cons_self
  refine h.change hg' (fun _ hne => absurd he hne) (fun hx _ => hx) (fun hx => .inl hx)
    (fun _ hne => absurd he hne) (fun hx _ _ => .inl ?_) (fun rd hx hb => ?_) (fun _ _ => he)
    (fun s hx hf => (h.finished s hx hf).mono hg'.subset)
    (fun p hx hp => (h.pendStop p hx hp).mono hg'.subset) (fun p hx hp => ?_)
  · change (markRecv v.admission).isSome = true
    cases ha : v.admission with
    | none => simp [ha] at hx
    | some a => cases a <;> rfl
  · change markRecv v.admission = some (.registered true rd) at hx
    cases ha : v.admission with
    | none => simp [ha, markRecv] at hx
    | some a =>
      cases a with
      | parked p => simp [ha, markRecv] at hx
      | registered sd rd' =>
        simp only [ha, markRecv, Option.some.injEq, AdmitState.registered.injEq] at hx
        exact (h.sendDone rd' (by rw [ha, hx.1]) hb).mono hg'.subset
  · change markRecv v.admission = some (.parked p) at hx
    cases ha : v.admission with
    | none => simp [ha, markRecv] at hx
    | some a =>
      cases a with
      | parked p' =>
        simp only [ha, markRecv] at hx
        exact (h.parkStop p (by rw [ha, hx]) hp).mono hg'.subset
      | registered sd rd' => simp [ha, markRecv] at hx

theorem endRecv (hs : Slot srv id v) : Ledger id (v.recvDone id) :=
  (h.recvFlags.settle hs.recvFlags).reclaim hs.recvFlags.settle

omit h in
theorem markSend_isSome {a : Option AdmitState} (h : a.isSome) : (markSend a).isSome := by
  cases a with
  | none => cases h
  | some a => cases a <;> rfl

/-- `mark_send_done` before contract A. -/
theorem sendFlags : Ledger id { v with
      send := v.send.map Life.finish, hist := .sendDone id :: v.hist, runnable := false
      admission := markSend v.admission } := by
  have he : SendEnded id (.sendDone id :: v.hist) := .inl List.mem_cons_self
  have hsub := List.subset_cons_self (Event.sendDone id) v.hist
  refine h.change (.one trivial) (fun hx _ => hx) (fun _ hne => absurd he hne)
    (fun hx => .inl hx) (fun hx _ => .inl (markSend_isSome hx)) (fun _ _ hne => absurd he hne)
    (fun _ _ _ => he) (fun sd hx => ?_) (fun _ _ _ => he) (fun _ _ _ => he) (fun _ _ _ => he)
  cases ha : v.admission with
  | none => simp [ha, markSend] at hx
  | some a =>
    cases a with
    | parked p => simp [ha, markSend] at hx
    | registered sd' rd =>
      simp only [ha, markSend, Option.some.injEq, AdmitState.registered.injEq] at hx
      exact (h.recvDone sd' (by rw [ha, hx.2])).mono hsub

theorem endSend (hs : Slot srv id v) : Ledger id (v.sendDone id) :=
  h.sendFlags.settle hs.sendFlags

/-- The entry stays, and it is not newly finished. -/
theorem sendMove {s s' : StreamSendState} (hs : v.send = some s)
    (hg : Grows (Event.routine id) v.hist v'.hist)
    (hv : v' = { v with send := some s', runnable := v'.runnable, hist := v'.hist })
    (hf : s'.finished = s.finished) : Ledger id v' := by
  refine h.keep hg ?_ ?_ ?_ (fun _ => by rw [hv]; rfl) fun x hx hfx => ⟨s, hs, ?_⟩
  · rw [hv]
  · rw [hv]
  · rw [hv]
  · rw [hv] at hx
    cases hx
    exact hf ▸ hfx

theorem popOp : Ledger id v.popOp := by
  unfold Life.popOp
  split
  · rename_i s hs
    split
    · exact h.sendMove hs (.one trivial) rfl rfl
    · exact h
  · exact h

theorem completeFinish (hs : Slot srv id v) : Ledger id (v.completeFinish id) :=
  (h.popOp.endSend hs.popOp).reclaim hs.popOp.sendDone

/-! ## 5. Admission and opening -/

theorem ensure (c : Nat) : Ledger id (v.ensure id c) := by
  unfold Life.ensure
  split
  · exact h
  · refine h.keep (.one trivial) rfl rfl rfl (fun _ => rfl) fun s hx hf => ?_
    cases hx
    cases hf

theorem enqueue (c : Nat) (op : SendOp) : Ledger id (v.enqueue id c op) := by
  have h1 := h.ensure c
  unfold Life.enqueue
  dsimp only
  split
  · exact h1
  · rename_i s hs
    split
    · exact h1.emit _ trivial
    · exact h1.sendMove hs (.refl _ _) rfl rfl

/-- A scan takes the stream for a new one. -/
theorem discover (evs : List Event) {p : PeerStream} {q : Bool → Nat}
    (hev : Grows (fun e => ∀ ok, e ≠ .streamPriority id ok) v.hist (evs ++ v.hist))
    (hp : p.pendingSendTerminal.isSome → SendEnded id (evs ++ v.hist)) :
    Ledger id { v with pend := some p, pendQ := q, hist := evs ++ v.hist } := by
  have hsub : v.hist ⊆ evs ++ v.hist := List.subset_append_right _ _
  have hopen (ho : Opened id (evs ++ v.hist)) : Opened id v.hist := hev.old ho fun hn => hn _ rfl
  exact
    { peerRecv := fun _ _ => .inr (.inr rfl)
      peerSend := fun _ _ _ => .inr (.inr rfl)
      ownRecv := fun ho hb hne => h.ownRecv (hopen ho) hb fun he => hne (he.mono hsub)
      ownSend := fun ho hne => h.ownSend (hopen ho) fun he => hne (he.mono hsub)
      sendDone := fun rd hx hb => (h.sendDone rd hx hb).mono hsub
      recvDone := fun sd hx => (h.recvDone sd hx).mono hsub
      finished := fun s hx hf => (h.finished s hx hf).mono hsub
      pendStop := fun q hx hq => by
        cases hx
        exact hp hq
      parkStop := fun q hx hq => (h.parkStop q hx hq).mono hsub }

omit h in
/-- A stop that is kept was seen. -/
theorem sendEnded_of_merge {p : PeerStream} {ans : Except QuicheError Nat} {tr : List Event}
    (hp : p.pendingSendTerminal.isSome → SendEnded id tr)
    (h : (World.PeerStream.mergeStop p (World.stoppedOf ans)).pendingSendTerminal.isSome) :
    SendEnded id (.streamCapacity id ans :: tr) := by
  by_cases hs : (World.stoppedOf ans).isSome
  · exact sendEnded_of_stopped List.mem_cons_self hs
  · refine (hp ?_).mono (List.subset_cons_self _ _)
    unfold World.PeerStream.mergeStop at h
    split at h
    · exact absurd h hs
    · exact h

theorem take {b : Bool} {p : PeerStream} (ht : Life.Take v b p v') :
    p.pendingSendTerminal.isSome → SendEnded id v'.hist := by
  cases ht with
  | pending hq ha hr hp => exact h.pendStop p hp
  | parked hq ha => exact h.parkStop p ha

omit h in
/-- Contract A applies to neither direction of a stream that is not registered. -/
theorem unregistered (ho : ¬ Opened id v.hist) (hr : ¬ RecvEnded id v.hist → v.admission.isSome)
    (hs : isBidi id = true → ¬ SendEnded id v.hist → v.admission.isSome)
    (ha : ∀ sd rd, v.admission ≠ some (.registered sd rd)) (hn : v.send = none)
    (hp : v.pend = none)
    (hk : ∀ p, v.admission = some (.parked p) → p.pendingSendTerminal.isSome →
      SendEnded id v.hist) : Ledger id v where
  peerRecv _ hne := .inr (.inl (hr hne))
  peerSend _ hb hne := .inr (.inl (hs hb hne))
  ownRecv hx := absurd hx ho
  ownSend hx := absurd hx ho
  sendDone rd hx := absurd hx (ha true rd)
  recvDone sd hx := absurd hx (ha sd true)
  finished s hx := by
    rw [hn] at hx
    cases hx
  pendStop p hx := by
    rw [hp] at hx
    cases hx
  parkStop := hk

omit h in
/-- A peer stream was registered, its receive half is there. -/
theorem registered {sd : Bool} (ho : ¬ Opened id v.hist) (hr : v.recv.isSome)
    (ha : v.admission = some (.registered sd false)) (hp : v.pend = none)
    (hsd : sd = true → isBidi id = true → SendEnded id v.hist)
    (hf : ∀ s, v.send = some s → s.finished = false) : Ledger id v where
  peerRecv _ _ := .inl hr
  peerSend _ _ _ := .inr (.inl (by rw [ha]; rfl))
  ownRecv hx := absurd hx ho
  ownSend hx := absurd hx ho
  sendDone rd hx hb := by
    cases ha.symm.trans hx
    exact hsd rfl hb
  recvDone sd hx := by cases ha.symm.trans hx
  finished s hx hfx := absurd ((hf s hx).symm.trans hfx) (by simp)
  pendStop p hx := by
    rw [hp] at hx
    cases hx
  parkStop p hx := by cases ha.symm.trans hx

omit h in
/-- A local stream: neither announced nor registered. -/
theorem ofLocal (hl : serverInitiated id = srv) (hd : ¬ Discovered id v.hist)
    (hs : Slot srv id v) (hr : isBidi id = true → ¬ RecvEnded id v.hist → v.recv.isSome)
    (hsn : ¬ SendEnded id v.hist → v.send.isSome)
    (hf : ∀ s, v.send = some s → s.finished = true → SendEnded id v.hist) : Ledger id v where
  peerRecv hx := absurd hx hd
  peerSend hx := absurd hx hd
  ownRecv _ hb hne := hr hb hne
  ownSend _ hne := hsn hne
  sendDone rd hx := absurd hl (hs.reg true rd hx).1
  recvDone sd hx := absurd hl (hs.reg sd true hx).1
  finished := hf
  pendStop p hx := by
    have hu := (hs.pend (by rw [hx]; rfl)).1
    exact absurd hl hu.peer
  parkStop p hx := by
    have hu := hs.parked (by rw [hx]; rfl)
    exact absurd hl hu.peer

/-- Everything that waits is shut down. -/
theorem clean {tr : List Event} (hg : Grows (Event.passing id v.hist) v.hist tr) {park pend : Bool}
    (hs : park = true ∨ pend = true → Shut id tr) :
    Ledger id { v with
      admission := if park then none else v.admission, parkQ := fun _ => 0
      pend := if pend then none else v.pend, pendQ := fun _ => 0, hist := tr } := by
  have hend : park = true ∨ pend = true → RecvEnded id tr ∧ (isBidi id = true → SendEnded id tr) :=
    fun hx => ⟨.inr ⟨_, (hs hx).1⟩, fun hb => .inr (.inl ⟨_, (hs hx).2 hb⟩)⟩
  have hadm : ∀ a, (if park then none else v.admission) = some a → v.admission = some a := by
    intro a hx
    split at hx
    · cases hx
    · exact hx
  have hsub := hg.subset
  refine h.change (hg.mono (of_passing Life.routine_of_foreign fun _ => trivial)) (fun hx _ => hx)
    (fun hx _ => hx) (fun hx => ?_) (fun hx hne => ?_) (fun hx hb hne => ?_)
    (fun rd hx hb => (h.sendDone rd (hadm _ hx) hb).mono hsub)
    (fun sd hx => (h.recvDone sd (hadm _ hx)).mono hsub)
    (fun s hx hf => (h.finished s hx hf).mono hsub) (fun p hx hp => ?_)
    (fun p hx hp => (h.parkStop p (hadm _ hx) hp).mono hsub)
  · by_cases hp : pend = true
    · exact .inr (.inr (hend (.inr hp)))
    · exact .inl (by simpa [hp] using hx)
  · by_cases hp : park = true
    · exact absurd (hend (.inl hp)).1 hne
    · exact .inl (by simpa [hp] using hx)
  · by_cases hp : park = true
    · exact absurd ((hend (.inl hp)).2 hb) hne
    · exact .inl (by simpa [hp] using hx)
  · dsimp only at hx
    split at hx
    · cases hx
    · exact (h.pendStop p hx hp).mono hsub

/-- A stop that is seen while the stream waits is kept for its admission. -/
theorem mergePending {p : PeerStream} (hp : v.pend = some p) (ans : Except QuicheError Nat) :
    Ledger id { v with
      pend := some (World.PeerStream.mergeStop p (World.stoppedOf ans))
      hist := .streamCapacity id ans :: v.hist } := by
  have h1 := h.emit (.streamCapacity id ans) trivial
  exact
    { h1 with
      peerRecv := fun _ _ => .inr (.inr rfl)
      peerSend := fun _ _ _ => .inr (.inr rfl)
      pendStop := fun q hq hx => by
        cases hq
        exact sendEnded_of_merge (h.pendStop p hp) hx }

theorem mergeParked {p : PeerStream} (ha : v.admission = some (.parked p))
    (ans : Except QuicheError Nat) :
    Ledger id { v with
      admission := some (.parked (World.PeerStream.mergeStop p (World.stoppedOf ans)))
      hist := .streamCapacity id ans :: v.hist } := by
  have h1 := h.emit (.streamCapacity id ans) trivial
  exact
    { h1 with
      peerRecv := fun _ _ => .inr (.inl rfl)
      peerSend := fun _ _ _ => .inr (.inl rfl)
      sendDone := fun rd hx => by cases hx
      recvDone := fun sd hx => by cases hx
      parkStop := fun q hq hx => by
        cases hq
        exact sendEnded_of_merge (h.parkStop p ha) hx }

/-- The halves of a stream that was taken from its queue are built, and it is handed over. -/
theorem handOver {v1 v2 : Life} {b : Bool} {p : PeerStream} {sd : Bool}
    {cs : List DriverCommand} {tr : List Event} (ht : Life.Take v b p v1)
    (ho : ¬ Opened id v1.hist) (hg : Grows (Event.routine id) v1.hist v2.hist)
    (hr : v2.recv.isSome) (ha : v2.admission = some (.registered sd false)) (hp : v2.pend = none)
    (hsd : sd = true → isBidi id = true → p.pendingSendTerminal.isSome)
    (hn : ∀ s, v2.send = some s → s.finished = false) (hf : Life.Front id v2 cs tr) :
    Ledger id ((v2.submit cs tr).emit (.handOver id)) := by
  have hg' : Grows (Event.routine id) v1.hist (.handOver id :: tr) :=
    .cons trivial (hg.trans (hf.grows.mono Life.routine_of_isFront))
  exact registered (fun hx => ho (opened_of_routine hg' hx)) hr ha hp
    (fun hx hb => (h.take ht (hsd hx hb)).mono hg'.subset) hn

theorem pop (cmd : DriverCommand) (rest : List DriverCommand) : Ledger id (v.pop cmd rest) :=
  h.keep (.one trivial) rfl rfl rfl (fun h => h) fun s hs hf => ⟨s, hs, hf⟩

/-! ## 6. The moves -/

/-- **Every move keeps the ledger**, given the slots before and after it. -/
theorem move {ok : Bytes → Nat → Prop} (hm : Life.Move srv id ok v v')
    (hs : Slot srv id v) (hs' : Slot srv id v')
    (hd : Discovered id v'.hist → serverInitiated id ≠ srv)
    (ho : Opened id v.hist → serverInitiated id = srv) : Ledger id v' := by
  cases hm with
  | other tr hg =>
    exact h.keep (hg.mono Life.routine_of_foreign) rfl rfl rfl (fun h => h)
      fun s hs hf => ⟨s, hs, hf⟩
  | front cs tr hf =>
    exact h.keep (hf.grows.mono Life.routine_of_isFront) rfl rfl rfl (fun h => h)
      fun s hs hf => ⟨s, hs, hf⟩
  | cursor _ s _ _ hs | lost | skipParked =>
    exact h.keep (.refl _ _) rfl rfl rfl (fun h => h) fun s hs hf => ⟨s, hs, hf⟩
  | turn hn =>
    exact h.keep (.one trivial) rfl rfl rfl (fun h => h) fun s hs hf => ⟨s, hs, hf⟩
  | readable hr ha hp =>
    exact h.discover [.readableNext id false] (.one (by simp))
      (fun hx => by cases hx)
  | writable ans hsn hb ha hp =>
    exact h.discover [.streamCapacity id ans, .writableNext id false]
      (.cons (by simp) (.one (by simp)))
      (fun hx => sendEnded_of_stopped (List.mem_cons_self) hx)
  | mergePending ans p hsn hp => exact h.mergePending hp ans
  | mergeParked ans p hsn ha => exact h.mergeParked ha ans
  | stale b hq hx =>
    obtain ⟨u, ha⟩ := hs.pend (hs.pend_of_pendQ hq)
    simp [ha, u.recv] at hx
  | repark v1 b p ht =>
    obtain ⟨-, u, ha, hp, -⟩ := hs.take ht
    have hst := h.take ht
    exact unregistered (fun hx => u.peer (ho (ht.hist ▸ hx))) (fun _ => rfl) (fun _ _ => rfl)
      (fun _ _ hx => by cases hx) u.send hp (fun q hq hx => by cases hq; exact hst hx)
  | tear v1 b p ht =>
    obtain ⟨-, u, ha, hp, -⟩ := hs.take ht
    have hg : Grows (Event.routine id) v1.hist
        ((if isBidi id then [Event.streamShutdown id .write h3NoError] else []) ++
          .streamShutdown id .read h3NoError :: v1.hist) := by
      split
      · exact .cons trivial (.one trivial)
      · exact .one trivial
    refine unregistered (fun hx => u.peer (ho (ht.hist ▸ opened_of_routine hg hx)))
      (fun hn => absurd (.inr ⟨h3NoError, ?_⟩) hn)
      (fun hb hn => absurd (.inr (.inl ⟨h3NoError, ?_⟩)) hn)
      (fun _ _ hx => by cases ha.symm.trans hx) u.send hp (fun q hq => by cases ha.symm.trans hq)
    · exact List.mem_append_right _ List.mem_cons_self
    · exact List.mem_append_left _ (by simp [hb])
  | admitBidi v1 b p j c cs tr ht hb hc v2 hv hf =>
    obtain ⟨-, u, ha, hp, -⟩ := hs.take ht
    have hno : ¬ Opened id v1.hist := fun hx => u.peer (ho (ht.hist ▸ hx))
    obtain ⟨-, a2, -, -⟩ := Slot.openRecv_slots v1 id j
    obtain ⟨b0, -, b2, -, -⟩ := Slot.openSend_slots (v1.openRecv id j) id c p.pendingSendTerminal
    subst hv
    refine h.handOver ht hno ((Life.openRecv_grows v1 id j).trans (Life.openSend_grows _ id c _))
      ?_ rfl ((b2.trans a2).trans hp) (fun hx _ => hx) (fun s hx => ?_) hf
    · change ((v1.openRecv id j).openSend id c p.pendingSendTerminal).recv.isSome = true
      rw [b0]
      rfl
    · -- without a retained stop the entry is new; with one there is none
      cases hr : p.pendingSendTerminal with
      | none =>
        rw [hr] at hx
        cases hx
        rfl
      | some e =>
        rw [hr] at hx
        have hx' : v1.send = some s := by
          have : (v1.openRecv id j).send = some s := hx
          simpa only [Life.openRecv, Life.closeRecv, u.recv] using this
        cases u.send.symm.trans hx'
  | admitUni v1 b p j cs tr ht hb v2 hv hf =>
    obtain ⟨-, u, ha, hp, -⟩ := hs.take ht
    have hno : ¬ Opened id v1.hist := fun hx => u.peer (ho (ht.hist ▸ hx))
    obtain ⟨-, a2, -, -⟩ := Slot.openRecv_slots v1 id j
    subst hv
    refine h.handOver ht hno (Life.openRecv_grows v1 id j) rfl rfl (a2.trans hp)
      (fun _ hx => by cases hb.symm.trans hx) (fun s hx => ?_) hf
    have hx' : v1.send = some s := by
      have : (v1.openRecv id j).send = some s := hx
      simpa only [Life.openRecv, Life.closeRecv, u.recv] using this
    cases u.send.symm.trans hx'
  | clean tr hg park pend hn hpark hpend hx => exact h.clean hg hx
  | settle => exact h.settle hs
  | openBidi j c hl hb hc =>
    refine ofLocal hl (fun hx => hd hx hl) hs' (fun _ _ => ?_) (fun _ => rfl) fun s hx hfx => ?_
    · rw [(Slot.openSend_slots _ id c none).1]
      rfl
    · cases hx
      cases hfx
  | openUni c hl hb hc =>
    refine ofLocal hl (fun hx => hd hx hl) hs' (fun hx => ?_) (fun _ => rfl) fun s hx hfx => ?_
    · cases hb.symm.trans hx
    · cases hx
      cases hfx
  | undeliver j c cs tr hl hc v2 hv hf hdr hsd =>
    have hse : SendEnded id ((v2.submit cs tr).undeliver id (isBidi id)).hist := by
      refine .inr (.inl ⟨h3RequestCancelled, ?_⟩)
      unfold Life.undeliver
      dsimp only
      split
      · exact ((Life.closeRecv_suffix _ id).trans (Life.emit_suffix _ _)).subset List.mem_cons_self
      · exact List.mem_cons_self
    refine ofLocal hl (fun hx => hd hx hl) hs' (fun hb hn =>
      absurd (.inr ⟨h3RequestCancelled, ?_⟩) hn)
      (fun hn => absurd hse hn) (fun _ _ _ => hse)
    rw [hb]
    exact List.mem_cons_self
  | recvEnd j tr hr hg hsl =>
    have h1 : Ledger id { v with hist := tr } :=
      h.keep (hg.mono Life.routine_of_foreign) rfl rfl rfl (fun h => h) fun s hs hf => ⟨s, hs, hf⟩
    exact h1.endRecv (hs.keepHist (hg.mono slotFree_of_foreign) rfl fun h => h)
  | abandon j hr hdr =>
    exact (h.emit (.streamShutdown id .read h3NoError) trivial).endRecv
      (hs.emit (.streamShutdown id .read h3NoError) trivial)
  | applyResume rest hc =>
    exact (h.pop _ rest).keep (.refl _ _) rfl rfl rfl (fun h => h) fun s hs hf => ⟨s, hs, hf⟩
  | applySend _ _ _ rest c | applyFinish _ rest c => exact (h.pop _ rest).enqueue c _
  | applyReset code rest c hc hn => exact (h.pop _ rest).ensure c
  | applyStop code rest hc =>
    exact ((h.pop _ rest).emit (.streamShutdown id .read code) trivial).endRecv
      ((hs.pop hc).1.emit (.streamShutdown id .read code) trivial)
  | resetEntry s code tr hx hop ha hc =>
    exact h.sendMove hx ((Life.setCell_grows hc).trans
      (World.grows_resolved _ _ _ fun _ _ => trivial)) rfl rfl
  | capacity ans hx => exact h.emit (.streamCapacity id ans) trivial
  | sendErr s data fin err hx => exact h.emit (.streamSend id data fin (.error err)) trivial
  | flush _ _ _ _ hx | hold _ _ _ _ _ hx | offer _ _ _ _ _ _ hx | skipWrite _ _ _ _ _ hx =>
    exact h.sendMove hx (.one trivial) rfl rfl
  | flushFin s buf n t ops hx hop hh hr hop' hn hm =>
    have h1 : Ledger id (v.offered id buf.offered (buf.offerFin true) n { s with held := none }) :=
      h.sendMove hx (.one trivial) rfl rfl
    exact h1.completeFinish (hs.sendMove hx (.one (by simp)) rfl)
  | emptyHeld s buf hx => exact h.sendMove hx (.refl _ _) rfl rfl
  | emptyFin s buf t ops hx =>
    have h1 : Ledger id { v with send := some { s with held := none } } :=
      h.sendMove hx (.refl _ _) rfl rfl
    exact h1.completeFinish (hs.sendMove hx (.refl _ _) rfl)
  | loneFin s n t ops hx =>
    exact (h.emit (.streamSend id [] true (.ok n)) trivial).completeFinish
      (hs.emit (.streamSend id [] true (.ok n)) trivial)
  | accept s buf t p ops n hx =>
    exact h.sendMove hx (.cons trivial (.one trivial)) rfl rfl
  | sendEnd s e tr hx hop hc =>
    have hg : Grows (Event.routine id) v.hist (resolved s.sendOps (.error e) tr) :=
      (Life.setCell_grows hc).trans (World.grows_resolved _ _ _ fun _ _ => trivial)
    have h1 : Ledger id { v with
        send := some { s with terminal := some e, held := none, sendOps := [] }
        hist := resolved s.sendOps (.error e) tr } := h.sendMove hx hg rfl rfl
    have hs1 : Slot srv id { v with
        send := some { s with terminal := some e, held := none, sendOps := [] }
        hist := resolved s.sendOps (.error e) tr } := by
      refine hs.sendMove hx ?_ rfl
      exact (Slot.setCell_grows hc).trans (World.grows_resolved _ _ _ fun _ _ => by simp)
    exact h1.endSend hs1
  | resetTurn s code hx hp =>
    have h1 : Ledger id { v with send := some { s with pendingReset := none } } :=
      h.sendMove hx (.refl _ _) rfl rfl
    have hs1 : Slot srv id { v with send := some { s with pendingReset := none } } :=
      hs.sendMove hx (.refl _ _) rfl
    exact ((h1.emit (.turn id) trivial).emit (.streamShutdown id .write code) trivial).endSend
      ((hs1.emit (.turn id) trivial).emit (.streamShutdown id .write code) trivial)

omit h in
theorem init : Ledger id .fresh := by
  constructor <;> simp [Life.fresh, Discovered, Opened]

end Ledger

end QuicheH3
