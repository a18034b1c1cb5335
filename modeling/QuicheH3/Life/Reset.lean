/-
# A local reset

`apply_reset` publishes the terminal of a send half BEFORE the transport hears of it: the
operations are completed, the entry keeps the code in `pending_reset`, and the stream waits in
`runnable_send` for the turn that calls `stream_shutdown`.  Until then everything that looks at a
terminal could take the stream for one that has ended.

Nothing of the stream itself does (`reset_preempts`).  What does is a report of the stream as one
that no registry knows: a local stream has no `admit` entry, so when its receive half has ended a
readable report of its id announces a PEER stream, and the halves that are built for it replace the
entry with the waiting reset (`resetReplaced_is_lost`).
-/
import QuicheH3.Life.Undelivered
import QuicheH3.Registry.Cursors

namespace QuicheH3

open Lib

/-! ## 1. A stream that only sends -/

/-- No status cell of the stream is written, and of the commands of its send half only writes have
been applied. -/
structure Unended (id : Nat) (tr : List Event) : Prop where
  cells : ∀ c, CellOf c id tr → ¬ Published c tr
  writes : ∀ cmd, .applied cmd ∈ tr → cmd.sends id → ∃ buf t p, cmd = .send id buf t p

theorem Unended.anti {id : Nat} {tr tr' : List Event} (h : Unended id tr') (hs : tr ⊆ tr') :
    Unended id tr :=
  ⟨fun c hc hp => h.cells c (hc.mono hs) (hp.mono hs), fun cmd hm => h.writes cmd (hs hm)⟩

/-- An entry on which nothing but writes is queued. -/
structure Streaming (s : StreamSendState) : Prop where
  isOpen : s.Open
  unfinished : s.finished = false
  writes : ∀ op ∈ s.sendOps, ∃ buf t p, op = .write buf t p

theorem Streaming.new (c : Nat) : Streaming (.new c) :=
  ⟨⟨rfl, rfl⟩, rfl, fun _ h => by cases h⟩

/-- As long as the stream is unended its entry streams, and it is not registered as done. -/
structure Sending (id : Nat) (v : Life) : Prop where
  cell : ∀ s, v.send = some s → CellOf s.status id v.hist
  entry : Unended id v.hist → ∀ s, v.send = some s → Streaming s
  reg : Unended id v.hist → isBidi id = true → ∀ sd rd,
    v.admission = some (.registered sd rd) → sd = false

namespace Life

theorem closeRecv_keeps (v : Life) (id : Nat) :
    (v.closeRecv id).send = v.send ∧ (v.closeRecv id).admission = v.admission ∧
      (v.closeRecv id).runnable = v.runnable := by
  unfold closeRecv
  split <;> exact ⟨rfl, rfl, rfl⟩

theorem settle_keeps (v : Life) (id : Nat) : (v.settle id).send = v.send ∧
    ((v.settle id).admission = v.admission ∨ (v.settle id).admission = none) := by
  unfold settle
  split
  · obtain ⟨hs, ha, -⟩ := closeRecv_keeps { v with admission := none } id
    exact ⟨hs, .inr ha⟩
  · exact ⟨rfl, .inl rfl⟩

theorem reclaim_keeps (v : Life) (id : Nat) :
    ((v.reclaim id).send = v.send ∨ (v.reclaim id).send = none) ∧
    ((v.reclaim id).admission = v.admission ∨ (v.reclaim id).admission = none) := by
  unfold reclaim closeSend
  split
  · rename_i s hs
    split
    · simp [hs]
    · exact ⟨.inl rfl, .inl rfl⟩
  · exact ⟨.inl rfl, .inl rfl⟩

/-- What the end of the receive direction leaves of the send entry and of the registration. -/
theorem recvDone_keeps (v : Life) (id : Nat) :
    ((v.recvDone id).send = v.send ∨ (v.recvDone id).send = none) ∧
    ((v.recvDone id).admission = markRecv v.admission ∨ (v.recvDone id).admission = none) := by
  unfold recvDone
  dsimp only
  obtain ⟨h1, h2, -⟩ := closeRecv_keeps v id
  generalize hu : ({ (v.closeRecv id).emit (.recvDone id) with
    readable := false, resume := false
    admission := markRecv ((v.closeRecv id).emit (.recvDone id)).admission } : Life) = u
  have hs : u.send = v.send := by
    rw [← hu]
    exact h1
  have ha : u.admission = markRecv v.admission := by
    rw [← hu]
    exact congrArg markRecv h2
  obtain ⟨h3, h4⟩ := settle_keeps u id
  obtain ⟨h5, h6⟩ := reclaim_keeps (u.settle id) id
  rw [h3, hs] at h5
  refine ⟨h5, ?_⟩
  rcases h6 with h6 | h6
  · rw [h6, ← ha]
    exact h4
  · exact .inr h6

/-- The ends of the send direction write no other cell. -/
theorem sendDone_status (v : Life) (id : Nat) (s' : StreamSendState)
    (h : (v.sendDone id).send = some s') : ∃ s, v.send = some s ∧ s'.status = s.status := by
  unfold sendDone at h
  rw [(settle_keeps _ id).1] at h
  obtain ⟨s, hs, rfl⟩ := Option.map_eq_some_iff.mp h
  exact ⟨s, hs, rfl⟩

theorem completeFinish_status (v : Life) (id : Nat) (s' : StreamSendState)
    (h : (v.completeFinish id).send = some s') : ∃ s, v.send = some s ∧ s'.status = s.status := by
  unfold completeFinish popOp at h
  have h1 := (reclaim_keeps _ id).1.resolve_right fun hn => by
    rw [h] at hn
    cases hn
  obtain ⟨s1, hs1, hst⟩ := sendDone_status _ id s' (h1.symm.trans h)
  split at hs1
  · rename_i s hs
    split at hs1
    · cases hs1
      exact ⟨s, hs, hst⟩
    · exact ⟨s1, hs1, hst⟩
  · exact ⟨s1, hs1, hst⟩

end Life

namespace Sending

variable {srv : Bool} {id : Nat} {ok : Bytes → Nat → Prop} {v v' : Life} {s s' : StreamSendState}

/-- The entry stays or goes, and nothing is newly registered as done. -/
theorem keep (h : Sending id v) (hsub : v.hist ⊆ v'.hist)
    (hs : v'.send = v.send ∨ v'.send = none)
    (ha : ∀ sd rd, v'.admission = some (.registered sd rd) →
      ∃ rd', v.admission = some (.registered sd rd')) : Sending id v' := by
  have hentry : ∀ s, v'.send = some s → v.send = some s := by
    intro s hx
    rcases hs with hs | hs
    · exact hs.symm.trans hx
    · rw [hs] at hx
      cases hx
  refine ⟨fun s hx => (h.cell s (hentry s hx)).mono hsub,
    fun hu s hx => h.entry (hu.anti hsub) s (hentry s hx), fun hu hb sd rd hx => ?_⟩
  obtain ⟨rd', hx'⟩ := ha sd rd hx
  exact h.reg (hu.anti hsub) hb sd rd' hx'

/-- Only the history and what is neither entry nor registration changes. -/
theorem same (h : Sending id v) (hsub : v.hist ⊆ v'.hist) (hs : v'.send = v.send)
    (ha : v'.admission = v.admission) : Sending id v' :=
  h.keep hsub (.inl hs) fun _ rd hx => ⟨rd, ha ▸ hx⟩

/-- The entry moves on. -/
theorem put (h : Sending id v) (hsub : v.hist ⊆ v'.hist) (hs : v.send = some s)
    (hs' : v'.send = some s') (hst : s'.status = s.status) (hstr : Streaming s → Streaming s')
    (ha : v'.admission = v.admission) : Sending id v' := by
  refine ⟨fun x hx => ?_, fun hu x hx => ?_, fun hu hb sd rd hx =>
    h.reg (hu.anti hsub) hb sd rd (ha ▸ hx)⟩
  · cases hs'.symm.trans hx
    exact hst ▸ (h.cell s hs).mono hsub
  · cases hs'.symm.trans hx
    exact hstr (h.entry (hu.anti hsub) s hs)

/-- An entry is made, over a cell of the stream. -/
theorem made (h : Sending id v) (hsub : v.hist ⊆ v'.hist) {c : Nat} (hs : v'.send = some (.new c))
    (hc : .sendOpen id c ∈ v'.hist) (ha : v'.admission = v.admission) : Sending id v' := by
  refine ⟨fun x hx => ?_, fun hu x hx => ?_, fun hu hb sd rd hx =>
    h.reg (hu.anti hsub) hb sd rd (ha ▸ hx)⟩
  · cases hs.symm.trans hx
    exact .inr hc
  · cases hs.symm.trans hx
    exact .new c

/-- What ends the direction: nothing is claimed of an ended stream but where its entry writes. -/
theorem ended (hn : ¬ Unended id v'.hist)
    (hc : ∀ s, v'.send = some s → CellOf s.status id v'.hist) : Sending id v' :=
  ⟨hc, fun hu => absurd hu hn, fun hu => absurd hu hn⟩

/-- The same with the entry's own cell kept. -/
theorem endedOver (h : Sending id v) (hsub : v.hist ⊆ v'.hist) (hn : ¬ Unended id v'.hist)
    (hst : ∀ s', v'.send = some s' → ∃ s, v.send = some s ∧ s'.status = s.status) :
    Sending id v' := by
  refine ended hn fun s' hs' => ?_
  obtain ⟨s, hs, hst⟩ := hst s' hs'
  exact hst ▸ (h.cell s hs).mono hsub

/-- A command other than a write ends the stream. -/
theorem not_unended_of_applied {cmd : DriverCommand} {tr : List Event} (ha : .applied cmd ∈ tr)
    (hs : cmd.sends id) (hw : ∀ buf t p, cmd ≠ .send id buf t p) : ¬ Unended id tr := by
  intro hu
  obtain ⟨buf, t, p, hx⟩ := hu.writes cmd ha hs
  exact hw buf t p hx

theorem settle (h : Sending id v) : Sending id (v.settle id) := by
  obtain ⟨hs, ha⟩ := v.settle_keeps id
  refine h.keep (Life.settle_suffix v id).subset (.inl hs) fun sd rd hx => ⟨rd, ?_⟩
  rcases ha with ha | ha
  · exact ha ▸ hx
  · rw [ha] at hx
    cases hx

theorem recvDone (h : Sending id v) : Sending id (v.recvDone id) := by
  obtain ⟨hs, ha⟩ := v.recvDone_keeps id
  refine h.keep (Life.recvDone_suffix v id).subset hs fun sd rd hx => ?_
  rcases ha with ha | ha
  · rw [ha] at hx
    unfold markRecv at hx
    split at hx
    · rename_i sd' rd' hv
      cases hx
      exact ⟨rd', hv⟩
    · exact ⟨rd, hx⟩
  · rw [ha] at hx
    cases hx

theorem openSend (h : Sending id v) (c : Nat) : Sending id (v.openSend id c none) := by
  refine h.made (Life.openSend_suffix v id c none).subset (c := c) rfl List.mem_cons_self ?_
  unfold Life.openSend Life.closeSend Life.emit
  dsimp only
  split <;> rfl

theorem openRecv (h : Sending id v) (j : Nat) : Sending id (v.openRecv id j) := by
  refine h.same (Life.openRecv_suffix v id j).subset ?_ ?_ <;>
    (unfold Life.openRecv Life.closeRecv; split <;> rfl)

theorem closeSend (h : Sending id v) : Sending id (v.closeSend id) := by
  refine h.keep (Life.closeSend_suffix v id).subset ?_ fun sd rd hx => ⟨rd, ?_⟩
  · unfold Life.closeSend
    split
    · exact .inl rfl
    · exact .inr rfl
  · unfold Life.closeSend at hx
    split at hx <;> exact hx

theorem undeliver (h : Sending id v) (b : Bool) : Sending id (v.undeliver id b) := by
  have h1 : Sending id ((v.closeSend id).emit (.streamShutdown id .write h3RequestCancelled)) :=
    h.closeSend.same (List.subset_cons_self _ _) rfl rfl
  unfold Life.undeliver
  dsimp only
  split
  · refine h1.same ?_ ?_ ?_
    · exact ((Life.closeRecv_suffix _ id).trans (Life.emit_suffix _ _)).subset
    · unfold Life.closeRecv Life.emit
      dsimp only
      split <;> rfl
    · unfold Life.closeRecv Life.emit
      dsimp only
      split <;> rfl
  · exact h1

theorem take (h : Sending id v) {b : Bool} {p : PeerStream} (ht : Life.Take v b p v') :
    Sending id v' := by
  cases ht with
  | pending hq ha hr hp => exact h.same (List.Subset.refl _) rfl rfl
  | parked hq ha => exact h.keep (List.Subset.refl _) (.inl rfl) fun sd rd hx => by cases hx

theorem ensure (h : Sending id v) (c : Nat) : Sending id (v.ensure id c) := by
  unfold Life.ensure
  split
  · exact h
  · exact h.made (List.subset_cons_self _ _) rfl List.mem_cons_self rfl

/-- A write is queued, on an entry that is made when there is none. -/
theorem enqueue (h : Sending id v) (c : Nat) (buf : WriteBuf) (t : Nat) (p : Option Nat) :
    Sending id (v.enqueue id c (.write buf t p)) := by
  have hens := h.ensure c
  unfold Life.enqueue
  dsimp only
  split
  · exact hens
  · rename_i s hs
    split
    · exact hens.same (List.subset_cons_self _ _) rfl rfl
    · refine hens.put (List.Subset.refl _) hs rfl rfl (fun hst => ?_) rfl
      refine ⟨⟨hst.isOpen.terminal, hst.isOpen.pendingReset⟩, hst.unfinished, fun op hop => ?_⟩
      rcases List.mem_append.mp hop with hop | hop
      · exact hst.writes op hop
      · cases List.mem_singleton.mp hop
        exact ⟨buf, t, p, rfl⟩

/-- A published cell of the stream ends it. -/
theorem not_unended_of_set {c : Nat} {tr : List Event} {e : SendEnd} (hc : CellOf c id tr)
    (hp : .sendSet c e ∈ tr) : ¬ Unended id tr := fun hu => hu.cells c hc ⟨e, hp⟩

theorem not_unended_of_cell {c : Nat} {tr tr' : List Event} {e : SendEnd} (hc : CellOf c id tr)
    (hset : SetCell c e tr tr') : ¬ Unended id tr' := by
  intro hu
  refine hu.cells c (hc.mono hset.suffix.subset) ?_
  cases hset with
  | old hp => exact hp
  | new hp => exact ⟨e, List.mem_cons_self⟩

/-- The operations of a streaming entry change and it keeps streaming. -/
theorem streaming_ops {held : Option WriteBuf} {ops : List SendOp} (h : Streaming s)
    (ho : ∀ op ∈ ops, ∃ buf t p, op = .write buf t p) :
    Streaming { s with sendOps := ops, held := held } :=
  ⟨⟨h.isOpen.terminal, h.isOpen.pendingReset⟩, h.unfinished, ho⟩

/-- A `Finish` is not among the operations. -/
theorem not_finish (h : Streaming s) {t : Nat} {ops : List SendOp}
    (ho : s.sendOps = .finish t :: ops) : False := by
  obtain ⟨buf, t', p, hx⟩ := h.writes (.finish t) (ho ▸ List.mem_cons_self)
  cases hx

/-- **Every move of a stream keeps this.** -/
theorem move (h : Sending id v) (hm : Life.Move srv id ok v v') : Sending id v' := by
  have hsub := hm.suffix.subset
  cases hm with
  | mergeParked ans p hs ha => exact h.keep hsub (.inl rfl) fun sd rd hx => by cases hx
  | repark v1 b p ht =>
    exact (h.take ht).keep (List.Subset.refl _) (.inl rfl) fun sd rd hx => by cases hx
  | tear v1 b p ht =>
    exact (h.take ht).same (fun e he => List.mem_append_right _ (List.mem_cons_of_mem _ he)) rfl rfl
  | admitBidi v1 b p j c cs tr ht hb hc v2 hv hf =>
    have h1 : Sending id (v1.openRecv id j) := (h.take ht).openRecv j
    have hgrow : v2.hist ⊆ ((v2.submit cs tr).emit (.handOver id)).hist :=
      (hf.grows.suffix.trans (List.suffix_cons _ _)).subset
    cases hp : p.pendingSendTerminal with
    | some e =>
      -- the status cell is written when the half is made
      rw [hp] at hv
      have hset : .sendSet c e ∈ v2.hist := by
        rw [hv]
        exact List.mem_cons_self
      have hcell : CellOf c id v2.hist := by
        rw [hv]
        exact .inl (List.mem_cons_of_mem _ List.mem_cons_self)
      refine ended (fun hu => not_unended_of_set hcell hset (hu.anti hgrow)) fun s hs => ?_
      refine (h1.cell s ?_).mono ?_
      · rw [← hs, hv]
        rfl
      · refine List.Subset.trans ?_ hgrow
        rw [hv]
        exact fun e he => List.mem_cons_of_mem _ (List.mem_cons_of_mem _ he)
    | none =>
      rw [hp] at hv
      have h2 := h1.openSend c
      have hsend : v2.send = some (.new c) := by rw [hv]; rfl
      have hopen : .sendOpen id c ∈ v2.hist := by rw [hv]; exact List.mem_cons_self
      refine ⟨fun s hs => ?_, fun _ s hs => ?_, fun _ _ sd rd ha => ?_⟩
      · cases hsend.symm.trans hs
        exact .inr (hgrow hopen)
      · cases hsend.symm.trans hs
        exact .new c
      · have ha' : v2.admission = some (.registered false false) := by rw [hv]; rfl
        cases ha'.symm.trans ha
        rfl
  | admitUni v1 b p j cs tr ht hb v2 hv hf =>
    have h1 : Sending id (v1.openRecv id j) := (h.take ht).openRecv j
    have h2 : Sending id v2 := by
      rw [hv]
      exact ⟨h1.cell, h1.entry, fun _ hb' => absurd (hb.symm.trans hb') (by simp)⟩
    exact h2.same (hf.grows.suffix.trans (List.suffix_cons _ _)).subset rfl rfl
  | clean tr hg park pend hn hpark hpend hs =>
    refine h.keep hsub (.inl rfl) fun sd rd hx => ⟨rd, ?_⟩
    dsimp only at hx
    split at hx
    · cases hx
    · exact hx
  | settle => exact h.settle
  | openBidi j c hl hb hc =>
    have h1 : Sending id (v.emit (.streamPriority id true)) :=
      h.same (List.subset_cons_self _ _) rfl rfl
    exact (h1.openRecv j).openSend c
  | openUni c hl hb hc =>
    have h1 : Sending id (v.emit (.streamPriority id true)) :=
      h.same (List.subset_cons_self _ _) rfl rfl
    exact h1.openSend c
  | undeliver j c cs tr hl hc v2 hv hf hd hs =>
    have h1 : Sending id (v.emit (.streamPriority id true)) :=
      h.same (List.subset_cons_self _ _) rfl rfl
    have h2 : Sending id v2 := by
      rw [hv]
      split
      · exact (h1.openRecv j).openSend c
      · exact h1.openSend c
    have h3 : Sending id (v2.submit cs tr) := h2.same hf.grows.suffix.subset rfl rfl
    exact h3.undeliver _
  | recvEnd j tr hr hg hs =>
    have h1 : Sending id { v with hist := tr } := h.same hg.suffix.subset rfl rfl
    exact h1.recvDone
  | abandon j hr hd =>
    have h1 : Sending id (v.emit (.streamShutdown id .read h3NoError)) :=
      h.same (List.subset_cons_self _ _) rfl rfl
    exact h1.recvDone
  | applySend buf t p rest c hc hn =>
    have h1 : Sending id (v.pop (.send id buf t p) rest) :=
      h.same (List.subset_cons_self _ _) rfl rfl
    exact h1.enqueue c buf t p
  | applyFinish t rest c hc hn =>
    have h1 : Sending id (v.pop (.finish id t) rest) := h.same (List.subset_cons_self _ _) rfl rfl
    have happ : .applied (.finish id t) ∈ ((v.pop (.finish id t) rest).enqueue id c
      (.finish t)).hist :=
      (Life.enqueue_suffix _ id c _).subset List.mem_cons_self
    refine (h1.ensure c).endedOver (Life.ensure_suffix_enqueue _ id c _).subset
      (not_unended_of_applied happ rfl nofun) fun s' hs' => ?_
    unfold Life.enqueue at hs'
    dsimp only at hs'
    split at hs'
    · exact ⟨s', hs', rfl⟩
    · rename_i s hs
      split at hs'
      · exact ⟨s', hs', rfl⟩
      · cases hs'
        exact ⟨s, hs, rfl⟩
  | applyReset code rest c hc hn =>
    have h1 : Sending id (v.pop (.reset id code) rest) := h.same (List.subset_cons_self _ _) rfl rfl
    exact h1.ensure c
  | applyStop code rest hc =>
    have h1 :
        Sending id ((v.pop (.stopSending id code) rest).emit (.streamShutdown id .read code)) :=
      h.same (fun e he => List.mem_cons_of_mem _ (List.mem_cons_of_mem _ he)) rfl rfl
    exact h1.recvDone
  | resetEntry s code tr hs ho ha hc =>
    refine h.endedOver hsub (not_unended_of_applied (hsub ha) rfl nofun) fun s' hs' => ?_
    cases hs'
    exact ⟨s, hs, rfl⟩
  | flush _ _ _ _ hs | emptyHeld _ _ hs =>
    exact h.put hsub hs rfl rfl (fun hst => streaming_ops hst hst.writes) rfl
  | flushFin s _ _ _ _ hs _ _ _ hop | emptyFin s _ _ _ hs _ _ _ hop =>
    refine h.endedOver hsub (fun hu => not_finish (h.entry (hu.anti hsub) s hs) hop) fun s' hs' =>
      ?_
    obtain ⟨s1, hs1, hst⟩ := Life.completeFinish_status _ id s' hs'
    cases hs1
    exact ⟨s, hs, hst⟩
  | loneFin s n t ops hs ho hh hop hn =>
    exact h.endedOver hsub (fun hu => not_finish (h.entry (hu.anti hsub) s hs) hop)
      fun s' hs' => Life.completeFinish_status (v.emit (.streamSend id [] true (.ok n))) id s' hs'
  | hold _ _ _ _ _ hs _ _ hop | accept _ _ _ _ _ _ hs _ _ hop | skipWrite _ _ _ _ _ hs _ _ hop =>
    refine h.put hsub hs rfl rfl (fun hst => streaming_ops hst fun op hx => ?_) rfl
    exact hst.writes op (hop ▸ List.mem_cons_of_mem _ hx)
  | offer s buf t p ops n hs ho hh hop hr hn hm =>
    refine h.put hsub hs rfl rfl (fun hst => streaming_ops hst fun op hx => ?_) rfl
    rcases List.mem_cons.mp hx with rfl | hx
    · exact ⟨_, _, _, rfl⟩
    · exact hst.writes op (hop ▸ List.mem_cons_of_mem _ hx)
  | sendEnd s e tr hs ho hc =>
    have hgrow : tr ⊆ (v.sendEnd id s e tr).hist := by
      refine List.IsSuffix.subset (List.IsSuffix.trans ?_ (Life.sendDone_suffix _ id))
      exact Life.suffix_resolved s.sendOps (.error e) tr
    refine h.endedOver hsub (fun hu => not_unended_of_cell (h.cell s hs) hc (hu.anti hgrow))
      fun s' hs' => ?_
    obtain ⟨s1, hs1, hst⟩ := Life.sendDone_status _ id s' hs'
    cases hs1
    exact ⟨s, hs, hst⟩
  | resetTurn s code hs hp =>
    refine h.endedOver hsub (fun hu => ?_) fun s' hs' => ?_
    · have hopen := (h.entry (hu.anti hsub) s hs).isOpen
      exact absurd (hopen.pendingReset.symm.trans hp) nofun
    · obtain ⟨s1, hs1, hst⟩ := Life.sendDone_status _ id s' hs'
      cases hs1
      exact ⟨s, hs, hst⟩
  | _ => exact h.same hsub rfl rfl

theorem init (id : Nat) : Sending id .fresh :=
  ⟨nofun, fun _ => nofun, fun _ _ => nofun⟩

end Sending

/-! ## 2. From the reset to its turn -/

/-- `stream_shutdown` is called for the send direction of stream `id`. -/
def Event.shutsWrite (id : Nat) : Event → Prop
  | .streamShutdown i .write _ => i = id
  | _ => False

/-- Nothing is offered on stream `id` and its send direction is not shut down. -/
structure Event.Calm (id : Nat) (e : Event) : Prop where
  offers : ¬ e.offersOn id
  shuts : ¬ e.shutsWrite id

/-- The stream has no turn either. -/
structure Event.Spares (id : Nat) (e : Event) : Prop extends e.Calm id where
  turn : e ≠ .turn id

theorem spares_of_foreign {id : Nat} {tr : List Event} (e : Event) (h : e.foreign id tr) :
    e.Spares id := by
  cases e with
  | streamSend i data fin ans => exact ⟨⟨h, not_false⟩, nofun⟩
  | streamShutdown i d code =>
    cases d with
    | read => exact ⟨⟨not_false, not_false⟩, nofun⟩
    | write => exact ⟨⟨not_false, h⟩, nofun⟩
  | turn i => exact ⟨⟨not_false, not_false⟩, fun hx => h (by cases hx; rfl)⟩
  | _ => exact ⟨⟨not_false, not_false⟩, nofun⟩

theorem spares_of_isFront {id : Nat} (e : Event) (h : e.isFront) : e.Spares id := by
  cases e with
  | submit _ | sendRefused _ _ | openRefused _ | recvDropped _ | sendDropped _ =>
    exact ⟨⟨not_false, not_false⟩, nofun⟩
  | _ => exact h.elim

theorem spares_of_isEnd {id : Nat} (e : Event) (h : e.isEnd id) : e.Spares id := by
  cases e with
  | recvClose _ _ | sendClose _ _ | recvDone _ | sendDone _ | resolve _ _ | cancel _ =>
    exact ⟨⟨not_false, not_false⟩, nofun⟩
  | _ => exact h.elim

/-- The entry of a stream that was reset. -/
structure ResetEntry (code c : Nat) (s : StreamSendState) : Prop where
  status : s.status = c
  terminal : s.terminal = some (.reset code)
  ops : s.sendOps = []
  held : s.held = none

/-- Where the reset of the stream stands; the history was `mark` when it was applied. -/
inductive ResetPhase (id code c : Nat) (mark : List Event) (v : Life) : Prop
  | waits (s : StreamSendState) (hs : v.send = some s) (he : ResetEntry code c s)
      (hp : s.pendingReset = some code) (hf : s.finished = false) (hr : v.runnable = true)
      (ha : isBidi id = true → ∀ sd rd, v.admission = some (.registered sd rd) → sd = false)
      (hg : Grows (Event.Spares id) mark v.hist)
  | served (mid : List Event)
      (he : ∀ s, v.send = some s → ResetEntry code c s ∧ s.pendingReset = none)
      (hm : Grows (Event.Spares id) mark mid)
      (hg : Grows (Event.Calm id) (.streamShutdown id .write code :: .turn id :: mid) v.hist)

namespace ResetPhase

variable {srv : Bool} {id code c : Nat} {ok : Bytes → Nat → Prop} {mark : List Event} {v v' : Life}

/-- A stream that is not registered as done in its send direction, and has one, is not done. -/
theorem not_allDone {a : Option AdmitState}
    (ha : isBidi id = true → ∀ sd rd, a = some (.registered sd rd) → sd = false)
    (hu : isBidi id = false → ∀ sd rd, a ≠ some (.registered sd rd)) :
    allDone (isBidi id) a = false := by
  cases a with
  | none => rfl
  | some a =>
    cases a with
    | parked p => rfl
    | registered sd rd =>
      cases hb : isBidi id with
      | true => simp [allDone, ha hb sd rd rfl]
      | false => exact absurd rfl (hu hb sd rd)

theorem markRecv_registered {a : Option AdmitState} {sd rd : Bool}
    (h : markRecv a = some (.registered sd rd)) : ∃ rd', a = some (.registered sd rd') := by
  unfold markRecv at h
  split at h
  · rename_i sd' rd'
    cases h
    exact ⟨rd', rfl⟩
  · exact ⟨rd, h⟩

/-- The end of the receive direction of a stream that still sends. -/
theorem recvDone_eq (hd : allDone (isBidi id) (markRecv v.admission) = false)
    (hf : ∀ s, v.send = some s → s.finished = false) :
    v.recvDone id = { (v.closeRecv id).emit (.recvDone id) with
      readable := false, resume := false, admission := markRecv v.admission } := by
  obtain ⟨hs, ha, -⟩ := v.closeRecv_keeps id
  have hsettle : Life.settle { (v.closeRecv id).emit (.recvDone id) with
      readable := false, resume := false, admission := markRecv v.admission } id =
      { (v.closeRecv id).emit (.recvDone id) with
        readable := false, resume := false, admission := markRecv v.admission } := by
    unfold Life.settle
    rw [if_neg]
    simp [hd]
  unfold Life.recvDone
  dsimp only
  rw [show ((v.closeRecv id).emit (.recvDone id)).admission = v.admission from ha, hsettle]
  unfold Life.reclaim
  split
  · rename_i s hx
    have hx' : v.send = some s := hs.symm.trans hx
    rw [if_neg]
    simp [hf s hx']
  · rfl

/-- An event that revives the stream is none of the new ones. -/
theorem not_revives (hrev : ∀ evs, v'.hist = evs ++ v.hist → ∀ e ∈ evs, ¬ e.revives id) (e : Event)
    (hs : e :: v.hist <:+ v'.hist) : ¬ e.revives id := by
  obtain ⟨more, hmore⟩ := hs
  exact hrev (more ++ [e]) (by rw [← hmore]; simp) e (by simp)

/-- Only the history grows, and what is neither entry nor registration nor send cursor changes. -/
theorem keep (h : ResetPhase id code c mark v) (hs : v'.send = v.send)
    (ha : ∀ sd rd, v'.admission = some (.registered sd rd) →
      ∃ rd', v.admission = some (.registered sd rd'))
    (hr : v.runnable = true → (∃ s, v.send = some s ∧ s.pendingReset ≠ none) → v'.runnable = true)
    (hg : Grows (Event.Spares id) v.hist v'.hist) : ResetPhase id code c mark v' := by
  cases h with
  | waits s hsend he hp hf hrun hreg hgr =>
    refine .waits s (hs.trans hsend) he hp hf (hr hrun ⟨s, hsend, ?_⟩) (fun hb sd rd hx => ?_)
      (hgr.trans hg)
    · simp [hp]
    · obtain ⟨rd', hx'⟩ := ha sd rd hx
      exact hreg hb sd rd' hx'
  | served mid he hm hgr =>
    exact .served mid (fun s hx => he s (hs.symm.trans hx)) hm
      (hgr.trans (hg.mono fun e h => h.toCalm))

/-- Only the history grows. -/
theorem hist (h : ResetPhase id code c mark v) (hs : v'.send = v.send)
    (ha : v'.admission = v.admission) (hr : v'.runnable = v.runnable)
    (hg : Grows (Event.Spares id) v.hist v'.hist) : ResetPhase id code c mark v' :=
  h.keep hs (fun _ rd hx => ⟨rd, ha ▸ hx⟩) (fun hx _ => hr.trans hx) hg

theorem spares_read (code : Nat) : (Event.streamShutdown id .read code).Spares id :=
  ⟨⟨not_false, not_false⟩, nofun⟩

/-- The end of the receive direction leaves the reset alone. -/
theorem recvDone (h : ResetPhase id code c mark v)
    (hu : isBidi id = false → ∀ sd rd, v.admission ≠ some (.registered sd rd)) :
    ResetPhase id code c mark (v.recvDone id) := by
  have hgrows := (v.recvDone_grows id).mono spares_of_isEnd
  obtain ⟨hs, ha, hr⟩ := v.closeRecv_keeps id
  cases h with
  | waits s hsend he hp hf hrun hreg hgr =>
    have hd : allDone (isBidi id) (markRecv v.admission) = false := by
      refine not_allDone (fun hb sd rd hx => ?_) fun hb sd rd hx => ?_
      · obtain ⟨rd', hx'⟩ := markRecv_registered hx
        exact hreg hb sd rd' hx'
      · obtain ⟨rd', hx'⟩ := markRecv_registered hx
        exact hu hb sd rd' hx'
    rw [recvDone_eq hd fun s' hs' => by cases hsend.symm.trans hs'; exact hf] at hgrows ⊢
    refine .waits s (hs.trans hsend) he hp hf (hr.trans hrun) (fun hb sd rd hx => ?_)
      (hgr.trans hgrows)
    obtain ⟨rd', hx'⟩ := markRecv_registered hx
    exact hreg hb sd rd' hx'
  | served mid he hm hgr =>
    refine .served mid (fun s hx => he s ?_) hm (hgr.trans (hgrows.mono fun _ h => h.toCalm))
    rcases (v.recvDone_keeps id).1 with hk | hk
    · exact hk.symm.trans hx
    · rw [hk] at hx
      cases hx

/-- A stream with a half is not taken from an admission queue. -/
theorem not_take (hslot : Slot srv id v) (hk : Known id v.hist) {b : Bool} {p : PeerStream}
    (ht : Life.Take v b p v') : False := by
  cases ht with
  | pending hq ha hr hp =>
    rw [hslot.pend_none_of_known hk] at hp
    cases hp
  | parked hq ha =>
    have hn := hslot.not_parked_of_known hk
    rw [ha] at hn
    cases hn

/-- **Every move keeps the reset on its way**, if nothing revives the stream. -/
theorem move (h : ResetPhase id code c mark v) (hslot : Slot srv id v) (hk : Known id v.hist)
    (hdir : isBidi id = true ∨ serverInitiated id = srv) (hm : Life.Move srv id ok v v')
    (hrev : ∀ evs, v'.hist = evs ++ v.hist → ∀ e ∈ evs, ¬ e.revives id) :
    ResetPhase id code c mark v' := by
  have hu : isBidi id = false → ∀ sd rd, v.admission ≠ some (.registered sd rd) := by
    intro hb sd rd hx
    exact (hslot.reg sd rd hx).1 (hdir.resolve_left (by simp [hb]))
  have hopen : ∀ s, v.send = some s → ¬ s.Open := by
    intro s hs ho
    cases h with
    | waits s' hs' he =>
      cases hs.symm.trans hs'
      exact absurd (ho.terminal.symm.trans he.terminal) nofun
    | served mid he => exact absurd (ho.terminal.symm.trans (he s hs).1.terminal) nofun
  have hspare (e : Event) (he : e.Spares id) (tr : List Event) :
      Grows (Event.Spares id) tr (e :: tr) := .one he
  cases hm with
  | other tr hg => exact h.hist rfl rfl rfl (hg.mono spares_of_foreign)
  | front cs tr hf => exact h.hist rfl rfl rfl (hf.grows.mono spares_of_isFront)
  | cursor r s n hr hs hn hd =>
    refine h.keep rfl (fun _ rd hx => ⟨rd, hx⟩) (fun hrun hp => ?_) (.refl _ _)
    obtain ⟨x, hx, hpx⟩ := hp
    by_contra hn
    exact hpx (hd hrun (by simpa using hn) x hx)
  | turn hn =>
    cases h with
    | waits s hs he hp => exact absurd ((hn s hs).symm.trans hp) nofun
    | served mid he hm hg =>
      exact .served mid he hm (hg.cons ⟨not_false, not_false⟩)
  | readable hr ha hp =>
    exact absurd rfl (not_revives hrev (.readableNext id false) List.suffix_rfl)
  | writable ans hs hb ha hp =>
    exact absurd rfl (not_revives hrev (.writableNext id false) (List.suffix_cons _ _))
  | mergePending ans p hs hp =>
    rw [hslot.pend_none_of_known hk] at hp
    cases hp
  | mergeParked ans p hs ha =>
    have hn := hslot.not_parked_of_known hk
    rw [ha] at hn
    cases hn
  | repark _ _ _ ht | tear _ _ _ ht | admitBidi _ _ _ _ _ _ _ ht | admitUni _ _ _ _ _ _ ht =>
    exact (not_take hslot hk ht).elim
  | clean tr hg park pend hn hpark hpend hs =>
    have hpa : park = false := by
      by_contra hx
      obtain ⟨-, p, hp⟩ := hpark.mp (by simpa using hx)
      have hn := hslot.not_parked_of_known hk
      rw [hp] at hn
      cases hn
    have hpe : pend = false := by
      by_contra hx
      have hp := (hpend.mp (by simpa using hx)).2
      rw [hslot.pend_none_of_known hk] at hp
      cases hp
    refine h.hist rfl ?_ rfl ((hn hpa hpe).mono spares_of_foreign)
    simp [hpa]
  | settle =>
    cases h with
    | waits s hs he hp hf hr ha hg =>
      have hv : v.settle id = v := if_neg (by simp [not_allDone ha hu])
      rw [hv]
      exact .waits s hs he hp hf hr ha hg
    | served mid he hm hg =>
      refine .served mid (fun s hx => he s ?_) hm
        (hg.trans ((v.settle_grows id).mono fun e h => (spares_of_isEnd e h).toCalm))
      exact (v.settle_keeps id).1.symm.trans hx
  | openBidi j c hl hb hc =>
    refine absurd rfl (not_revives hrev (.streamPriority id true) ?_)
    exact (Life.openRecv_suffix (v.emit (.streamPriority id true)) id j).trans
      (Life.openSend_suffix _ id c none)
  | openUni c hl hb hc =>
    refine absurd rfl (not_revives hrev (.streamPriority id true) ?_)
    exact Life.openSend_suffix (v.emit (.streamPriority id true)) id c none
  | undeliver j c cs tr hl hc v2 hv hf hd hs =>
    refine absurd rfl (not_revives hrev (.streamPriority id true) ?_)
    have h1 : .streamPriority id true :: v.hist <:+ v2.hist := by
      rw [hv]
      split
      · exact (Life.openRecv_suffix (v.emit (.streamPriority id true)) id j).trans
          (Life.openSend_suffix _ id c none)
      · exact Life.openSend_suffix (v.emit (.streamPriority id true)) id c none
    exact h1.trans (hf.grows.suffix.trans (Life.undeliver_suffix (v2.submit cs tr) id _))
  | recvEnd j tr hr hg hs =>
    have h1 : ResetPhase id code c mark { v with hist := tr } :=
      h.hist rfl rfl rfl (hg.mono spares_of_foreign)
    exact h1.recvDone hu
  | abandon j hr hd =>
    have h1 : ResetPhase id code c mark (v.emit (.streamShutdown id .read h3NoError)) :=
      h.hist rfl rfl rfl (hspare _ (spares_read _) _)
    exact h1.recvDone hu
  | applyResume rest hc =>
    exact h.hist rfl rfl rfl (hspare (.applied (.recvResume id)) ⟨⟨not_false, not_false⟩, nofun⟩ _)
  | applySend buf t p rest c hc hn =>
    exact absurd rfl (not_revives hrev (.applied (.send id buf t p))
      (Life.enqueue_suffix (v.pop _ rest) id c _))
  | applyFinish t rest c hc hn =>
    exact absurd rfl (not_revives hrev (.applied (.finish id t))
      (Life.enqueue_suffix (v.pop _ rest) id c _))
  | applyReset code rest c hc hn =>
    exact absurd rfl (not_revives hrev (.applied (.reset id code))
      (Life.ensure_suffix (v.pop _ rest) id c))
  | applyStop stop rest hc =>
    have h1 : ResetPhase id code c mark
        ((v.pop (.stopSending id stop) rest).emit (.streamShutdown id .read stop)) := by
      refine h.hist rfl rfl rfl (.cons (spares_read _) ?_)
      exact hspare (.applied (.stopSending id stop)) ⟨⟨not_false, not_false⟩, nofun⟩ _
    exact h1.recvDone hu
  | resetEntry s _ _ hs ho | sendErr s _ _ _ hs ho | flush s _ _ _ hs ho
  | flushFin s _ _ _ _ hs ho | emptyHeld s _ hs ho | emptyFin s _ _ _ hs ho
  | loneFin s _ _ _ hs ho | hold s _ _ _ _ hs ho | offer s _ _ _ _ _ hs ho
  | accept s _ _ _ _ _ hs ho | skipWrite s _ _ _ _ hs ho | sendEnd s _ _ hs ho =>
    exact absurd ho (hopen s hs)
  | capacity ans hs =>
    exact h.hist rfl rfl rfl (hspare (.streamCapacity id ans) ⟨⟨not_false, not_false⟩, nofun⟩ _)
  | resetTurn s code' hs hp =>
    cases h with
    | waits s' hs' he hp' hf hr ha hg =>
      cases hs.symm.trans hs'
      cases hp.symm.trans hp'
      refine .served v.hist (fun x hx => ?_) hg
        ((Life.sendDone_grows _ id).mono fun e h => (spares_of_isEnd e h).toCalm)
      unfold Life.sendDone at hx
      rw [(Life.settle_keeps _ id).1] at hx
      cases hx
      exact ⟨⟨he.status, he.terminal, he.ops, he.held⟩, rfl⟩
    | served mid he => exact absurd ((he s hs).2.symm.trans hp) nofun
  | _ => exact h.hist rfl rfl rfl (.refl _ _)

end ResetPhase

/-! ## 3. Every run -/

instance (id : Nat) : (cmd : DriverCommand) → Decidable (cmd.sends id)
  | .send i _ _ _ | .finish i _ | .reset i _ => inferInstanceAs (Decidable (i = id))
  | .recvResume _ | .acceptBidiResume | .acceptUniResume | .stopSending _ _ | .close _ _
  | .connectionDropped | .openBidi _ | .openUni _ => inferInstanceAs (Decidable False)

/-- The commands of the send half of stream `id` that were applied, newest first. -/
def appliedSends (id : Nat) (tr : List Event) : List DriverCommand :=
  tr.filterMap fun e =>
    match e with
    | .applied cmd => if cmd.sends id then some cmd else none
    | _ => none

/-- The commands of the send half were writes and then this reset. -/
def WritesThenReset (id code : Nat) (tr : List Event) : Prop :=
  ∃ writes, appliedSends id tr = .reset id code :: writes ∧
    ∀ cmd ∈ writes, ∃ buf t p, cmd = .send id buf t p

theorem mem_appliedSends {id : Nat} {tr : List Event} {cmd : DriverCommand} :
    cmd ∈ appliedSends id tr ↔ .applied cmd ∈ tr ∧ cmd.sends id := by
  unfold appliedSends
  rw [List.mem_filterMap]
  constructor
  · rintro ⟨e, he, hx⟩
    split at hx
    · rename_i cmd'
      split at hx
      · cases hx
        exact ⟨he, by assumption⟩
      · cases hx
    · cases hx
  · rintro ⟨he, hs⟩
    exact ⟨_, he, by simp [hs]⟩

/-- The reset is the last command, and only writes came before it. -/
theorem WritesThenReset.split {id code : Nat} {post pre : List Event}
    (h : WritesThenReset id code (post ++ .applied (.reset id code) :: pre)) :
    (∀ cmd, .applied cmd ∈ post → ¬ cmd.sends id) ∧
    ∀ cmd, .applied cmd ∈ pre → cmd.sends id → ∃ buf t p, cmd = .send id buf t p := by
  obtain ⟨writes, heq, hw⟩ := h
  have hsplit : appliedSends id (post ++ .applied (.reset id code) :: pre) =
      appliedSends id post ++ .reset id code :: appliedSends id pre := by
    have hself : (DriverCommand.reset id code).sends id := rfl
    simp [appliedSends, hself]
  rw [hsplit] at heq
  have hpost : appliedSends id post = [] := by
    cases hx : appliedSends id post with
    | nil => rfl
    | cons x xs =>
      rw [hx] at heq
      cases heq
      obtain ⟨buf, t, p, hn⟩ := hw (.reset id code) (by simp)
      cases hn
  rw [hpost] at heq
  cases heq
  refine ⟨fun cmd hm hs => ?_, fun cmd hm hs => hw cmd (mem_appliedSends.mpr ⟨hm, hs⟩)⟩
  have hmem := mem_appliedSends.mpr ⟨hm, hs⟩
  rw [hpost] at hmem
  cases hmem

namespace World

variable {σ : Type} {T : QuicConn σ}

/-- Where a reset stands in the state `w`, when `new` has happened since it was applied: it waits
for its turn, or the turn has called `stream_shutdown`. -/
inductive ResetStands (id code c : Nat) (new : List Event) (w : World σ) : Prop
  | waits (s : StreamSendState) (entry : w.reg.send.lookup id = some s)
      (reset : ResetEntry code c s) (pending : s.pendingReset = some code)
      (runnable : id ∈ w.reg.runnableSend.queue) (spares : ∀ e ∈ new, e.Spares id)
  | served (post pre : List Event)
      (split : new = post ++ .streamShutdown id .write code :: .turn id :: pre)
      (before : ∀ e ∈ pre, e.Spares id) (after : ∀ e ∈ post, e.Calm id)
      (entry : ∀ s, w.reg.send.lookup id = some s → ResetEntry code c s ∧ s.pendingReset = none)

/-- What a reset does that is applied in `w0` while the entry of the stream is `s`; `new` has
happened when the state is `w`. -/
structure Preempts (T : QuicConn σ) (id code : Nat) (w0 : World σ) (s : StreamSendState)
    (new : List Event) (w : World σ) : Prop where
  /-- Every operation of the entry is completed with the reset, before anything else happens. -/
  atOnce : ∃ tr, (w0.applyCommand T (.reset id code)).trace =
    resolved s.sendOps (.error (.reset code)) (.sendSet s.status (.reset code) :: tr)
  stands : ResetStands id code s.status new w
  /-- The status cell keeps the reset. -/
  cell : (w.sh.sendHalves s.status).status = some (.reset code)
  /-- A report that the peer has stopped the stream changes nothing but what the probe itself
  does to the transport and to the history. -/
  stopped : (w.reg.send.lookup id).isSome →
    ∀ stop, (w.streamCapacity T id).1 = .error (.streamStopped stop) →
      w.writableRegistered T id = (w.streamCapacity T id).2

/-- The entry a reset is applied to: the one the stream has, or a new one. -/
def EntryFor (w : World σ) (id : Nat) (s : StreamSendState) : Prop :=
  w.reg.send.lookup id = some s ∨ w.reg.send.lookup id = none ∧ s = .new w.sh.nextSend

theorem ensureSend_entry (w : World σ) (id : Nat) : ∃ s, w.EntryFor id s ∧
    (w.ensureSend id).reg.send.lookup id = some s := by
  unfold ensureSend EntryFor
  split
  · rename_i s hs
    exact ⟨s, .inl hs, hs⟩
  · rename_i hs
    refine ⟨.new w.sh.nextSend, .inr ⟨hs, rfl⟩, ?_⟩
    simp [insertSend, emit]

/-- The state a reset is applied in: the entry streams, and its cell is empty. -/
theorem streaming_of_unended {w : World σ} {id : Nat} {s : StreamSendState} (ho : Origin w)
    (hsend : Sending id (w.life id)) (hu : Unended id w.trace) (hs : w.EntryFor id s) :
    Streaming s ∧ ¬ QuicheH3.Published s.status w.trace := by
  rcases hs with hs | ⟨-, rfl⟩
  · exact ⟨hsend.entry hu s hs, hu.cells s.status (hsend.cell s hs)⟩
  · exact ⟨.new _, ho.freshCell.2⟩

/-- What happens after the reset was applied: `P` bars what revives the stream. -/
def Barred (srv : Bool) (id : Nat) (mark : List Event) (e : Event) (pre : List Event) : Prop :=
  FreshFor srv id e pre ∧ (mark.length ≤ pre.length → ¬ e.revives id)

/-- A barred history goes on. -/
theorem Barred.resetPhase {srv : Bool} {id code c : Nat} {mark : List Event} {v v' : Life}
    (hdir : isBidi id = true ∨ serverInitiated id = srv)
    (hm : Life.Moves srv id (T.Accepts id) v v') (hP : Always (Barred srv id mark) v'.hist)
    (hslot : Slot srv id v) (hk : Known id v.hist) (hmark : mark <:+ v.hist)
    (h : ResetPhase id code c mark v) : ResetPhase id code c mark v' := by
  refine (Life.Moves.induct (P := Barred srv id mark)
    (I := fun v => Slot srv id v ∧ Known id v.hist ∧ mark <:+ v.hist ∧
      ResetPhase id code c mark v) (fun v v' hm hP hI => ?_) hm hP ⟨hslot, hk, hmark, h⟩).2.2.2
  obtain ⟨hslot, hk, hmark, h⟩ := hI
  refine ⟨hslot.move hm (hP.mono fun _ _ hx => hx.1), hk.mono hm.suffix.subset,
    hmark.trans hm.suffix, h.move hslot hk hdir hm fun evs hevs e he => ?_⟩
  obtain ⟨post, more, rfl⟩ := List.append_of_mem he
  have hbar := always_iff.mp hP post e (more ++ v.hist) (by rw [hevs]; simp)
  refine hbar.2 ?_
  have hlen := hmark.length_le
  rw [List.length_append]
  omega

/-- **The application of a reset** to an unended stream. -/
theorem applyReset_waits {w w0 : World σ} {id code : Nat} (hsound : Sound w)
    (hsend : Sending id (w.life id)) (hu : Unended id w.trace) (hp : w.Popped (.reset id code) w0) :
    ∃ s tr, w.EntryFor id s ∧ .applied (.reset id code) :: w.trace <:+ tr ∧
      (w0.applyCommand T (.reset id code)).trace =
        resolved s.sendOps (.error (.reset code)) (.sendSet s.status (.reset code) :: tr) ∧
      ((w0.applyCommand T (.reset id code)).life id).send.isSome ∧
      ResetPhase id code s.status (w0.applyCommand T (.reset id code)).trace
        ((w0.applyCommand T (.reset id code)).life id) := by
  -- the state after the command was taken up and its entry found or made
  let u := (w0.emit (.applied (.reset id code))).ensureSend id
  have hu1 : Sound u := sound_steps (T := T) (.single (.apply w w0 (.reset id code) hp)) hsound
  have hu2 : Sound u.interleave := sound_steps (T := T) (interleave_steps u) hu1
  obtain ⟨rest, hrest, hpop⟩ := hp.own rfl
  have hlife : u.life id = ((w.life id).pop (.reset id code) rest).ensure id w0.sh.nextSend := by
    rw [← hpop]
    exact life_ensureSend _ id
  obtain ⟨s, hentry, hs⟩ := ensureSend_entry (w0.emit (.applied (.reset id code))) id
  have hentry' : w.EntryFor id s := by cases hp <;> exact hentry
  obtain ⟨hstr, hpub⟩ := streaming_of_unended hsound.origin hsend hu hentry'
  have htrace : u.trace = .applied (.reset id code) :: w.trace ∨
      u.trace = .sendOpen id w0.sh.nextSend :: .applied (.reset id code) :: w.trace := by
    have hh := congrArg Life.hist hlife
    unfold Life.ensure at hh
    split at hh
    · exact .inl hh
    · exact .inr hh
  have hsuf : .applied (.reset id code) :: w.trace <:+ u.trace := by
    rcases htrace with h | h
    · rw [h]
    · rw [h]
      exact List.suffix_cons _ _
  have hpub2 : ¬ QuicheH3.Published s.status u.interleave.trace := by
    rintro ⟨e, he⟩
    refine hpub ⟨e, ?_⟩
    have he1 := (interleave_rel u).grows.old he not_false
    rcases htrace with h | h <;> rw [h] at he1 <;> simpa using he1
  have hadm : (u.interleave.life id).admission = (w.life id).admission := by
    change (u.life id).admission = _
    rw [hlife]
    unfold Life.ensure
    split <;> rfl
  have hset := (hu2.origin.setCell s.status (.reset code)).eq_cons hpub2
  have hs2 : u.interleave.reg.send.lookup id = some s := hs
  have hw1 : (w0.applyCommand T (.reset id code)).life id =
      (u.interleave.life id).resetEntry s code
        (.sendSet s.status (.reset code) :: u.interleave.trace) := by
    rw [← hset]
    exact life_resetEntry hs2 hstr.isOpen code
  refine ⟨s, u.interleave.trace, hentry', hsuf.trans (interleave_rel u).grows.suffix,
    congrArg Life.hist hw1, by rw [hw1]; rfl, ?_⟩
  rw [hw1]
  refine .waits _ rfl ⟨rfl, rfl, rfl, rfl⟩ rfl hstr.unfinished rfl (fun hb sd rd hx => ?_) ?_
  · exact hsend.reg hu hb sd rd (hadm.symm.trans hx)
  · rw [show (w0.applyCommand T (.reset id code)).trace = _ from congrArg Life.hist hw1]
    exact .refl _ _

theorem writableRegistered_terminal {w : World σ} {id stop : Nat} {s : StreamSendState}
    {e : SendEnd}
    (hs : w.reg.send.lookup id = some s) (ht : s.terminal = some e)
    (hstop : (w.streamCapacity T id).1 = .error (.streamStopped stop)) :
    w.writableRegistered T id = (w.streamCapacity T id).2 := by
  have hs' : (w.streamCapacity T id).2.reg.send.lookup id = some s := hs
  unfold writableRegistered
  dsimp only
  rw [hs', hstop]
  simp [ht]

/-- **A reset preempts what is queued, waits for its turn and is served once**, as long as no scan
reports the stream as an unknown one that it is not, and its id is not opened again.  The stream is
one with a send direction; the commands of its send half were writes, and no terminal of it is
published when the reset is applied. -/
theorem reset_preempts (T : QuicConn σ) (isServer : Bool) (bidiCap uniCap depth : Nat)
    (cap : Option Nat) (c : σ) (script : List (List FrontAct)) {w w0 w2 : World σ} {id code : Nat}
    {new : List Event} (hdir : isBidi id = true ∨ serverInitiated id = isServer)
    (hw : Steps T (withBuffers isServer bidiCap uniCap depth cap c script) w)
    (hp : w.Popped (.reset id code) w0)
    (hcell : ∀ c, CellOf c id w.trace → (w.sh.sendHalves c).status = none)
    (hw2 : Steps T (w0.applyCommand T (.reset id code)) w2)
    (hnew : w2.trace = new ++ (w0.applyCommand T (.reset id code)).trace)
    (hcmds : WritesThenReset id code w2.trace)
    (hfresh : Always (FreshFor isServer id) w2.trace) (honce : .streamPriority id true ∉ new) :
    ∃ s, w.EntryFor id s ∧ Preempts T id code w0 s new w2 := by
  have hinit := sound_withBuffers isServer bidiCap uniCap depth cap c script
  have hsound := sound_steps hw hinit
  have hsteps := hw.trans (applyCommand_steps hp)
  have hsound1 := sound_steps hsteps hinit
  have hsound2 := sound_steps hw2 hsound1
  have hsend : Sending id (w.life id) :=
    life_run (P := fun _ _ => True) (I := Sending) isServer bidiCap uniCap depth cap c script
      Sending.init (fun _ _ _ hm _ h => h.move hm) hw (always_iff.mpr fun _ _ _ _ => trivial) id
  -- the application has recorded the command right after the history of `w`
  have happ : .applied (.reset id code) :: w.trace <:+
      (w0.applyCommand T (.reset id code)).trace := by
    have hgrow := suffix_frame.applyReset (w0.emit (.applied (.reset id code))) id code
    cases hp <;> exact hgrow
  obtain ⟨mid, hmid⟩ := happ
  have hsplit : w2.trace = (new ++ mid) ++ .applied (.reset id code) :: w.trace := by
    rw [hnew, ← hmid, List.append_assoc]
  obtain ⟨hafter, hbefore⟩ := WritesThenReset.split (hsplit ▸ hcmds)
  have hu : Unended id w.trace := by
    refine ⟨fun c hc hpub => ?_, hbefore⟩
    obtain ⟨e, he⟩ := hpub
    have hst := (hsound.origin.face.cell c e).mpr he
    rw [hcell c hc] at hst
    cases hst
  obtain ⟨s, tr, hentry, -, htrace, hsome, hphase⟩ := applyReset_waits (T := T) hsound hsend hu hp
  have hslot : Slot isServer id ((w0.applyCommand T (.reset id code)).life id) := by
    refine life_run (P := FreshFor isServer id) (I := fun i v => i = id → Slot isServer i v)
      isServer
      bidiCap uniCap depth cap c script (fun _ _ => .init) (fun i v v' hm hP h hi => ?_) hsteps ?_
      id rfl
    · subst hi
      exact (h rfl).move hm hP
    · exact hfresh.suffix ⟨new, hnew.symm⟩
  have hknown : Known id (w0.applyCommand T (.reset id code)).trace := hslot.sendKnown hsome
  -- nothing of what is new revives the stream
  have hrev : ∀ e ∈ new, ¬ e.revives id := by
    intro e he hr
    obtain ⟨post, pre, rfl⟩ := List.append_of_mem he
    have hat := always_iff.mp hfresh post e (pre ++ (w0.applyCommand T (.reset id code)).trace)
      (by rw [hnew]; simp)
    have hunt (hx : id ∈ e.untracked) : False := by
      obtain ⟨hpeer, hnd⟩ := hat hx
      have hdisc := hslot.known hknown hpeer
      exact hnd (hdisc.imp (List.mem_append_right _) (List.mem_append_right _))
    cases e with
    | applied cmd => exact hafter cmd (by simp) hr
    | readableNext _ t | writableNext _ t =>
      cases t with
      | true => exact hr
      | false => exact hunt (congrArg some hr)
    | streamPriority i ok =>
      cases ok with
      | false => exact hr
      | true =>
        cases hr
        exact honce he
    | _ => exact hr
  have hbar : Always (Barred isServer id (w0.applyCommand T (.reset id code)).trace) w2.trace := by
    refine always_iff.mpr fun post e pre heq => ⟨always_iff.mp hfresh post e pre heq, fun hlen =>
      ?_⟩
    refine hrev e ?_
    have hsuf : (w0.applyCommand T (.reset id code)).trace <:+ pre := by
      refine List.suffix_of_suffix_length_le ⟨new, hnew.symm⟩ ⟨post ++ [e], ?_⟩ hlen
      rw [heq]
      simp
    obtain ⟨more, rfl⟩ := hsuf
    have hev : new = post ++ e :: more := by
      refine List.append_cancel_right (hnew.symm.trans (heq.trans ?_))
      simp
    simp [hev]
  have hmoves := life_steps hw2 hsound1 id
  rw [isServer_steps hsteps] at hmoves
  have hfinal :
      ResetPhase id code s.status (w0.applyCommand T (.reset id code)).trace (w2.life id) :=
    Barred.resetPhase (T := T) hdir hmoves hbar hslot hknown List.suffix_rfl hphase
  have hcellset : .sendSet s.status (.reset code) ∈ w2.trace := by
    rw [hnew, htrace]
    exact List.mem_append_right _ ((Life.suffix_resolved _ _ _).subset List.mem_cons_self)
  refine ⟨s, hentry, ⟨tr, htrace⟩, ?_, (hsound2.origin.face.cell _ _).mpr hcellset, ?_⟩
  · have hsynced : w2.reg.Synced := synced_steps (hsteps.trans hw2)
      ⟨OnceQueue.synced_empty, OnceQueue.synced_empty, OnceQueue.synced_empty⟩
    cases hfinal with
    | waits s' hs' he hp' hf hr ha hg =>
      obtain ⟨evs, hevs, hsp⟩ := hg
      have hsame : evs = new := List.append_cancel_right (hevs.symm.trans hnew)
      exact .waits s' hs' he hp' ((hsynced.runnable.has_iff id).mp hr) (hsame ▸ hsp)
    | served mid' he hm hg =>
      obtain ⟨post, hpost, hcalm⟩ := hg
      obtain ⟨pre, hpre, hsp⟩ := hm
      refine .served post pre ?_ hsp hcalm he
      refine List.append_cancel_right (hnew.symm.trans (hpost.trans ?_))
      simp [hpre]
  · intro hsome2 stop hstop
    obtain ⟨s', hs'⟩ := Option.isSome_iff_exists.mp hsome2
    have hterm : s'.terminal = some (.reset code) := by
      cases hfinal with
      | waits x hx he =>
        cases hs'.symm.trans hx
        exact he.terminal
      | served mid' he => exact (he s' hs').1.terminal
    exact writableRegistered_terminal hs' hterm hstop

/-- A client has a write held and another queued when it resets the stream. -/
def resetAsked : World MockConn :=
  (withBuffers false 4 4 8 none { streamsLeftBidi := 4, sendCapacity := fun _ => some 0 } []).run
    mockConn [.front .openBidi, .processWrites, .front (.takeReply 0),
      .front (.sendData 0 ⟨[[5, 6]], by decide⟩), .processWrites,
      .front (.sendData 0 ⟨[[8]], by decide⟩), .processWrites, .front (.sendReset 0 7)]

/-- The command has left the channel. -/
def resetTaken : World MockConn := { resetAsked with sh.cmdRx := [] }

/-- The reset was applied, and an iteration has passed. -/
def resetPassed : World MockConn :=
  (resetTaken.applyCommand mockConn (.reset 0 7)).run mockConn [.processWrites]

theorem resetPassed_preempts : ∃ s, resetAsked.EntryFor 0 s ∧ Preempts mockConn 0 7 resetTaken s
    [.sendDone 0, .streamShutdown 0 .write 7, .turn 0] resetPassed := by
  have hw : Steps mockConn (withBuffers false 4 4 8 none
    { streamsLeftBidi := 4, sendCapacity := fun _ => some 0 } []) resetAsked := run_steps _ _
  have hp : resetAsked.Popped (.reset 0 7) resetTaken := by
    refine .channel ?_ ?_ <;> decide +kernel
  have hw2 : Steps mockConn (resetTaken.applyCommand mockConn (.reset 0 7)) resetPassed :=
    run_steps _ _
  have hcell : ∀ c, CellOf c 0 resetAsked.trace → (resetAsked.sh.sendHalves c).status = none := by
    intro c hc
    have hlt := ((sound_steps hw (sound_withBuffers ..)).origin.face.sendMade 0 c hc).1
    rw [show resetAsked.sh.nextSend = 1 by decide +kernel, Nat.lt_one_iff] at hlt
    subst hlt
    decide +kernel
  refine reset_preempts mockConn false 4 4 8 none _ [] (.inl (by decide)) hw hp hcell hw2 ?_ ?_ ?_
    ?_
  · decide +kernel
  · refine ⟨[.send 0 ⟨[[8]], by decide⟩ 1 (some 1), .send 0 ⟨[[5, 6]], by decide⟩ 0 (some 2)],
      by decide +kernel, ?_⟩
    simp
  · decide +kernel
  · decide

/-- The peer ends the stream, the client resets it, and the transport reports it once more. -/
def resetReplaced : World MockConn :=
  (withBuffers false 4 4 8 none { streamsLeftBidi := 4 } []).run mockConn
    [.front .openBidi, .processWrites, .front (.takeReply 0),
      .transport { readableNext := [0], recvScript := fun _ => [.ok ([], true)] }, .processReads,
      .processWrites, .transport { readableNext := [0] }, .front (.sendReset 0 7), .processWrites]

/-- The reset was applied and published, no turn has served it, and none will: the entry is a new
one, and the stream is not runnable. -/
theorem resetReplaced_is_lost :
    .applied (.reset 0 7) ∈ resetReplaced.trace ∧
    (resetReplaced.sh.sendHalves 0).status = some (.reset 7) ∧
    .streamShutdown 0 .write 7 ∉ resetReplaced.trace ∧
    resetReplaced.reg.send.lookup 0 = some (.new 1) ∧
    resetReplaced.reg.runnableSend.queue = [] := by
  refine ⟨?_, ?_, ?_, ?_, ?_⟩ <;> decide +kernel

end World

end QuicheH3
