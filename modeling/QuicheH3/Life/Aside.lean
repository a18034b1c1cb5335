/-
# A step of one stream and the life of another

`Aside i w w'` is the frame between streams: what the worker knows of stream `i` is the same
in both worlds and the new events are foreign to `i`.  An event can be foreign for what it
names (another stream) or for what it names belongs to (a status cell, a completion), which is
where the origins come in.

Contents
  1  foreign events, 2 what belongs to another stream
  3  the registries, 4 the functions that end a direction, 5 making halves
-/
import QuicheH3.Life.View

namespace QuicheH3

open Lib

/-! ## 1. Foreign events -/

/-- The event is not about stream `i`; `tr` says which cells and completions are those of `i`. -/
def Event.foreign (i : Nat) (tr : List Event) : Event → Prop
  | .readableNext id tracked => tracked = true ∨ id ≠ i
  | .writableNext id tracked => tracked = true ∨ id ≠ i
  | .streamPriority id ok => ok = false ∨ id ≠ i
  | .streamSend id _ _ _ | .streamCapacity id _ | .recvOpen id _ | .recvClose id _
  | .sendOpen id _ | .sendClose id _ | .handle id _ | .recvDone id | .sendDone id | .handOver id
  | .sendRefused id _ | .turn id | .streamShutdown id .write _ => id ≠ i
  | .submit cmd => cmd.streamId ≠ some i
  | .applied cmd => cmd.streamId ≠ some i
  | .sendSet c _ => ¬ CellOf c i tr
  | .resolve t _ => ¬ Submitted t i tr
  | .cancel t => ¬ Submitted t i tr
  | _ => True

/-- The event is not about stream `i`, or it shuts its send direction down. -/
def Event.passing (i : Nat) (tr : List Event) (e : Event) : Prop :=
  e.foreign i tr ∨ ∃ code, e = .streamShutdown i .write code

theorem of_passing {i : Nat} {tr : List Event} {C : Event → Prop}
    (hf : ∀ e, e.foreign i tr → C e) (hs : ∀ code, C (.streamShutdown i .write code)) (e : Event)
    (h : e.passing i tr) : C e := by
  rcases h with h | ⟨code, rfl⟩
  · exact hf e h
  · exact hs code

theorem foreign_anti {i : Nat} {tr tr' : List Event} (hs : tr ⊆ tr') (e : Event)
    (h : e.foreign i tr') : e.foreign i tr := by
  cases e with
  | sendSet c x => exact fun hc => h (hc.mono hs)
  | resolve | cancel => exact fun ht => h (ht.mono hs)
  | streamShutdown id d code => cases d <;> exact h
  | _ => exact h

theorem passing_anti {i : Nat} {tr tr' : List Event} (hs : tr ⊆ tr') (e : Event)
    (h : e.passing i tr') : e.passing i tr := h.imp_left (foreign_anti hs e)

namespace World

variable {σ : Type} {T : QuicConn σ} {w w' w'' : World σ} {i id : Nat}

/-- Nothing happened to stream `i`. -/
structure Aside (i : Nat) (w w' : World σ) : Prop where
  life : w'.life i = { w.life i with hist := w'.trace }
  grows : Grows (Event.foreign i w.trace) w.trace w'.trace

namespace Aside

theorem refl (i : Nat) (w : World σ) : Aside i w w := ⟨rfl, .refl _ _⟩

theorem trans (h : Aside i w w') (h' : Aside i w' w'') : Aside i w w'' := by
  refine ⟨?_, h.grows.trans (h'.grows.mono (foreign_anti h.grows.subset))⟩
  rw [h'.life, h.life]

/-- The registries, queues and commands of the stream are the same, and so is the history. -/
theorem same (h : w'.life i = w.life i) : Aside i w w' := by
  have ht : w'.trace = w.trace := congrArg Life.hist h
  refine ⟨?_, ht ▸ .refl _ _⟩
  rw [h, ht]
  rfl

/-- The registries, queues and commands of the stream are the same; one event is added. -/
theorem emit (w : World σ) (e : Event) (he : e.foreign i w.trace) : Aside i w (w.emit e) :=
  ⟨rfl, .one he⟩

end Aside

/-! ## 2. What belongs to another stream -/

theorem Origin.foreign_op (h : Origin w) (hi : i ≠ id) {s : StreamSendState}
    (hs : w.reg.send.lookup id = some s) {op : SendOp} (ho : op ∈ s.sendOps) :
    ¬ Submitted op.tok i w.trace := fun hsub =>
  hi (h.face.tokInj op.tok i id hsub ((h.entry id s hs).ops op ho))

theorem Origin.foreign_cell (h : Origin w) (hi : i ≠ id) {s : StreamSendState}
    (hs : w.reg.send.lookup id = some s) : ¬ CellOf s.status i w.trace := fun hc => by
  have h1 := (h.face.sendMade i _ hc).2
  have h2 := (h.face.sendMade id _ (.inr (h.entry id s hs).cell)).2
  exact hi (h1.symm.trans h2)

theorem grows_cancelled {C : Event → Prop} : ∀ (ops : List SendOp) (tr : List Event),
    (∀ op ∈ ops, C (.cancel op.tok)) → Grows C tr (cancelled ops tr)
  | [], tr, _ => .refl _ tr
  | op :: ops, tr, h =>
    Grows.trans (.one (h op List.mem_cons_self))
      (grows_cancelled ops (.cancel op.tok :: tr) fun x hx => h x (List.mem_cons_of_mem _ hx))

theorem grows_resolved {C : Event → Prop} (res : Except SendEnd Unit) :
    ∀ (ops : List SendOp) (tr : List Event), (∀ op ∈ ops, C (.resolve op.tok res)) →
      Grows C tr (resolved ops res tr)
  | [], tr, _ => .refl _ tr
  | op :: ops, tr, h =>
    Grows.trans (.one (h op List.mem_cons_self))
      (grows_resolved res ops (.resolve op.tok res :: tr) fun x hx =>
        h x (List.mem_cons_of_mem _ hx))

/-! ## 3. The registries of other streams -/

theorem aside_eraseAdmit (w : World σ) (hi : i ≠ id) :
    Aside i w { w with reg.admission := w.reg.admission.erase id } := by
  refine .same ?_
  simp only [World.life, AList.lookup_erase_ne hi]
  rfl

theorem aside_insertAdmit (w : World σ) (hi : i ≠ id) (a : AdmitState) :
    Aside i w { w with reg.admission := w.reg.admission.insert id a } := by
  refine .same ?_
  simp only [World.life, AList.lookup_insert_ne hi]
  rfl

theorem aside_erasePending (w : World σ) (hi : i ≠ id) :
    Aside i w { w with reg.pendingAdmit := w.reg.pendingAdmit.erase id } := by
  refine .same ?_
  simp only [World.life, AList.lookup_erase_ne hi]
  rfl

theorem aside_insertPending (w : World σ) (hi : i ≠ id) (p : PeerStream) :
    Aside i w { w with reg.pendingAdmit := w.reg.pendingAdmit.insert id p } := by
  refine .same ?_
  simp only [World.life, AList.lookup_insert_ne hi]
  rfl

theorem aside_putSend (w : World σ) (hi : i ≠ id) (s : StreamSendState) :
    Aside i w (w.putSend id s) := by
  refine .same ?_
  simp only [World.life, putSend, AList.lookup_insert_ne hi]
  rfl

theorem aside_dropRecvMemberships (w : World σ) (hi : i ≠ id) :
    Aside i w { w with reg := w.reg.dropRecvMemberships id } := by
  refine .same ?_
  simp only [World.life, Registry.dropRecvMemberships, OnceQueue.has_drop_ne _ hi]
  rfl

theorem aside_dropSendMembership (w : World σ) (hi : i ≠ id) :
    Aside i w { w with reg := w.reg.dropSendMembership id } := by
  refine .same ?_
  simp only [World.life, Registry.dropSendMembership, OnceQueue.has_drop_ne _ hi]
  rfl

theorem aside_markSendRunnable (w : World σ) (hi : i ≠ id) :
    Aside i w { w with reg := w.reg.markSendRunnable id } := by
  refine .same ?_
  simp only [World.life, Registry.markSendRunnable, OnceQueue.has_push_ne _ hi]
  rfl

theorem aside_dropRecvEntry (w : World σ) (hi : i ≠ id) : Aside i w (w.dropRecvEntry id) := by
  unfold dropRecvEntry
  split
  · exact .refl i w
  · rename_i h _
    have h1 : Aside i w { w with reg.recv := w.reg.recv.erase id } := by
      refine .same ?_
      simp only [World.life, AList.lookup_erase_ne hi]
      rfl
    have h2 : Aside i { w with reg.recv := w.reg.recv.erase id }
        (({ w with reg.recv := w.reg.recv.erase id } : World σ).modRecv h
          fun r => { r with txOpen := false }) := .same rfl
    exact (h1.trans h2).trans (.emit _ _ hi.symm)

theorem aside_dropSendEntry (h : Origin w) (hi : i ≠ id) : Aside i w (w.dropSendEntry id) := by
  cases hs : w.reg.send.lookup id with
  | none =>
    simp only [dropSendEntry, hs]
    exact .refl i w
  | some s =>
    obtain ⟨n, hn⟩ := foldl_cancelOp { w with reg.send := w.reg.send.erase id } s.sendOps
    simp only [dropSendEntry, hs, hn]
    refine Aside.trans ?_ (.emit _ _ hi.symm)
    refine ⟨?_, grows_cancelled s.sendOps w.trace fun op ho => h.foreign_op hi hs ho⟩
    simp only [World.life, AList.lookup_erase_ne hi]
    rfl

theorem aside_completeOp (w : World σ) {op : SendOp} (hop : ¬ Submitted op.tok i w.trace)
    (res : Except SendEnd Unit) : Aside i w (w.completeOp op res) := by
  cases op <;> exact ⟨rfl, .one hop⟩

theorem aside_completeOps (w : World σ) {ops : List SendOp}
    (hop : ∀ op ∈ ops, ¬ Submitted op.tok i w.trace) (res : Except SendEnd Unit) :
    Aside i w (w.completeOps ops res) := by
  obtain ⟨n, hn⟩ := completeOps_eq w ops res
  rw [hn]
  exact ⟨rfl, grows_resolved res ops w.trace hop⟩

/-! ## 4. The functions that end a direction -/

/-- Ending a direction of another stream.  What is reclaimed of it then needs the origins. -/
theorem aside_done (hi : i ≠ id) : DoneFrame (Aside (σ := σ) i) id where
  refl := .refl i
  trans := .trans
  eraseAdmit w := aside_eraseAdmit w hi
  markAdmit w _ _ := aside_insertAdmit w hi _
  dropRecv w := aside_dropRecvEntry w hi
  recvCursors w := aside_dropRecvMemberships w hi
  sendCursor w := aside_dropSendMembership w hi
  recvDone w := .emit w _ hi.symm
  sendDone w := .emit w _ hi.symm
  finished w _ _ := aside_putSend w hi _

theorem aside_reclaimFinishedSend (h : Origin w) (hi : i ≠ id) :
    Aside i w (w.reclaimFinishedSend id) := by
  unfold reclaimFinishedSend
  split
  · split
    · exact (aside_dropSendEntry h hi).trans (aside_eraseAdmit _ hi)
    · exact .refl i w
  · exact .refl i w

theorem aside_markRecvDone (h : Origin w) (hi : i ≠ id) : Aside i w (w.markRecvDone id) := by
  have h1 := h.still ((dropRecvEntry_still w id).trans ((still_frame id).recvDone_rest _))
  have h2 := (aside_dropRecvEntry w hi).trans ((aside_done hi).recvDone_rest _)
  exact h2.trans (aside_reclaimFinishedSend h1 hi)

theorem aside_completeFinishOp (h : Origin w) (hi : i ≠ id) :
    Aside i w (w.completeFinishOp id) := by
  cases hs : w.reg.send.lookup id with
  | none =>
    simp only [completeFinishOp, hs]
    exact ((aside_done hi).markSendDone w).trans
      (aside_reclaimFinishedSend (h.still ((still_frame id).markSendDone w)) hi)
  | some s =>
    cases ho : s.sendOps with
    | nil =>
      simp only [completeFinishOp, hs, ho]
      exact ((aside_done hi).markSendDone w).trans
        (aside_reclaimFinishedSend (h.still ((still_frame id).markSendDone w)) hi)
    | cons op ops =>
      simp only [completeFinishOp, hs, ho]
      have hin : Inherits s { s with sendOps := ops } :=
        .of_subset rfl (ho ▸ List.subset_cons_self op ops)
      have hst := (putSend_still hs hin).trans (completeOp_still _ op (.ok ()))
      have hop : ¬ Submitted op.tok i (w.putSend id { s with sendOps := ops }).trace :=
        h.foreign_op hi hs (ho ▸ List.mem_cons_self)
      have h1 : Aside i w ((w.putSend id { s with sendOps := ops }).completeOp op (.ok ())) :=
        (aside_putSend w hi _).trans (aside_completeOp _ hop _)
      have h2 := h1.trans ((aside_done hi).markSendDone _)
      exact h2.trans
        (aside_reclaimFinishedSend (h.still (hst.trans ((still_frame id).markSendDone _))) hi)

theorem aside_setSendCell (w : World σ) {c : Nat} (hc : ¬ CellOf c i w.trace) (e : SendEnd) :
    Aside i w (w.setSendCell c e) := by
  unfold setSendCell
  split
  · exact .refl i w
  · exact ⟨rfl, .one hc⟩

theorem aside_sendTerminalTransition (h : Origin w) (hi : i ≠ id) (e : SendEnd) :
    Aside i w (w.sendTerminalTransition id e) := by
  cases hs : w.reg.send.lookup id with
  | none =>
    simp only [sendTerminalTransition, hs]
    exact .refl i w
  | some s =>
    simp only [sendTerminalTransition, hs]
    have h1 := aside_setSendCell w (h.foreign_cell hi hs) e
    have h2 := h1.trans (aside_putSend _ hi
      { s with terminal := some (s.terminal.getD e), held := none, sendOps := [] })
    have hop : ∀ op ∈ s.sendOps, ¬ Submitted op.tok i ((w.setSendCell s.status e).putSend id
        { s with terminal := some (s.terminal.getD e), held := none, sendOps := [] }).trace := by
      intro op ho hsub
      have h0 := h.setSendCell (h.status_lt hs) e
      refine h0.foreign_op hi ?_ ho hsub
      rw [setSendCell_send]
      exact hs
    have h3 := h2.trans (aside_completeOps _ hop (.error (s.terminal.getD e)))
    exact h3.trans ((aside_done hi).markSendDone _)

theorem aside_resetEntry (h : Origin w) (hi : i ≠ id) (code : Nat) :
    Aside i w (w.resetEntry id code) := by
  cases hs : w.reg.send.lookup id with
  | none =>
    simp only [resetEntry, hs]
    exact .refl i w
  | some s =>
    simp only [resetEntry, hs]
    split
    · exact .refl i w
    · have h1 := aside_setSendCell w (h.foreign_cell hi hs) (.reset code)
      have h2 := h1.trans (aside_putSend _ hi { s with
        pendingReset := some code, terminal := some (.reset code), sendOps := [], held := none })
      have hop : ∀ op ∈ s.sendOps, ¬ Submitted op.tok i
          ((w.setSendCell s.status (.reset code)).putSend id { s with
            pendingReset := some code, terminal := some (.reset code), sendOps := []
            held := none }).trace := by
        intro op ho hsub
        have h0 := h.setSendCell (h.status_lt hs) (.reset code)
        refine h0.foreign_op hi ?_ ho hsub
        rw [setSendCell_send]
        exact hs
      have h3 := h2.trans (aside_completeOps _ hop (.error (.reset code)))
      exact h3.trans (aside_markSendRunnable _ hi)

/-! ## 5. Making halves -/

theorem aside_insertSend (h : Origin w) (hi : i ≠ id) (c : Nat) :
    Aside i w (w.insertSend id c) := by
  have h1 := aside_dropSendEntry h hi
  have h2 := h1.trans (aside_putSend _ hi (.new c))
  exact h2.trans (.emit _ (.sendOpen id c) hi.symm)

theorem aside_ensureSend (w : World σ) (hi : i ≠ id) : Aside i w (w.ensureSend id) := by
  cases hs : w.reg.send.lookup id with
  | some s =>
    simp only [ensureSend, hs]
    exact .refl i w
  | none =>
    simp only [ensureSend, hs, insertSend, dropSendEntry]
    exact ⟨by simp only [World.life, emit, Face.emit, AList.lookup_insert_ne hi]; rfl,
      .one hi.symm⟩

end World

end QuicheH3
