/-
# The view of a stream through the rest of the driver

What `Life/View.lean` and `Life/Aside.lean` say of the functions that end a direction, for the
functions that make halves, queue operations, admit and clean up: on the view of its own stream
each is the function of the machine of the same name, and the view of any other stream stays.

The clean-up of undelivered streams is the one function here that goes through many streams at
once.  For each of them it is the same: the stream is shut down and forgotten if it waited, and
nothing happens to it if it did not (`foldl_clean`).

Contents
  1  cells and terminals, 2 making halves, 3 the front end
  4  admission, 5 cleaning up
  6  dropping an answer, with the halves in it
-/
import QuicheH3.Life.Machine

namespace QuicheH3

open Lib

namespace World

variable {σ : Type} {T : QuicConn σ} {w w' : World σ} {i id : Nat}

/-! ## 1. Cells and terminals -/

theorem Origin.freshCell (h : Origin w) : FreshCell w.sh.nextSend w.trace := by
  refine ⟨fun i hc => lt_irrefl _ (h.face.sendMade i _ hc).1, ?_⟩
  rintro ⟨e, he⟩
  have hn := h.face.cellFree w.sh.nextSend le_rfl
  rw [(h.face.cell _ e).mpr he] at hn
  cases hn

theorem life_setSendCell (w : World σ) (c : Nat) (e : SendEnd) (id : Nat) :
    (w.setSendCell c e).life id = { w.life id with hist := (w.setSendCell c e).trace } := by
  unfold setSendCell
  split <;> rfl

theorem Origin.setCell (h : Origin w) (c : Nat) (e : SendEnd) :
    SetCell c e w.trace (w.setSendCell c e).trace := by
  cases hs : (w.sh.sendHalves c).status with
  | some x =>
    simp only [World.setSendCell, hs]
    exact .old ⟨x, (h.face.cell c x).mp hs⟩
  | none =>
    simp only [World.setSendCell, hs]
    refine .new ?_
    rintro ⟨x, hx⟩
    rw [(h.face.cell c x).mpr hx] at hs
    cases hs

theorem life_completeOps (w : World σ) (ops : List SendOp) (res : Except SendEnd Unit) (id : Nat) :
    (w.completeOps ops res).life id =
      { w.life id with hist := resolved ops res w.trace } := by
  obtain ⟨n, hn⟩ := completeOps_eq w ops res
  rw [hn]
  rfl

theorem life_markSendRunnable (w : World σ) (id : Nat) :
    ({ w with reg := w.reg.markSendRunnable id } : World σ).life id =
      { w.life id with runnable := true } := by
  simp only [life, Registry.markSendRunnable, OnceQueue.has_push_self]
  rfl

theorem life_sendTerminalTransition {s : StreamSendState} (hs : w.reg.send.lookup id = some s)
    (ho : s.Open) (e : SendEnd) :
    (w.sendTerminalTransition id e).life id =
      (w.life id).sendEnd id s e (w.setSendCell s.status e).trace := by
  simp only [sendTerminalTransition, hs, ho.terminal, Option.getD_none]
  rw [life_markSendDone, life_completeOps, life_putSend, life_setSendCell]
  rfl

theorem life_resetEntry {s : StreamSendState} (hs : w.reg.send.lookup id = some s)
    (ho : s.Open) (code : Nat) :
    (w.resetEntry id code).life id =
      (w.life id).resetEntry s code (w.setSendCell s.status (.reset code)).trace := by
  simp only [resetEntry, hs, ho.terminal, ho.pendingReset, Option.isSome_none, Bool.or_self,
    Bool.false_eq_true, if_false]
  rw [life_markSendRunnable, life_completeOps, life_putSend, life_setSendCell]
  rfl

/-! ## 2. Making halves -/

theorem life_insertSend (w : World σ) (id c : Nat) :
    (w.insertSend id c).life id =
      { (w.life id).closeSend id with
        send := some (.new c), hist := .sendOpen id c :: ((w.life id).closeSend id).hist } := by
  have h1 := life_putSend (w.dropSendEntry id) id (.new c)
  rw [life_dropSendEntry] at h1
  have h2 : (w.insertSend id c).life id =
      (((w.dropSendEntry id).putSend id (.new c)).life id).emit (.sendOpen id c) := rfl
  rw [h2, h1]
  rfl

theorem life_buildSend (w : World σ) (id : Nat) (retained : Option SendEnd) :
    (w.buildSend id retained).2.life id = (w.life id).openSend id w.sh.nextSend retained := by
  cases retained with
  | some e =>
    simp only [buildSend, setSendCell, emit, Face.emit, Function.update_self]
    rfl
  | none =>
    simp only [buildSend, life_insertSend, life_emit]
    rfl

theorem life_insertRecv (w : World σ) (id h : Nat) :
    (w.insertRecv id h).life id = (w.life id).openRecv id h := by
  have h1 : ({ w.dropRecvEntry id with
      reg.recv := (w.dropRecvEntry id).reg.recv.insert id h } : World σ).life id =
      { (w.dropRecvEntry id).life id with recv := some h } := by
    simp only [life, AList.lookup_insert]
    rfl
  rw [life_dropRecvEntry] at h1
  have h2 : (w.insertRecv id h).life id = (({ w.dropRecvEntry id with
      reg.recv := (w.dropRecvEntry id).reg.recv.insert id h } : World σ).life id).emit
      (.recvOpen id h) := rfl
  rw [h2, h1]
  rfl

theorem life_buildRecv (w : World σ) (id : Nat) :
    (w.buildRecv id none).2.life id = (w.life id).openRecv id w.sh.nextRecv := by
  simp only [buildRecv, life_insertRecv]
  rfl

theorem life_ensureSend (w : World σ) (id : Nat) :
    (w.ensureSend id).life id = (w.life id).ensure id w.sh.nextSend := by
  have hs : (w.life id).send = w.reg.send.lookup id := rfl
  cases hx : w.reg.send.lookup id with
  | some s => simp only [ensureSend, Life.ensure, hx, hs]
  | none =>
    simp only [ensureSend, Life.ensure, hx, hs, life_insertSend]
    have hc : ∀ v : Life, v.send = none → v.closeSend id = v := fun v hv => by
      simp only [Life.closeSend, hv]
    rw [hc _ hx]
    rfl

theorem life_enqueueSendOp (w : World σ) (id : Nat) (op : SendOp) :
    (w.enqueueSendOp id op).life id = (w.life id).enqueue id w.sh.nextSend op := by
  have hs : ((w.life id).ensure id w.sh.nextSend).send = (w.ensureSend id).reg.send.lookup id := by
    rw [← life_ensureSend]
    rfl
  unfold enqueueSendOp Life.enqueue
  dsimp only
  rw [hs]
  cases hx : (w.ensureSend id).reg.send.lookup id with
  | none => exact life_ensureSend w id
  | some s =>
    dsimp only
    cases ht : s.terminal with
    | some e =>
      dsimp only
      rw [life_completeOp, life_ensureSend]
    | none =>
      dsimp only
      rw [life_markSendRunnable, life_putSend, life_ensureSend]

theorem aside_insertRecv (w : World σ) (hi : i ≠ id) (h : Nat) : Aside i w (w.insertRecv id h) := by
  have h1 := aside_dropRecvEntry w hi
  have h2 : Aside i (w.dropRecvEntry id) { w.dropRecvEntry id with
      reg.recv := (w.dropRecvEntry id).reg.recv.insert id h } := by
    refine .same ?_
    simp only [World.life, AList.lookup_insert_ne hi]
    rfl
  have h3 : Aside i { w.dropRecvEntry id with
      reg.recv := (w.dropRecvEntry id).reg.recv.insert id h }
      (({ w.dropRecvEntry id with
        reg.recv := (w.dropRecvEntry id).reg.recv.insert id h } : World σ).modRecv h
        fun r => { r with txOpen := true }) := .same rfl
  exact ((h1.trans h2).trans h3).trans (.emit _ _ hi.symm)

theorem aside_buildRecv (w : World σ) (hi : i ≠ id) : Aside i w (w.buildRecv id none).2 := by
  have h1 : Aside i w { w with
      sh.nextRecv := w.sh.nextRecv + 1
      sh.senders := w.sh.senders + 1
      sh.recvHalves := Function.update w.sh.recvHalves w.sh.nextRecv
        { (default : RecvHalf) with
          id := id, depth := max w.recvChannelDepth 1, holder := .handoff } } := .same rfl
  exact h1.trans (aside_insertRecv _ hi w.sh.nextRecv)

theorem aside_allocHandle (w : World σ) (hi : i ≠ id) : Aside i w (w.allocHandle id) :=
  ⟨rfl, .one hi.symm⟩

theorem aside_buildSend (h : Origin w) (hi : i ≠ id) (retained : Option SendEnd) :
    Aside i w (w.buildSend id retained).2 := by
  have h1 := aside_allocHandle w hi
  cases retained with
  | some e =>
    have hc : ¬ CellOf w.sh.nextSend i (w.allocHandle id).trace := fun hc =>
      h.freshCell.1 i (by simpa [CellOf, allocHandle, emit, Face.emit, hi] using hc)
    exact h1.trans (aside_setSendCell _ hc e)
  | none => exact h1.trans (aside_insertSend (h.allocHandle id) hi w.sh.nextSend)

theorem aside_enqueueSendOp (w : World σ) (hi : i ≠ id) {op : SendOp}
    (hop : ¬ Submitted op.tok i w.trace) : Aside i w (w.enqueueSendOp id op) := by
  have h1 := aside_ensureSend w hi
  have hop1 : ¬ Submitted op.tok i (w.ensureSend id).trace := by
    rintro ⟨cmd, hm, ht, hid⟩
    exact hop ⟨cmd, (sendSides.ensureSend w id).grows.old hm fun h => h, ht, hid⟩
  unfold enqueueSendOp
  dsimp only
  split
  · exact h1
  · split
    · exact h1.trans (aside_completeOp _ hop1 _)
    · exact (h1.trans (aside_putSend _ hi _)).trans (aside_markSendRunnable _ hi)

/-! ## 3. The front end -/

/-- A batch of front-end actions, on the view. -/
theorem life_front (h : Origin w) {f : Face} (hr : FrontRel w.toFace f) (id : Nat) :
    ∃ cs, Life.Front id (w.life id) cs f.trace ∧
      ({ w with toFace := f } : World σ).life id = (w.life id).submit cs f.trace := by
  obtain ⟨cs, hcs⟩ := hr.appends
  have hsub : ∀ c ∈ cs.filter fun c => c.streamId = some id, c ∈ cs ∧ c.streamId = some id := by
    intro c hc
    simpa using List.mem_filter.mp hc
  refine ⟨cs.filter fun c => c.streamId = some id,
    ⟨hr.grows, ?_, fun hne => ?_, fun c hc => (hsub c hc).2, ?_,
    fun c hc t ht i hs => ?_⟩, ?_⟩
  · unfold cmdsOf
    rw [hcs.record, List.filter_append, List.filter_reverse]
    rfl
  · obtain ⟨c, hc⟩ := List.exists_mem_of_ne_nil _ hne
    obtain ⟨hm, hid⟩ := hsub c hc
    rcases hcs.ids c hm id hid with ⟨j, hj, rfl⟩ | ⟨d, hd, rfl⟩
    · exact .inl ⟨j, h.face.recvRef j hj⟩
    · exact .inr (.inl ⟨d, h.face.sendRef d hd⟩)
  · exact hcs.toks.sublist (List.filter_sublist.filterMap _)
  · have h1 := (hcs.tok_lt t (List.mem_filterMap.mpr ⟨c, (hsub c hc).1, ht⟩)).1
    exact absurd (h.face.tokLt t i hs) (not_lt.mpr h1)
  · have hq : f.sh.cmdRx = w.sh.cmdRx ++ cs := hcs.queue
    simp only [life, Life.submit, hq, List.filter_append, List.append_assoc]

theorem life_fronts (h : Origin w) (acts : List FrontAct) (id : Nat) :
    ∃ cs, Life.Front id (w.life id) cs (w.fronts acts).trace ∧
      (w.fronts acts).life id = (w.life id).submit cs (w.fronts acts).trace :=
  life_front h (Face.fronts_rel acts w.toFace) id

/-! ## 4. Admission -/

theorem life_setPendingOf (r : Registry) (b : Bool) (x : Nat) (q : List Nat)
    (hq : pendingOf r b = x :: q) (c : Bool) (i : Nat) :
    (pendingOf (setPendingOf r b q) c).count i =
      if x = i then unbump b (fun c => (pendingOf r c).count i) c
      else (pendingOf r c).count i := by
  cases b <;> cases c <;> simp_all [pendingOf, setPendingOf, unbump, List.count_cons]

theorem life_setParkedOf (r : Registry) (b : Bool) (x : Nat) (q : List Nat)
    (hq : parkedOf r b = x :: q) (c : Bool) (i : Nat) :
    (parkedOf (setParkedOf r b q) c).count i =
      if x = i then unbump b (fun c => (parkedOf r c).count i) c
      else (parkedOf r c).count i := by
  cases b <;> cases c <;> simp_all [parkedOf, setParkedOf, unbump, List.count_cons]

theorem life_popPending {b : Bool} {rest : List Nat} (hq : pendingOf w.reg b = id :: rest) :
    ({ w with reg := setPendingOf w.reg b rest } : World σ).life id =
      { w.life id with pendQ := unbump b (w.life id).pendQ } := by
  have h1 : ∀ c, (pendingOf (setPendingOf w.reg b rest) c).count id =
      unbump b (w.life id).pendQ c := fun c => by
    rw [life_setPendingOf _ b id rest hq c id, if_pos rfl]
    rfl
  simp only [life, h1]
  cases b <;> rfl

theorem aside_popPending {b : Bool} {rest : List Nat} (hq : pendingOf w.reg b = id :: rest)
    (hi : i ≠ id) : Aside i w { w with reg := setPendingOf w.reg b rest } := by
  have h1 : ∀ c, (pendingOf (setPendingOf w.reg b rest) c).count i =
      (pendingOf w.reg c).count i := fun c => by
    rw [life_setPendingOf _ b id rest hq c i, if_neg hi.symm]
  refine .same ?_
  simp only [World.life, h1]
  cases b <;> rfl

theorem life_popParked {b : Bool} {rest : List Nat} (hq : parkedOf w.reg b = id :: rest) :
    ({ w with reg := setParkedOf w.reg b rest } : World σ).life id =
      { w.life id with parkQ := unbump b (w.life id).parkQ } := by
  have h1 : ∀ c, (parkedOf (setParkedOf w.reg b rest) c).count id =
      unbump b (w.life id).parkQ c := fun c => by
    rw [life_setParkedOf _ b id rest hq c id, if_pos rfl]
    rfl
  simp only [life, h1]
  cases b <;> rfl

theorem aside_popParked {b : Bool} {rest : List Nat} (hq : parkedOf w.reg b = id :: rest)
    (hi : i ≠ id) : Aside i w { w with reg := setParkedOf w.reg b rest } := by
  have h1 : ∀ c, (parkedOf (setParkedOf w.reg b rest) c).count i =
      (parkedOf w.reg c).count i := fun c => by
    rw [life_setParkedOf _ b id rest hq c i, if_neg hi.symm]
  refine .same ?_
  simp only [World.life, h1]
  cases b <;> rfl

theorem life_erasePending (w : World σ) (id : Nat) :
    ({ w with reg.pendingAdmit := w.reg.pendingAdmit.erase id } : World σ).life id =
      { w.life id with pend := none } := by
  simp only [life, AList.lookup_erase]
  rfl

theorem life_insertPending (w : World σ) (id : Nat) (p : PeerStream) :
    ({ w with reg.pendingAdmit := w.reg.pendingAdmit.insert id p } : World σ).life id =
      { w.life id with pend := some p } := by
  simp only [life, AList.lookup_insert]
  rfl

theorem life_insertAdmit (w : World σ) (id : Nat) (a : AdmitState) :
    ({ w with reg.admission := w.reg.admission.insert id a } : World σ).life id =
      { w.life id with admission := some a } := by
  simp only [life, AList.lookup_insert]
  rfl

theorem count_pos_of_cons {q rest : List Nat} (h : q = id :: rest) : 0 < q.count id := by
  rw [h, List.count_cons_self]
  exact Nat.succ_pos _

theorem life_take {b : Bool} {p : PeerStream} {r : Registry} (ht : Take w.reg b id p r) :
    Life.Take (w.life id) b p (({ w with reg := r } : World σ).life id) := by
  cases ht with
  | @pending rest hq ha hr hp =>
    have h1 := life_erasePending { w with reg := setPendingOf w.reg b rest } id
    rw [life_popPending hq] at h1
    rw [h1]
    exact .pending (count_pos_of_cons hq) ha hr hp
  | @parked rest hq ha =>
    have h1 := life_eraseAdmit { w with reg := setParkedOf w.reg b rest } id
    rw [life_popParked hq] at h1
    rw [h1]
    exact .parked (count_pos_of_cons hq) ha

theorem aside_take {b : Bool} {p : PeerStream} {r : Registry} (ht : Take w.reg b id p r)
    (hi : i ≠ id) : Aside i w { w with reg := r } := by
  cases ht with
  | @pending rest hq ha hr hp => exact (aside_popPending hq hi).trans (aside_erasePending _ hi)
  | @parked rest hq ha => exact (aside_popParked hq hi).trans (aside_eraseAdmit _ hi)

/-- The parked queue of the class grows at either end. -/
theorem count_pushParked (r : Registry) (b front c : Bool) (id i : Nat) :
    (parkedOf (setParkedOf r b
      (if front then id :: parkedOf r b else parkedOf r b ++ [id])) c).count i =
      if id = i then bump b (fun c => (parkedOf r c).count i) c else (parkedOf r c).count i := by
  cases b <;> cases c <;> cases front <;>
    simp [parkedOf, setParkedOf, bump, List.count_cons, List.count_append] <;> split <;> simp_all

theorem life_parkPeer (w : World σ) (b front : Bool) (id : Nat) (p : PeerStream) :
    (w.parkPeer b front id p).life id =
      { w.life id with admission := some (.parked p), parkQ := bump b (w.life id).parkQ } := by
  have h1 : ∀ c, (parkedOf (w.parkPeer b front id p).reg c).count id =
      bump b (w.life id).parkQ c := fun c => by
    have h0 := count_pushParked { w.reg with admission := w.reg.admission.insert id (.parked p) } b
      front c
      id id
    rw [if_pos rfl] at h0
    cases b <;> exact h0
  have h2 : (w.parkPeer b front id p).reg.admission.lookup id = some (.parked p) := by
    cases b <;> exact AList.lookup_insert _
  simp only [life, h1, h2]
  cases b <;> rfl

theorem aside_parkPeer (w : World σ) (b front : Bool) (hi : i ≠ id) (p : PeerStream) :
    Aside i w (w.parkPeer b front id p) := by
  have h1 : ∀ c, (parkedOf (w.parkPeer b front id p).reg c).count i =
      (parkedOf w.reg c).count i := fun c => by
    have h0 := count_pushParked { w.reg with admission := w.reg.admission.insert id (.parked p) } b
      front c
      id i
    rw [if_neg hi.symm] at h0
    cases b <;> exact h0
  have h2 : (w.parkPeer b front id p).reg.admission.lookup i = w.reg.admission.lookup i := by
    cases b <;> exact AList.lookup_insert_ne hi
  refine .same ?_
  simp only [World.life, h1, h2]
  cases b <;> rfl

/-- The pending queue of the class of the stream grows. -/
theorem count_pushPending (r : Registry) (c : Bool) (id i : Nat) :
    (pendingOf (r.pushPendingAdmit id) c).count i =
      if id = i then bump (isBidi id) (fun c => (pendingOf r c).count i) c
      else (pendingOf r c).count i := by
  unfold Registry.pushPendingAdmit
  cases isBidi id <;> cases c <;> simp [pendingOf, bump, List.count_append] <;> split <;> simp_all

theorem life_pushPendingAdmit (w : World σ) (id : Nat) :
    ({ w with reg := w.reg.pushPendingAdmit id } : World σ).life id =
      { w.life id with pendQ := bump (isBidi id) (w.life id).pendQ } := by
  have h1 : ∀ c, (pendingOf (w.reg.pushPendingAdmit id) c).count id =
      bump (isBidi id) (w.life id).pendQ c := fun c => by
    rw [count_pushPending, if_pos rfl]
    rfl
  simp only [life, h1]
  unfold Registry.pushPendingAdmit
  split <;> rfl

theorem aside_pushPendingAdmit (w : World σ) (hi : i ≠ id) :
    Aside i w { w with reg := w.reg.pushPendingAdmit id } := by
  have h1 : ∀ c, (pendingOf (w.reg.pushPendingAdmit id) c).count i =
      (pendingOf w.reg c).count i := fun c => by
    rw [count_pushPending, if_neg hi.symm]
  refine .same ?_
  simp only [World.life, h1]
  unfold Registry.pushPendingAdmit
  split <;> rfl

/-- A newly discovered peer stream. -/
theorem life_announce (w : World σ) (id : Nat) (p : PeerStream) :
    ({ w with
      reg := { w.reg with
        pendingAdmit := w.reg.pendingAdmit.insert id p }.pushPendingAdmit id } : World σ).life id =
      { w.life id with pend := some p, pendQ := bump (isBidi id) (w.life id).pendQ } := by
  have h1 := life_pushPendingAdmit
    { w with reg.pendingAdmit := w.reg.pendingAdmit.insert id p } id
  rw [life_insertPending] at h1
  exact h1

theorem aside_announce (w : World σ) (hi : i ≠ id) (p : PeerStream) :
    Aside i w { w with
      reg := { w.reg with
        pendingAdmit := w.reg.pendingAdmit.insert id p }.pushPendingAdmit id } :=
  (aside_insertPending w hi p).trans (aside_pushPendingAdmit _ hi)

/-! ## 5. Cleaning up -/

/-- A fold that removes something of each stream it passes, when it is there: `P` says that it
is there and `rm` removes it. -/
theorem foldl_clean (g : World σ → Nat → World σ) (P : Life → Prop) (rm : Life → Life)
    (haside : ∀ w x, i ≠ x → Aside i w (g w x)) (hkeep : ∀ w, ¬ P (w.life i) → g w i = w)
    (hrem : ∀ w, P (w.life i) → (g w i).life i = rm { w.life i with hist := (g w i).trace } ∧
      Grows (Event.passing i w.trace) w.trace (g w i).trace ∧ Shut i (g w i).trace)
    (hP : ∀ v tr, P { v with hist := tr } ↔ P v) (hrm : ∀ v, ¬ P (rm v))
    (hc : ∀ v tr, { rm v with hist := tr } = rm { v with hist := tr }) :
    ∀ (l : List Nat) (w : World σ), ∃ gone : Bool,
      (gone = true ↔ i ∈ l ∧ P (w.life i)) ∧
      (l.foldl g w).life i =
        (if gone then rm else fun v => v) { w.life i with hist := (l.foldl g w).trace } ∧
      Grows (Event.passing i w.trace) w.trace (l.foldl g w).trace ∧
      (gone = false → Grows (Event.foreign i w.trace) w.trace (l.foldl g w).trace) ∧
      (gone = true → Shut i (l.foldl g w).trace)
  | [], w => ⟨false, by simp, rfl, .refl _ _, fun _ => .refl _ _, by simp⟩
  | x :: l, w => by
    obtain ⟨gone, h1, h2, h3, h5, h4⟩ := foldl_clean g P rm haside hkeep hrem hP hrm hc l (g w x)
    rw [List.foldl_cons]
    by_cases hx : i = x
    · subst hx
      by_cases hp : P (w.life i)
      · -- removed at this turn, so not there any more
        obtain ⟨hl, hg, hs⟩ := hrem w hp
        have hgone : gone = false := by
          rw [hl] at h1
          simpa [hrm] using h1
        refine ⟨true, by simp [hp], ?_, hg.trans (h3.mono (passing_anti hg.subset)),
          fun hx => (by cases hx), fun _ => ?_⟩
        · rw [h2, hgone, hl]
          exact hc _ _
        · exact ⟨h3.subset hs.1, fun hb => h3.subset (hs.2 hb)⟩
      · rw [hkeep w hp] at h1 h2 h3 h4 h5 ⊢
        exact ⟨gone, by simpa [hp] using h1, h2, h3, h5, h4⟩
    · have ha := haside w x hx
      refine ⟨gone, ?_, ?_, Grows.trans (ha.grows.mono fun _ => .inl)
        (h3.mono (passing_anti ha.grows.subset)),
        fun hg => ha.grows.trans ((h5 hg).mono (foreign_anti ha.grows.subset)), h4⟩
      · rw [h1, ha.life, hP, List.mem_cons]
        simp [hx]
      · rw [h2, ha.life]

theorem aside_shutdownPeerDirections (w : World σ) (hi : i ≠ id) (b : Bool) :
    Aside i w (w.shutdownPeerDirections T id b) := by
  have h1 : Aside i w (w.streamShutdown T id .read h3NoError) :=
    ⟨rfl, .one trivial⟩
  cases b with
  | true => exact h1.trans ⟨rfl, .one hi.symm⟩
  | false => exact h1

/-- To the stream itself it says no more than that it is shut down. -/
theorem life_shutdownPeerDirections (w : World σ) (id : Nat) (b : Bool) :
    (w.shutdownPeerDirections T id b).life id =
        { w.life id with hist := (w.shutdownPeerDirections T id b).trace } ∧
      Grows (Event.passing id w.trace) w.trace (w.shutdownPeerDirections T id b).trace := by
  have h1 : Grows (Event.passing id w.trace) w.trace
      (.streamShutdown id .read h3NoError :: w.trace) := .one (.inl trivial)
  cases b with
  | true => exact ⟨rfl, .cons (.inr ⟨_, rfl⟩) h1⟩
  | false => exact ⟨rfl, h1⟩

theorem shut_shutdownPeerDirections (w : World σ) (id : Nat) :
    Shut id (w.shutdownPeerDirections T id (isBidi id)).trace := by
  unfold shutdownPeerDirections Shut
  dsimp only
  split
  · exact ⟨List.mem_cons_of_mem _ List.mem_cons_self, fun _ => List.mem_cons_self⟩
  · rename_i hb
    exact ⟨List.mem_cons_self, fun h => absurd h hb⟩

/-- `clean_undelivered_peer_streams`, its first half. -/
theorem life_cleanAllParked (w : World σ) (i : Nat) : ∃ park : Bool,
    (park = true ↔ (0 < (w.life i).parkQ true ∨ 0 < (w.life i).parkQ false) ∧
      ∃ p, (w.life i).admission = some (.parked p)) ∧
    (w.cleanAllParked T).life i = { w.life i with
      admission := if park then none else (w.life i).admission, parkQ := fun _ => 0
      hist := (w.cleanAllParked T).trace } ∧
    Grows (Event.passing i w.trace) w.trace (w.cleanAllParked T).trace ∧
    (park = false → Grows (Event.foreign i w.trace) w.trace (w.cleanAllParked T).trace) ∧
    (park = true → Shut i (w.cleanAllParked T).trace) := by
  obtain ⟨park, h1, h2, h3, h4⟩ := foldl_clean (cleanParked T)
    (fun v => ∃ p, v.admission = some (.parked p)) (fun v => { v with admission := none })
    (i := i) (fun w x hx => by
      unfold cleanParked
      split
      · exact (aside_shutdownPeerDirections w hx _).trans (aside_eraseAdmit _ hx)
      · exact .refl i w)
    (fun w hp => by
      unfold cleanParked
      split
      · rename_i p hx
        exact absurd ⟨p, hx⟩ hp
      · rfl)
    (fun w hp => by
      obtain ⟨p, hx⟩ := hp
      have hx' : w.reg.admission.lookup i = some (.parked p) := hx
      simp only [cleanParked, hx', life_eraseAdmit]
      obtain ⟨hl, hg⟩ := life_shutdownPeerDirections (T := T) w i (isBidi i)
      exact ⟨by rw [hl], hg, shut_shutdownPeerDirections w i⟩)
    (fun _ _ => Iff.rfl) (by rintro v ⟨p, hp⟩; cases hp) (fun _ _ => rfl)
    (w.reg.parkedBidi ++ w.reg.parkedUni) { w with reg.parkedBidi := [], reg.parkedUni := [] }
  refine ⟨park, ?_, ?_, h3, h4⟩
  · rw [h1, List.mem_append, ← List.count_pos_iff, ← List.count_pos_iff]
    rfl
  · have h5 : ∀ c, (parkedOf { w.reg with parkedBidi := [], parkedUni := [] } c).count i = 0 := by
      intro c
      cases c <;> rfl
    have h6 : ({ w with reg.parkedBidi := [], reg.parkedUni := [] } : World σ).life i =
        { w.life i with parkQ := fun _ => 0 } := by
      simp only [life, h5]
      rfl
    rw [h6] at h2
    refine Eq.trans h2 ?_
    cases park <;> rfl

/-- `clean_undelivered_peer_streams`, its second half. -/
theorem life_cleanAllPending (w : World σ) (i : Nat) : ∃ pend : Bool,
    (pend = true ↔ (0 < (w.life i).pendQ true ∨ 0 < (w.life i).pendQ false) ∧
      (w.life i).pend.isSome) ∧
    (w.cleanAllPending T).life i = { w.life i with
      pend := if pend then none else (w.life i).pend, pendQ := fun _ => 0
      hist := (w.cleanAllPending T).trace } ∧
    Grows (Event.passing i w.trace) w.trace (w.cleanAllPending T).trace ∧
    (pend = false → Grows (Event.foreign i w.trace) w.trace (w.cleanAllPending T).trace) ∧
    (pend = true → Shut i (w.cleanAllPending T).trace) := by
  obtain ⟨pend, h1, h2, h3, h4⟩ := foldl_clean (cleanPending T)
    (fun v => v.pend.isSome = true) (fun v => { v with pend := none })
    (i := i) (fun w x hx => by
      unfold cleanPending
      split
      · exact (aside_erasePending w hx).trans (aside_shutdownPeerDirections _ hx _)
      · exact .refl i w)
    (fun w hp => by
      unfold cleanPending
      split
      · rename_i p hx
        exact absurd (Option.isSome_iff_exists.mpr ⟨p, hx⟩) hp
      · rfl)
    (fun w hp => by
      obtain ⟨p, hx⟩ := Option.isSome_iff_exists.mp hp
      have hx' : w.reg.pendingAdmit.lookup i = some p := hx
      simp only [cleanPending, hx']
      obtain ⟨hl, hg⟩ := life_shutdownPeerDirections (T := T)
        { w with reg.pendingAdmit := w.reg.pendingAdmit.erase i } i (isBidi i)
      exact ⟨by rw [hl, life_erasePending], hg, shut_shutdownPeerDirections _ i⟩)
    (fun _ _ => Iff.rfl) (by intro v hv; cases hv) (fun _ _ => rfl)
    (w.reg.pendingAdmitBidi ++ w.reg.pendingAdmitUni)
    { w with reg.pendingAdmitBidi := [], reg.pendingAdmitUni := [] }
  refine ⟨pend, ?_, ?_, h3, h4⟩
  · rw [h1, List.mem_append, ← List.count_pos_iff, ← List.count_pos_iff]
    rfl
  · have h5 : ∀ c, (pendingOf { w.reg with
        pendingAdmitBidi := [], pendingAdmitUni := [] } c).count i = 0 := by
      intro c
      cases c <;> rfl
    have h6 : ({ w with reg.pendingAdmitBidi := [], reg.pendingAdmitUni := [] } : World σ).life i =
        { w.life i with pendQ := fun _ => 0 } := by
      simp only [life, h5]
      rfl
    rw [h6] at h2
    refine Eq.trans h2 ?_
    cases pend <;> rfl

/-! ## 6. Dropping an answer -/

/-- Two batches are one. -/
theorem front_trans {v : Life} {cs cs' : List DriverCommand} {tr tr' : List Event}
    (h : Life.Front id v cs tr) (h' : Life.Front id (v.submit cs tr) cs' tr') :
    Life.Front id v (cs ++ cs') tr' := by
  -- a completion of the first batch is submitted when the second begins
  have hsub : ∀ c ∈ cs, ∀ t, c.tok = some t → Submitted t id tr := fun c hc t ht => by
    have hm : c ∈ cmdsOf id (submitted tr) := by
      rw [h.record]
      exact List.mem_append_left _ (List.mem_reverse.mpr hc)
    exact ⟨c, mem_submitted.mp (List.mem_filter.mp hm).1, ht, h.ids c hc⟩
  have hr' : cmdsOf id (submitted tr') = cs'.reverse ++ cmdsOf id (submitted tr) := h'.record
  refine ⟨h.grows.trans h'.grows, ?_, fun hne => ?_, fun c hc => ?_, ?_, fun c hc t ht i hs => ?_⟩
  · rw [hr', h.record, List.reverse_append, List.append_assoc]
  · by_cases hcs : cs = []
    · have hk : Known id tr := h'.known fun h0 => hne (by rw [hcs, h0]; rfl)
      rcases hk with ⟨x, hx⟩ | ⟨x, hx⟩ | ⟨x, hx⟩
      · exact .inl ⟨x, h.grows.old hx fun h => h⟩
      · exact .inr (.inl ⟨x, h.grows.old hx fun h => h⟩)
      · exact .inr (.inr ⟨x, h.grows.old hx fun h => h⟩)
    · exact h.known hcs
  · exact (List.mem_append.mp hc).elim (h.ids c) (h'.ids c)
  · rw [List.filterMap_append, List.nodup_append]
    refine ⟨h.toks, h'.toks, fun t ht t' ht' he => ?_⟩
    subst he
    obtain ⟨c, hc, htc⟩ := List.mem_filterMap.mp ht
    obtain ⟨c', hc', htc'⟩ := List.mem_filterMap.mp ht'
    exact h'.fresh c' hc' t htc' id (hsub c hc t htc)
  · rcases List.mem_append.mp hc with hc | hc
    · exact h.fresh c hc t ht i hs
    · exact h'.fresh c hc t ht i (hs.mono h.grows.subset)

/-- One command enters the channel after an event of the front end. -/
theorem life_sendOne (h : Origin w) {f : Face} (cmd : DriverCommand) (e : Event) (he : e.isFront)
    (hne : ∀ c, e ≠ .submit c)
    (hid : cmd.streamId = some id) (hk : Known id w.trace)
    (htok : ∀ t, cmd.tok = some t → t = w.sh.nextTok)
    (hf : f.sh.cmdRx = (if w.sh.cmdRxClosed then w.sh.cmdRx else w.sh.cmdRx ++ [cmd]))
    (ht : f.trace = if w.sh.cmdRxClosed then e :: w.trace else .submit cmd :: e :: w.trace) :
    ∃ cs, Life.Front id (w.life id) cs f.trace ∧
      ({ w with toFace := f } : World σ).life id = (w.life id).submit cs f.trace := by
  have hs : submitted (e :: w.trace) = submitted w.trace := by
    cases e with
    | submit c => exact absurd rfl (hne c)
    | _ => rfl
  cases hc : w.sh.cmdRxClosed with
  | true =>
    rw [hc, if_pos rfl] at hf ht
    refine ⟨[], ⟨?_, ?_, fun h => absurd rfl h, by simp, by simp, by simp⟩, ?_⟩
    · exact ht ▸ .one he
    · rw [ht, hs]
      rfl
    · simp only [life, Life.submit, hf, List.append_nil]
  | false =>
    rw [hc, if_neg Bool.false_ne_true] at hf ht
    have hs' : submitted f.trace = cmd :: submitted w.trace := by
      rw [ht, ← hs]
      rfl
    refine ⟨[cmd], ⟨?_, ?_, fun _ => hk, by simpa using hid, ?_, ?_⟩, ?_⟩
    · exact ht ▸ .cons trivial (.one he)
    · rw [hs']
      simp only [cmdsOf, List.filter_cons, hid, decide_true, if_true]
      rfl
    · cases hx : cmd.tok <;> simp [hx]
    · intro c hc t ht i hsub
      rw [List.mem_singleton.mp hc] at ht
      exact absurd (h.face.tokLt t i hsub) (by rw [htok t ht]; exact lt_irrefl _)
    · simp only [life, Life.submit, hf, List.filter_append, List.append_assoc, List.filter_cons,
        List.filter_nil, hid, decide_true, if_true]

theorem life_dropSendHandoff (h : Origin w) {c : Nat} (hc : .handle id c ∈ w.trace) :
    ∃ cs, Life.Front id (w.life id) cs (w.toFace.dropSendHandoff c).trace ∧
      ({ w with toFace := w.toFace.dropSendHandoff c } : World σ).life id =
        (w.life id).submit cs (w.toFace.dropSendHandoff c).trace := by
  have hid : (w.sh.sendHalves c).id = id := (h.face.sendMade id c (.inl hc)).2
  refine life_sendOne h (.finish id w.sh.nextTok) (.sendDropped c) trivial (by simp) rfl
    (.inr (.inl ⟨c, hc⟩)) (fun t ht => (Option.some.inj ht).symm) ?_ ?_ <;>
  · simp only [Face.dropSendHandoff, Face.dropSender, Face.cmdSendFinish, Face.cmdSend, Face.emit,
      Face.modSend, hid]
    split <;> rfl

theorem life_dropRecvHandoff (h : Origin w) {j : Nat} (hj : .recvOpen id j ∈ w.trace) :
    ∃ cs, Life.Front id (w.life id) cs (w.toFace.dropRecvHandoff j).trace ∧
      ({ w with toFace := w.toFace.dropRecvHandoff j } : World σ).life id =
        (w.life id).submit cs (w.toFace.dropRecvHandoff j).trace := by
  have hid : (w.sh.recvHalves j).id = id := (h.face.recvMade id j hj).2
  refine life_sendOne h (.stopSending id 0) (.recvDropped j) trivial (by simp) rfl
    (.inl ⟨j, hj⟩) (fun t ht => by cases ht) ?_ ?_ <;>
  · simp only [Face.dropRecvHandoff, Face.dropSender, Face.cmdSend, Face.emit, Face.modRecv, hid]
    split <;> rfl

theorem aside_dropSendHandoff (h : Origin w) {c : Nat} (hc : .handle id c ∈ w.trace)
    (hi : i ≠ id) : Aside i w { w with toFace := w.toFace.dropSendHandoff c } := by
  have hid : (w.sh.sendHalves c).id = id := (h.face.sendMade id c (.inl hc)).2
  simp only [Face.dropSendHandoff, Face.dropSender, Face.cmdSendFinish, Face.cmdSend, Face.emit,
    Face.modSend, hid]
  split
  · exact ⟨rfl, .one trivial⟩
  · refine ⟨?_, .cons (fun h => hi (Option.some.inj h).symm) (.one trivial)⟩
    simp [World.life, List.filter_append, DriverCommand.streamId, hi.symm]

theorem aside_dropRecvHandoff (h : Origin w) {j : Nat} (hj : .recvOpen id j ∈ w.trace)
    (hi : i ≠ id) : Aside i w { w with toFace := w.toFace.dropRecvHandoff j } := by
  have hid : (w.sh.recvHalves j).id = id := (h.face.recvMade id j hj).2
  simp only [Face.dropRecvHandoff, Face.dropSender, Face.cmdSend, Face.emit, Face.modRecv, hid]
  split
  · exact ⟨rfl, .one trivial⟩
  · refine ⟨?_, .cons (fun h => hi (Option.some.inj h).symm) (.one trivial)⟩
    simp [World.life, List.filter_append, DriverCommand.streamId, hi.symm]

/-- The handoff of an open nobody waits for is dropped. -/
theorem life_dropAnswer (h : Origin w) {ans : Reply} (hm : Made id w.trace ans) :
    ∃ cs, Life.Front id (w.life id) cs (w.dropAnswer ans).trace ∧
      (w.dropAnswer ans).life id = (w.life id).submit cs (w.dropAnswer ans).trace := by
  have hid : ∃ cs, Life.Front id (w.life id) cs w.trace ∧
      w.life id = (w.life id).submit cs w.trace :=
    ⟨[], ⟨.refl _ _, rfl, fun h => absurd rfl h, by simp, by simp, by simp⟩, by
      simp only [Life.submit, List.append_nil]
      rfl⟩
  cases ans with
  | bidi j c =>
    obtain ⟨cs1, hf1, hl1⟩ := life_dropSendHandoff h hm.2
    have ho := h.dropSendHandoff (h.made_bidi hm).2
    obtain ⟨cs2, hf2, hl2⟩ := life_dropRecvHandoff ho (dropSendHandoff_subset _ c hm.1)
    rw [hl1] at hf2 hl2
    refine ⟨cs1 ++ cs2, front_trans hf1 hf2, hl2.trans ?_⟩
    simp only [Life.submit, List.append_assoc]
    rfl
  | uni c => exact life_dropSendHandoff h hm
  | _ => exact hid

theorem aside_dropAnswer (h : Origin w) {ans : Reply} (hm : Made id w.trace ans) (hi : i ≠ id) :
    Aside i w (w.dropAnswer ans) := by
  cases ans with
  | bidi j c =>
    have h1 := aside_dropSendHandoff h hm.2 hi
    have ho := h.dropSendHandoff (h.made_bidi hm).2
    exact h1.trans (aside_dropRecvHandoff ho (dropSendHandoff_subset _ c hm.1) hi)
  | uni c => exact aside_dropSendHandoff h hm hi
  | _ => exact .refl i w

theorem dropped_recvHandoff (f : Face) (j : Nat) :
    .recvDropped j ∈ (f.dropRecvHandoff j).trace ∧ f.trace ⊆ (f.dropRecvHandoff j).trace := by
  cases hc : f.sh.cmdRxClosed <;>
    simp [Face.dropRecvHandoff, Face.dropSender, Face.cmdSend, Face.emit, Face.modRecv, hc]

/-- A dropped handoff is recorded. -/
theorem dropped_dropAnswer (w : World σ) (ans : Reply) :
    (∀ j c, ans = .bidi j c → .recvDropped j ∈ (w.dropAnswer ans).trace ∧
      .sendDropped c ∈ (w.dropAnswer ans).trace) ∧
    ∀ c, ans = .uni c → .sendDropped c ∈ (w.dropAnswer ans).trace := by
  have h1 : ∀ (f : Face) c, .sendDropped c ∈ (f.dropSendHandoff c).trace := by
    intro f c
    cases hc : f.sh.cmdRxClosed <;>
      simp [Face.dropSendHandoff, Face.dropSender, Face.cmdSendFinish, Face.cmdSend, Face.emit,
        Face.modSend, hc]
  refine ⟨?_, ?_⟩
  · rintro j c rfl
    obtain ⟨hd, hsub⟩ := dropped_recvHandoff (w.toFace.dropSendHandoff c) j
    exact ⟨hd, hsub (h1 _ c)⟩
  · rintro c rfl
    exact h1 _ c

/-- A dropped handoff finishes its stream, as long as the channel is open. -/
theorem finished_dropAnswer (h : Origin w) {ans : Reply} (hm : Made id w.trace ans)
    (hcl : w.sh.cmdRxClosed = false) (hans : (∃ j c, ans = .bidi j c) ∨ ∃ c, ans = .uni c) :
    ∃ t, .submit (.finish id t) ∈ (w.dropAnswer ans).trace := by
  refine ⟨w.sh.nextTok, ?_⟩
  have hsend (c : Nat) (hc : .handle id c ∈ w.trace) :
      .submit (.finish id w.sh.nextTok) ∈ (w.toFace.dropSendHandoff c).trace := by
    have hid := (h.face.sendMade id c (.inl hc)).2
    simp [Face.dropSendHandoff, Face.dropSender, Face.cmdSendFinish, Face.cmdSend, Face.emit,
      Face.modSend, hcl, hid]
  rcases hans with ⟨j, c, rfl⟩ | ⟨c, rfl⟩
  · exact (dropped_recvHandoff (w.toFace.dropSendHandoff c) j).2 (hsend c hm.2)
  · exact hsend c hm

end World

end QuicheH3
