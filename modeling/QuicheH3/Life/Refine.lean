/-
# Every step of the driver moves every stream

Each atomic step is a sequence of moves of the machine of `Life/Machine.lean`, for each stream:
the stream the step is about makes the move of the same name, every other stream sees foreign
events only, and a batch of front-end actions is a move of all.

So the machine is an abstraction of the driver, stream by stream: an invariant of its moves holds of
every stream in every run (`life_steps`).  The refinement uses that the origins and the
waiting peers are in order (`Sound`), which every step keeps, and nothing about the transport: what
a call answers is a parameter of the move.

Contents
  1  the front end and the cursors, 2 discovery
  3  the receive direction, 4 admission, 5 opening, 6 the send direction
  7  commands
  8  the steps
-/
import QuicheH3.Life.Build
import QuicheH3.Recv.Refine
import QuicheH3.Open.Refine

namespace QuicheH3

open Lib

/-- Some state of the transport answers `n` to an offer of `data` on stream `id`. -/
def QuicConn.Accepts {σ : Type} (T : QuicConn σ) (id : Nat) (data : Bytes) (n : Nat) : Prop :=
  ∃ c fin, (T.streamSend c id data fin).1 = .ok n

namespace World

variable {σ : Type} {T : QuicConn σ} {w w' w'' : World σ} {srv : Bool} {i id : Nat}

/-- The stream moves. -/
abbrev LifeMoves (T : QuicConn σ) (srv : Bool) (i : Nat) (w w' : World σ) : Prop :=
  Life.Moves srv i (T.Accepts i) (w.life i) (w'.life i)

theorem Aside.moves (h : Aside i w w') : LifeMoves T srv i w w' := by
  unfold LifeMoves
  rw [h.life]
  exact .single (.other _ _ h.grows)

theorem LifeMoves.single (h : Life.Move srv i (T.Accepts i) (w.life i) (w'.life i)) :
    LifeMoves T srv i w w' := Relation.ReflTransGen.single h

/-- One move, given what the step does to the view of its own stream and of another one. -/
theorem LifeMoves.of_step (id : Nat)
    (h : Life.Move srv id (T.Accepts id) (w.life id) (w'.life id)) (ha : ∀ i, i ≠ id → Aside i w w')
    (i : Nat) : LifeMoves T srv i w w' := by
  by_cases hi : i = id
  · subst hi
    exact .single h
  · exact (ha i hi).moves

/-! ## 1. The front end and the cursors -/

theorem front_moves (h : Origin w) {f : Face} (hr : FrontRel w.toFace f) (i : Nat) :
    LifeMoves T srv i w { w with toFace := f } := by
  obtain ⟨cs, hf, hl⟩ := life_front h hr i
  refine .single ?_
  rw [hl]
  exact .front _ cs _ hf

theorem emit_moves (w : World σ) {e : Event} (he : e.foreign i w.trace) :
    LifeMoves T srv i w (w.emit e) := (Aside.emit w e he).moves

/-- Only cursors of the stream change. -/
theorem cursor_moves {r s n : Bool} (i : Nat)
    (h : w'.life i = { w.life i with readable := r, resume := s, runnable := n })
    (hr : r = true → (w.life i).readable = true ∨ (w.life i).recv.isSome)
    (hs : s = true → (w.life i).resume = true)
    (hn : n = true → (w.life i).runnable = true ∨ (w.life i).send.isSome)
    (hd : (w.life i).runnable = true → n = false → ∀ s, (w.life i).send = some s →
      s.pendingReset = none) :
    LifeMoves T srv i w w' := by
  refine .single ?_
  rw [h]
  exact .cursor _ r s n hr hs hn hd

/-- The send cursor stays. -/
theorem recvCursor_moves {r s : Bool} (i : Nat)
    (h : w'.life i = { w.life i with
      readable := r, resume := s, runnable := w.reg.runnableSend.has i })
    (hr : r = true → (w.life i).readable = true ∨ (w.life i).recv.isSome)
    (hs : s = true → (w.life i).resume = true) : LifeMoves T srv i w w' :=
  cursor_moves i h hr hs .inl fun ht hf => absurd (ht.symm.trans hf) (by simp)

theorem requeueReadable_moves {h : Nat} (hr : w.reg.recv.lookup id = some h) (i : Nat) :
    LifeMoves T srv i w { w with reg := w.reg.requeueReadable id } := by
  by_cases hi : i = id
  · subst hi
    refine recvCursor_moves (r := true) (s := w.reg.pendingResume.has i) i ?_
      (fun _ => .inr (by simp [life, hr])) fun h => h
    simp only [life, Registry.requeueReadable, OnceQueue.has_push_self]
    rfl
  · refine (Aside.same ?_).moves
    simp only [life, Registry.requeueReadable, OnceQueue.has_push_ne _ hi]
    rfl

theorem popResume_moves {rest : OnceQueue Nat} (hp : w.reg.pendingResume.pop = some (id, rest))
    (i : Nat) : LifeMoves T srv i w { w with reg.pendingResume := rest } := by
  refine recvCursor_moves (r := w.reg.pendingReadable.has i) (s := rest.has i) i rfl .inl
    fun h => ?_
  by_cases hi : i = id
  · subst hi
    rw [OnceQueue.has_pop_self hp] at h
    cases h
  · rw [OnceQueue.has_pop_ne hp hi] at h
    exact h

theorem popReadable_moves {rest : OnceQueue Nat}
    (hp : w.reg.pendingReadable.pop = some (id, rest)) (i : Nat) :
    LifeMoves T srv i w { w with reg.pendingReadable := rest } := by
  refine recvCursor_moves (r := rest.has i) (s := w.reg.pendingResume.has i) i rfl
    (fun h => .inl ?_) fun h => h
  by_cases hi : i = id
  · subst hi
    rw [OnceQueue.has_pop_self hp] at h
    cases h
  · rw [OnceQueue.has_pop_ne hp hi] at h
    exact h

/-- The turn of another stream. -/
theorem aside_turn {rest : OnceQueue Nat} (hp : w.reg.runnableSend.pop = some (id, rest))
    (hi : i ≠ id) : Aside i w ({ w with reg.runnableSend := rest }.emit (.turn id)) := by
  have h1 : Aside i w { w with reg.runnableSend := rest } := by
    refine .same ?_
    simp only [life, OnceQueue.has_pop_ne hp hi]
    rfl
  exact h1.trans (.emit _ _ hi.symm)

/-- The turn of the stream. -/
theorem life_turn {rest : OnceQueue Nat} (hp : w.reg.runnableSend.pop = some (id, rest)) :
    ({ w with reg.runnableSend := rest }.emit (.turn id)).life id =
      { w.life id with runnable := false, hist := .turn id :: w.trace } := by
  rw [life_emit]
  simp only [life, OnceQueue.has_pop_self hp]
  rfl

theorem popRunnable_moves {rest : OnceQueue Nat} (hp : w.reg.runnableSend.pop = some (id, rest))
    (hn : ∀ s, w.reg.send.lookup id = some s → s.pendingReset = none) (i : Nat) :
    LifeMoves T srv i w ({ w with reg.runnableSend := rest }.emit (.turn id)) := by
  refine LifeMoves.of_step id ?_ (fun j hj => aside_turn hp hj) i
  rw [life_turn hp]
  exact .turn _ hn

theorem markRunnable_moves (hs : (w.reg.send.lookup id).isSome) (i : Nat) :
    LifeMoves T srv i w { w with reg := w.reg.markSendRunnable id } := by
  by_cases hi : i = id
  · subst hi
    exact cursor_moves (r := w.reg.pendingReadable.has i) (s := w.reg.pendingResume.has i)
      (n := true) i (life_markSendRunnable w i) .inl (fun h => h) (fun _ => .inr hs)
      fun _ h => absurd h (by simp)
  · exact (aside_markSendRunnable w hi).moves

theorem forgetRecv_moves (w : World σ) (id i : Nat) :
    LifeMoves T srv i w { w with reg := w.reg.dropRecvMemberships id } := by
  by_cases hi : i = id
  · subst hi
    exact recvCursor_moves (r := false) (s := false) i (life_dropRecvMemberships w i) (by simp)
      (by simp)
  · exact (aside_dropRecvMemberships w hi).moves

/-! ## 2. Discovery -/

theorem readable_moves (w : World σ) (id i : Nat) :
    LifeMoves T srv i w ((w.emit (.readableNext id (w.reg.readTracked id))).intakeOne id) := by
  cases hr : w.reg.recv.lookup id with
  | some h =>
    have ht : w.reg.readTracked id = true := by simp [Registry.readTracked, hr]
    have h1 : LifeMoves T srv i w (w.emit (.readableNext id true)) := emit_moves w (.inl rfl)
    have h2 : (w.emit (.readableNext id true)).reg.recv.lookup id = some h := hr
    simp only [ht, intakeOne, h2, Option.isSome_some, if_true]
    exact h1.trans (requeueReadable_moves h2 i)
  | none =>
    cases ha : (w.reg.admission.lookup id).isSome || (w.reg.pendingAdmit.lookup id).isSome with
    | true =>
      have ht : w.reg.readTracked id = true := by
        simp only [Registry.readTracked, hr, Option.isSome_none, Bool.false_or, ha]
      have h1 : (w.emit (.readableNext id true)).reg = w.reg := rfl
      simp only [ht, intakeOne, h1, hr, ha, Option.isSome_none, Bool.false_eq_true, if_false,
        if_true]
      exact emit_moves w (.inl rfl)
    | false =>
      have ht : w.reg.readTracked id = false := by
        simp only [Registry.readTracked, hr, Option.isSome_none, Bool.false_or, ha]
      have h1 : (w.emit (.readableNext id false)).reg = w.reg := rfl
      simp only [ht, intakeOne, h1, hr, ha, Option.isSome_none, Bool.false_eq_true, if_false]
      obtain ⟨ha1, ha2⟩ := Bool.or_eq_false_iff.mp ha
      refine LifeMoves.of_step id ?_ (fun j hj => ?_) i
      · refine Eq.mpr (congrArg (Life.Move srv id _ _) (life_announce _ id _)) ?_
        exact .readable _ hr (by simpa [life] using ha1) (by simpa [life] using ha2)
      · have h2 : Aside j w (w.emit (.readableNext id false)) := .emit _ _ (.inr (Ne.symm hj))
        exact h2.trans (aside_announce _ hj _)

theorem discover_moves {ans : Except QuicheError Nat} (hu : w.reg.writeTracked id = false)
    (i : Nat) : LifeMoves T srv i w (w.discovered id ans) := by
  simp only [Registry.writeTracked, Bool.or_eq_false_iff, Bool.not_eq_false'] at hu
  obtain ⟨⟨⟨hs, hb⟩, ha⟩, hp⟩ := hu
  refine LifeMoves.of_step id ?_ (fun j hj => ?_) i
  · have h1 := life_announce ((w.emit (.writableNext id false)).emit (.streamCapacity id ans)) id
      { PeerStream.new id with pendingSendTerminal := stoppedOf ans }
    rw [hb] at h1
    refine Eq.mpr (congrArg (Life.Move srv id _ _) h1) ?_
    exact .writable _ ans (by simpa [life] using hs) hb (by simpa [life] using ha)
      (by simpa [life] using hp)
  · have h1 : Aside j w (w.emit (.writableNext id false)) := .emit _ _ (.inr (Ne.symm hj))
    have h2 := h1.trans (.emit _ (.streamCapacity id ans) (Ne.symm hj))
    exact h2.trans (aside_announce _ hj _)

/-! ## 3. The receive direction -/

theorem setRecvCell_life (w : World σ) (h : Nat) (e : RecvEnd) (i : Nat) :
    Aside i w (w.setRecvCell h e) := by
  unfold setRecvCell
  split
  · exact .refl i w
  · exact ⟨rfl, .one trivial⟩

theorem recvEnd_moves (ho : Origin w) (hv : RecvInv w.rview) {h : Nat} {e : RecvEnd}
    (hr : w.reg.recv.lookup id = some h) (i : Nat) :
    LifeMoves T srv i w ((w.setRecvCell h e).markRecvDone id) := by
  have h1 := setRecvCell_life w h e id
  refine LifeMoves.of_step id ?_ (fun j hj => ?_) i
  · rw [life_markRecvDone, h1.life]
    refine .recvEnd _ h _ hr h1.grows ?_
    -- the cell was set just now, or it was set before
    cases hc : (w.sh.recvHalves h).terminal with
    | none =>
      simp only [setRecvCell, hc]
      exact ⟨e, List.mem_cons_self⟩
    | some e' =>
      simp only [setRecvCell, hc]
      by_contra hn
      have hcell := (hv.cell h).mpr hn
      rw [show w.rview.cell h = some e' from hc] at hcell
      cases hcell
  · exact (setRecvCell_life w h e j).trans (aside_markRecvDone (ho.still (setRecvCell_still w h e))
      hj)

theorem abandon_moves (ho : Origin w) {h : Nat} (hr : w.reg.recv.lookup id = some h)
    (hv : RecvInv w.rview) (hg : (w.sh.recvHalves h).holder = .gone) (i : Nat) :
    LifeMoves T srv i w ((w.emit (.streamShutdown id .read h3NoError)).markRecvDone id) := by
  have hopen : .recvOpen id h ∈ w.trace := recvOpen_of_owner ((hv.entry id).symm.trans hr)
  have hnl : ¬ (w.sh.recvHalves h).Live := by
    unfold RecvHalf.Live
    rw [hg]
    simp
  refine LifeMoves.of_step id ?_ (fun j hj => ?_) i
  · rw [life_markRecvDone, life_emit]
    exact .abandon _ h hr (ho.face.gone id h hopen hnl)
  · have h1 : Aside j w (w.emit (.streamShutdown id .read h3NoError)) := .emit _ _ trivial
    exact h1.trans (aside_markRecvDone (ho.still (.emit _ _ trivial)) hj)

/-! ## 4. Admission -/

theorem stalePending_moves {b : Bool} {rest : List Nat} (hq : pendingOf w.reg b = id :: rest)
    (hs : (w.reg.admission.lookup id).isSome ∨ (w.reg.recv.lookup id).isSome) (i : Nat) :
    LifeMoves T srv i w { w with
      reg := { setPendingOf w.reg b rest with
        pendingAdmit := (setPendingOf w.reg b rest).pendingAdmit.erase id } } := by
  refine LifeMoves.of_step id ?_ (fun j hj => ?_) i
  · have h1 := life_erasePending { w with reg := setPendingOf w.reg b rest } id
    rw [life_popPending hq] at h1
    refine Eq.mpr (congrArg (Life.Move srv id _ _) h1) ?_
    exact .stale _ b (count_pos_of_cons hq) hs
  · exact (aside_popPending hq hj).trans (aside_erasePending _ hj)

theorem lostPending_moves {b : Bool} {rest : List Nat} (hq : pendingOf w.reg b = id :: rest)
    (hp : w.reg.pendingAdmit.lookup id = none) (i : Nat) :
    LifeMoves T srv i w { w with reg := setPendingOf w.reg b rest } := by
  refine LifeMoves.of_step id ?_ (fun j hj => aside_popPending hq hj) i
  rw [life_popPending hq]
  exact .lost _ b (count_pos_of_cons hq) hp

theorem skipParked_moves {b : Bool} {rest : List Nat} (hq : parkedOf w.reg b = id :: rest)
    (ha : ∀ p, w.reg.admission.lookup id ≠ some (.parked p)) (i : Nat) :
    LifeMoves T srv i w { w with reg := setParkedOf w.reg b rest } := by
  refine LifeMoves.of_step id ?_ (fun j hj => aside_popParked hq hj) i
  rw [life_popParked hq]
  exact .skipParked _ b (count_pos_of_cons hq) ha

theorem repark_moves {b front : Bool} {p : PeerStream} {r : Registry}
    (ht : Take w.reg b id p r) (i : Nat) :
    LifeMoves T srv i w ({ w with reg := r }.parkPeer b front id p) := by
  refine LifeMoves.of_step id ?_
    (fun j hj => (aside_take ht hj).trans (aside_parkPeer _ b front hj p)) i
  rw [life_parkPeer]
  exact .repark _ _ b p (life_take ht)

theorem tear_moves {b : Bool} {p : PeerStream} {r : Registry} (ht : Take w.reg b id p r)
    (hid : p.id = id) (i : Nat) :
    LifeMoves T srv i w ({ w with reg := r }.noteShutdown p.id (isBidi p.id)) := by
  rw [hid]
  refine LifeMoves.of_step id ?_ (fun j hj => ?_) i
  · have h1 : Life.Move srv id (T.Accepts id) (w.life id) _ := .tear _ _ b p (life_take ht)
    refine Eq.mp (congrArg (Life.Move srv id _ _) ?_) h1
    cases hb : isBidi id <;> rfl
  · have h1 : Aside j { w with reg := r } (({ w with reg := r } : World σ).noteShutdown id
        (isBidi id)) := by
      cases hb : isBidi id
      · exact .emit _ _ trivial
      · exact Aside.trans (.emit _ (.streamShutdown id .read h3NoError) trivial) (.emit _ _ hj.symm)
    exact (aside_take ht hj).trans h1

theorem origin_take {b : Bool} {p : PeerStream} {r : Registry} (ht : Take w.reg b id p r)
    (h : Origin w) : Origin { w with reg := r } := by
  have hreg : r.send = w.reg.send := by cases ht <;> cases b <;> rfl
  exact h.still (.reg rfl hreg rfl)

/-- Registering a bidi peer stream, on its own view. -/
theorem life_buildPeerBidi (w : World σ) {p : PeerStream} (hp : p.pendingRecvTerminal = none) :
    (w.buildPeerBidi p).2.life p.id =
      { ((w.life p.id).openRecv p.id w.sh.nextRecv).openSend p.id w.sh.nextSend
          p.pendingSendTerminal with
        admission := some (.registered p.pendingSendTerminal.isSome false) } := by
  simp only [buildPeerBidi, hp, Option.isSome_none]
  rw [life_insertAdmit, life_buildSend, life_buildRecv]
  have hn : (w.buildRecv p.id none).2.sh.nextSend = w.sh.nextSend := by
    simp only [buildRecv, insertRecv, dropRecvEntry]
    split <;> rfl
  rw [hn]

theorem aside_buildPeerBidi (h : Origin w) {p : PeerStream} (hp : p.pendingRecvTerminal = none)
    (hi : i ≠ p.id) : Aside i w (w.buildPeerBidi p).2 := by
  simp only [buildPeerBidi, hp]
  have h1 := (aside_buildRecv w hi).trans
    (aside_buildSend (h.buildRecv p.id) hi p.pendingSendTerminal)
  exact h1.trans (aside_insertAdmit _ hi _)

theorem life_buildPeerUni (w : World σ) {p : PeerStream} (hp : p.pendingRecvTerminal = none) :
    (w.buildPeerUni p).2.life p.id =
      { (w.life p.id).openRecv p.id w.sh.nextRecv with
        admission := some (.registered true false) } := by
  simp only [buildPeerUni, hp, Option.isSome_none]
  rw [life_insertAdmit, life_buildRecv]

theorem aside_buildPeerUni (w : World σ) {p : PeerStream} (hp : p.pendingRecvTerminal = none)
    (hi : i ≠ p.id) : Aside i w (w.buildPeerUni p).2 := by
  simp only [buildPeerUni, hp]
  exact (aside_buildRecv w hi).trans (aside_insertAdmit _ hi _)

theorem admitBidi_moves (ho : Origin w) {b : Bool} {p : PeerStream} {r : Registry}
    (acts : List FrontAct) (ht : Take w.reg b id p r) (hp : PeerOk id p)
    (hb : isBidi p.id = true) (i : Nat) :
    LifeMoves T srv i w ((({ w with reg := r }.buildPeerBidi p).2.fronts acts).pushAcceptBidi p.id
      ({ w with reg := r }.buildPeerBidi p).1) := by
  obtain ⟨hid, hnone⟩ := hp
  have ho1 := origin_take ht ho
  have ho2 := (ho1.buildPeerBidi hnone).1
  by_cases hi : i = id
  · subst hi
    rw [hid] at hb ⊢
    have hl := life_buildPeerBidi { w with reg := r } hnone
    rw [hid] at hl
    obtain ⟨cs, hf, hfl⟩ := life_fronts ho2 acts i
    refine .single ?_
    have h1 : Life.Move srv i (T.Accepts i) (w.life i) _ := .admitBidi _ _ b p w.sh.nextRecv
      w.sh.nextSend cs _ (life_take ht) hb ho1.freshCell _ hl hf
    rw [← hfl] at h1
    exact h1
  · have h1 := (aside_take ht hi).trans (aside_buildPeerBidi ho1 hnone (hid ▸ hi))
    have h2 : LifeMoves T srv i _ _ := front_moves ho2 (Face.fronts_rel acts _) i
    have h3 : Aside i ((({ w with reg := r } : World σ).buildPeerBidi p).2.fronts acts)
      (((({ w with reg := r } : World σ).buildPeerBidi p).2.fronts acts).pushAcceptBidi p.id
        ({ w with reg := r }.buildPeerBidi p).1) :=
      ⟨rfl, .one (hid ▸ Ne.symm hi)⟩
    exact (h1.moves.trans h2).trans h3.moves

theorem admitUni_moves (ho : Origin w) {b : Bool} {p : PeerStream} {r : Registry}
    (acts : List FrontAct) (ht : Take w.reg b id p r) (hp : PeerOk id p)
    (hb : isBidi p.id = false) (i : Nat) :
    LifeMoves T srv i w ((({ w with reg := r }.buildPeerUni p).2.fronts acts).pushAcceptUni p.id
      ({ w with reg := r }.buildPeerUni p).1) := by
  obtain ⟨hid, hnone⟩ := hp
  have ho1 := origin_take ht ho
  have ho2 := (ho1.buildPeerUni hnone).1
  by_cases hi : i = id
  · subst hi
    rw [hid] at hb ⊢
    have hl := life_buildPeerUni { w with reg := r } hnone
    rw [hid] at hl
    obtain ⟨cs, hf, hfl⟩ := life_fronts ho2 acts i
    refine .single ?_
    have h1 : Life.Move srv i (T.Accepts i) (w.life i) _ := .admitUni _ _ b p w.sh.nextRecv cs _
      (life_take ht) hb _ hl hf
    rw [← hfl] at h1
    exact h1
  · have h1 := (aside_take ht hi).trans (aside_buildPeerUni _ hnone (hid ▸ hi))
    have h2 : LifeMoves T srv i _ _ := front_moves ho2 (Face.fronts_rel acts _) i
    have h3 : Aside i ((({ w with reg := r } : World σ).buildPeerUni p).2.fronts acts)
      (((({ w with reg := r } : World σ).buildPeerUni p).2.fronts acts).pushAcceptUni p.id
        ({ w with reg := r }.buildPeerUni p).1) :=
      ⟨rfl, .one (hid ▸ Ne.symm hi)⟩
    exact (h1.moves.trans h2).trans h3.moves

/-! ## 5. Opening -/

theorem buildRecv_nextSend (w : World σ) (id : Nat) :
    (w.buildRecv id none).2.sh.nextSend = w.sh.nextSend := by
  simp only [buildRecv, insertRecv, dropRecvEntry]
  split <;> rfl

/-- The world in which the halves of a local stream are built. -/
theorem life_beforeBuild (w : World σ) (b : Bool) (rest : List Nat) (i : Nat) :
    (((w.setOpenOf b rest).emit (.streamPriority (w.nextIdOf b) true)).advanceNextId b).life i =
      (w.life i).emit (.streamPriority (w.nextIdOf b) true) := by
  cases b <;> rfl

theorem origin_beforeBuild (h : Origin w) (b : Bool) (rest : List Nat) :
    Origin (((w.setOpenOf b rest).emit
      (.streamPriority (w.nextIdOf b) true)).advanceNextId b) := by
  have h0 := h.still (.emit w (.streamPriority (w.nextIdOf b) true) trivial)
  cases b <;> exact h0.still (.reg rfl rfl rfl)

theorem life_opened_bidi (w : World σ) (rest : List Nat) :
    (w.opened true rest).2.life (w.nextIdOf true) =
      (((w.life (w.nextIdOf true)).emit (.streamPriority (w.nextIdOf true) true)).openRecv
        (w.nextIdOf true) w.sh.nextRecv).openSend (w.nextIdOf true) w.sh.nextSend none := by
  simp only [opened, buildOpen, if_true]
  rw [life_buildSend, life_buildRecv, life_beforeBuild, buildRecv_nextSend]
  rfl

theorem life_opened_uni (w : World σ) (rest : List Nat) :
    (w.opened false rest).2.life (w.nextIdOf false) =
      ((w.life (w.nextIdOf false)).emit (.streamPriority (w.nextIdOf false) true)).openSend
        (w.nextIdOf false) w.sh.nextSend none := by
  simp only [opened, buildOpen, Bool.false_eq_true, if_false]
  rw [life_buildSend, life_beforeBuild]
  rfl

theorem aside_opened (h : Origin w) (b : Bool) (rest : List Nat) (hi : i ≠ w.nextIdOf b) :
    Aside i w (w.opened b rest).2 := by
  have h1 : Aside i w (((w.setOpenOf b rest).emit
      (.streamPriority (w.nextIdOf b) true)).advanceNextId b) := by
    cases b <;> exact ⟨rfl, .one (.inr hi.symm)⟩
  have ho := origin_beforeBuild h b rest
  cases b with
  | true =>
    exact (h1.trans (aside_buildRecv _ hi)).trans (aside_buildSend (ho.buildRecv _) hi none)
  | false => exact h1.trans (aside_buildSend ho hi none)

theorem openDeliver_moves (ho : Origin w) (hc : Counters w.oview) {b : Bool} {r : Nat}
    (rest : List Nat) (acts : List FrontAct) (i : Nat) :
    LifeMoves T w.isServer i w ((((w.opened b rest).2.fronts acts).setReply r
      (w.opened b rest).1).emit (.answer r none)) := by
  have ho1 := ho.opened b rest
  have h2 : LifeMoves T w.isServer i (w.opened b rest).2 ((w.opened b rest).2.fronts acts) :=
    front_moves ho1 (Face.fronts_rel acts _) i
  have h3 : Aside i ((w.opened b rest).2.fronts acts)
      ((((w.opened b rest).2.fronts acts).setReply r (w.opened b rest).1).emit
        (.answer r none)) := ⟨rfl, .one trivial⟩
  refine Relation.ReflTransGen.trans ?_ (h2.trans h3.moves)
  obtain ⟨hb, hl⟩ := hc.cls b
  by_cases hi : i = w.nextIdOf b
  · subst hi
    refine .single ?_
    cases b with
    | true =>
      rw [life_opened_bidi]
      exact .openBidi _ _ _ hl hb ho.freshCell
    | false =>
      rw [life_opened_uni]
      exact .openUni _ _ hl hb ho.freshCell
  · exact (aside_opened ho b rest hi).moves

theorem life_undeliver (w : World σ) (b : Bool) (id : Nat) (ans : Reply) :
    (w.undeliver b id ans).life id = ((w.dropAnswer ans).life id).undeliver id b := by
  cases b with
  | true =>
    simp only [undeliver, Life.undeliver, if_true]
    rw [life_emit, life_dropRecvEntry, life_emit, life_dropSendEntry]
  | false =>
    simp only [undeliver, Life.undeliver, Bool.false_eq_true, if_false]
    rw [life_emit, life_dropSendEntry]

theorem aside_undeliver (h : Origin w) {ans : Reply} (hm : Made id w.trace ans) (b : Bool)
    (hi : i ≠ id) : Aside i w (w.undeliver b id ans) := by
  have h1 := (aside_dropAnswer h hm hi).trans (aside_dropSendEntry (h.dropAnswer hm) hi)
  have h2 := h1.trans (.emit _ (.streamShutdown id .write h3RequestCancelled) hi.symm)
  cases b with
  | true => exact (h2.trans (aside_dropRecvEntry _ hi)).trans (.emit _ _ trivial)
  | false => exact h2

theorem opened_answer (w : World σ) (b : Bool) (rest : List Nat) :
    (w.opened b rest).1 = if b then .bidi w.sh.nextRecv w.sh.nextSend else .uni w.sh.nextSend := by
  cases b with
  | true =>
    simp only [opened, buildOpen, if_true, buildSend, buildRecv_nextSend]
    rfl
  | false => rfl

theorem openUndeliver_moves (ho : Origin w) (hc : Counters w.oview)
    (hcl : w.sh.cmdRxClosed = false) {b : Bool} (rest : List Nat) (acts : List FrontAct) (c : Ctl σ)
      (i : Nat) :
    LifeMoves T w.isServer i w (({ (w.opened b rest).2.fronts acts with ctl := c } :
      World σ).undeliver b (w.nextIdOf b) (w.opened b rest).1) := by
  have ho1 := ho.opened b rest
  have ho2 : Origin { (w.opened b rest).2.fronts acts with ctl := c } :=
    (ho1.fronts acts).still (.reg rfl rfl rfl)
  have hm2 : Made (w.nextIdOf b) ((w.opened b rest).2.fronts acts).trace (w.opened b rest).1 :=
    (opened_made w b rest).mono (Face.fronts_rel acts _).grows.subset
  obtain ⟨hb, hl⟩ : isBidi (w.nextIdOf b) = b ∧ serverInitiated (w.nextIdOf b) = w.isServer :=
    hc.cls b
  by_cases hi : i = w.nextIdOf b
  · subst hi
    obtain ⟨cs1, hf1, hl1⟩ := life_fronts ho1 acts (w.nextIdOf b)
    obtain ⟨cs2, hf2, hl2⟩ := life_dropAnswer ho2 hm2
    have hw : ({ (w.opened b rest).2.fronts acts with ctl := c } : World σ).life (w.nextIdOf b) =
        ((w.opened b rest).2.fronts acts).life (w.nextIdOf b) := rfl
    rw [hw, hl1] at hf2 hl2
    have hd := dropped_dropAnswer ({ (w.opened b rest).2.fronts acts with ctl := c } : World σ)
      (w.opened b rest).1
    have hans := opened_answer w b rest
    refine .single ?_
    rw [life_undeliver, hl2]
    have h1 : Life.Move w.isServer (w.nextIdOf b) (T.Accepts (w.nextIdOf b))
        (w.life (w.nextIdOf b)) _ :=
      .undeliver _ w.sh.nextRecv w.sh.nextSend (cs1 ++ cs2) _ hl ho.freshCell
        ((w.opened b rest).2.life (w.nextIdOf b)) ?_ (front_trans hf1 hf2) ?_ ?_ ?_
    · rw [hb] at h1
      have h3 : ∀ v : Life, ∀ tr tr', v.submit (cs1 ++ cs2) tr' =
        (v.submit cs1 tr).submit cs2 tr' :=
        fun v tr tr' => by simp only [Life.submit, List.append_assoc]
      rw [h3 _ ((w.opened b rest).2.fronts acts).trace] at h1
      exact h1
    · rw [hb]
      cases b with
      | true =>
        rw [life_opened_bidi]
        rfl
      | false =>
        rw [life_opened_uni]
        rfl
    · intro hbt
      rw [hb] at hbt
      subst hbt
      exact (hd.1 _ _ hans).1
    · cases b with
      | true => exact (hd.1 _ _ hans).2
      | false => exact hd.2 _ hans
    · have hcl1 : (w.opened b rest).2.sh.cmdRxClosed = false :=
        (congrArg OpenView.closed (opened_oview w b rest).1).trans hcl
      refine finished_dropAnswer ho2 hm2
        ((Face.fronts_rel acts _).closed.trans hcl1) ?_
      cases b with
      | true => exact .inl ⟨_, _, hans⟩
      | false => exact .inr ⟨_, hans⟩
  · have h1 : LifeMoves T w.isServer i w (w.opened b rest).2 := (aside_opened ho b rest hi).moves
    have h2 : LifeMoves T w.isServer i (w.opened b rest).2
        { (w.opened b rest).2.fronts acts with ctl := c } :=
      front_moves ho1 (Face.fronts_rel acts _) i
    exact (h1.trans h2).trans (aside_undeliver ho2 hm2 b hi).moves

/-! ## 6. The send direction -/

theorem LiveSend.isOpen {s : StreamSendState} (h : w.LiveSend id s) : s.Open :=
  ⟨h.terminal, h.pendingReset⟩

theorem sendEnd_moves (ho : Origin w) {s : StreamSendState} (hl : w.LiveSend id s) (e : SendEnd)
    (i : Nat) : LifeMoves T srv i w (w.sendTerminalTransition id e) := by
  refine LifeMoves.of_step id ?_ (fun j hj => aside_sendTerminalTransition ho hj e) i
  rw [life_sendTerminalTransition hl.entry hl.isOpen]
  exact .sendEnd _ s e _ hl.entry hl.isOpen (ho.setCell s.status e)

theorem resetEntry_moves (ho : Origin w) {code : Nat} (ha : .applied (.reset id code) ∈ w.trace)
    (i : Nat) : LifeMoves T srv i w (w.resetEntry id code) := by
  by_cases hi : i = id
  · subst hi
    cases hs : w.reg.send.lookup i with
    | none =>
      have : w.resetEntry i code = w := by simp only [resetEntry, hs]
      rw [this]
    | some s =>
      by_cases hx : s.pendingReset.isSome || s.terminal.isSome
      · have : w.resetEntry i code = w := by simp only [resetEntry, hs, hx, if_true]
        rw [this]
      · have hop : s.Open := by
          simp only [Bool.or_eq_true, not_or, Option.not_isSome_iff_eq_none] at hx
          exact ⟨hx.2, hx.1⟩
        refine .single ?_
        rw [life_resetEntry hs hop]
        exact .resetEntry _ s code _ hs hop ha (ho.setCell s.status (.reset code))
  · exact (aside_resetEntry ho hi code).moves

theorem resetTurn_moves {s : StreamSendState} {code : Nat} {rest : OnceQueue Nat}
    (hq : w.reg.runnableSend.pop = some (id, rest)) (hs : w.reg.send.lookup id = some s)
    (hp : s.pendingReset = some code) (i : Nat) :
    LifeMoves T srv i w
      (({ w with reg.runnableSend := rest }.emit (.turn id)).resetTurn id code s) := by
  refine LifeMoves.of_step id ?_ (fun j hj => ?_) i
  · unfold resetTurn
    rw [life_markSendDone, life_emit, life_putSend, life_turn hq]
    exact .resetTurn _ s code hs hp
  · have h1 := ((aside_turn hq hj).trans (aside_putSend _ hj { s with pendingReset := none })).trans
      (.emit _ (.streamShutdown id .write code) hj.symm)
    exact h1.trans ((aside_done hj).markSendDone _)

/-- An offer that was taken, and the entry after it. -/
theorem offered_moves {data : Bytes} {fin : Bool} {n : Nat} {s' : StreamSendState}
    (hm : Life.Move srv id (T.Accepts id) (w.life id) ((w.life id).offered id data fin n s'))
    (i : Nat) :
    LifeMoves T srv i w ((w.emit (.streamSend id data fin (.ok n))).putSend id s') := by
  refine LifeMoves.of_step id ?_ (fun j hj => ?_) i
  · rw [life_putSend]
    exact hm
  · have h1 : Aside j w (w.emit (.streamSend id data fin (.ok n))) := .emit _ _ hj.symm
    exact h1.trans (aside_putSend _ hj s')

theorem flushFin_moves (ho : Origin w) {s : StreamSendState} {buf : WriteBuf} {n t : Nat}
    {ops : List SendOp} {c : σ} (hl : w.LiveSend id s) (hh : s.held = some buf)
    (hr : buf.hasRemaining = true) (hop : s.sendOps = .finish t :: ops)
    (hn : (T.streamSend c id buf.offered (buf.offerFin true)).1 = .ok n)
    (hm : (buf.advance n).hasRemaining = false) (i : Nat) :
    LifeMoves T srv i w (((w.emit (.streamSend id buf.offered (buf.offerFin true)
      (.ok n))).putSend id { s with held := none }).completeFinishOp id) := by
  refine LifeMoves.of_step id ?_ (fun j hj => ?_) i
  · rw [life_completeFinishOp, life_putSend]
    exact .flushFin _ s buf n t ops hl.entry hl.isOpen hh hr hop ⟨c, _, hn⟩ hm
  · have h1 : Aside j w (w.emit (.streamSend id buf.offered (buf.offerFin true) (.ok n))) :=
      .emit _ _ hj.symm
    have ho1 := ho.still (.emit w (.streamSend id buf.offered (buf.offerFin true) (.ok n)) trivial)
    have hin : Inherits s { s with held := none } := .of_subset rfl (List.Subset.refl _)
    exact (h1.trans (aside_putSend _ hj _)).trans
      (aside_completeFinishOp (ho1.still (putSend_still hl.entry hin)) hj)

theorem emptyFin_moves (ho : Origin w) {s : StreamSendState} {buf : WriteBuf} {t : Nat}
    {ops : List SendOp} (hl : w.LiveSend id s) (hh : s.held = some buf)
    (hr : buf.hasRemaining = false) (hop : s.sendOps = .finish t :: ops) (i : Nat) :
    LifeMoves T srv i w ((w.putSend id { s with held := none }).completeFinishOp id) := by
  refine LifeMoves.of_step id ?_ (fun j hj => ?_) i
  · rw [life_completeFinishOp, life_putSend]
    exact .emptyFin _ s buf t ops hl.entry hl.isOpen hh hr hop
  · have hin : Inherits s { s with held := none } := .of_subset rfl (List.Subset.refl _)
    exact (aside_putSend w hj _).trans
      (aside_completeFinishOp (ho.still (putSend_still hl.entry hin)) hj)

theorem loneFin_moves (ho : Origin w) {s : StreamSendState} {n t : Nat} {ops : List SendOp} {c : σ}
    (hl : w.LiveSend id s) (hh : s.held = none) (hop : s.sendOps = .finish t :: ops)
    (hn : (T.streamSend c id [] true).1 = .ok n) (i : Nat) :
    LifeMoves T srv i w ((w.emit (.streamSend id [] true (.ok n))).completeFinishOp id) := by
  refine LifeMoves.of_step id ?_ (fun j hj => ?_) i
  · rw [life_completeFinishOp, life_emit]
    exact .loneFin _ s n t ops hl.entry hl.isOpen hh hop ⟨c, _, hn⟩
  · have h1 : Aside j w (w.emit (.streamSend id [] true (.ok n))) := .emit _ _ hj.symm
    exact h1.trans (aside_completeFinishOp (ho.still (.emit w _ trivial)) hj)

theorem hold_moves (ho : Origin w) {s : StreamSendState} {buf : WriteBuf} {t : Nat}
    {p : Option Nat} {ops : List SendOp} (hl : w.LiveSend id s) (hh : s.held = none)
    (hop : s.sendOps = .write buf t p :: ops) (hr : 0 < buf.remaining) (i : Nat) :
    LifeMoves T srv i w ((w.completeOp (.write buf t p) (.ok ())).putSend id
      { s with sendOps := ops, held := some buf }) := by
  refine LifeMoves.of_step id ?_ (fun j hj => ?_) i
  · rw [life_putSend, life_completeOp]
    exact .hold _ s buf t p ops hl.entry hl.isOpen hh hop hr
  · have hf := ho.foreign_op hj hl.entry (hop ▸ List.mem_cons_self)
    exact (aside_completeOp w hf (.ok ())).trans (aside_putSend _ hj _)

theorem accept_moves (ho : Origin w) {s : StreamSendState} {buf : WriteBuf} {t : Nat}
    {p : Option Nat} {ops : List SendOp} {n : Nat} {c : σ} (hl : w.LiveSend id s)
    (hh : s.held = none) (hop : s.sendOps = .write buf t p :: ops)
    (hr : buf.hasRemaining = true) (hn : (T.streamSend c id buf.offered false).1 = .ok n)
    (hm : (buf.advance n).hasRemaining = false) (i : Nat) :
    LifeMoves T srv i w (((w.emit (.streamSend id buf.offered false (.ok n))).putSend id
      { s with sendOps := ops }).completeOp (.write (buf.advance n) t p) (.ok ())) := by
  refine LifeMoves.of_step id ?_ (fun j hj => ?_) i
  · rw [life_completeOp, life_putSend]
    exact .accept _ s buf t p ops n hl.entry hl.isOpen hh hop hr ⟨c, _, hn⟩ hm
  · have h1 : Aside j w (w.emit (.streamSend id buf.offered false (.ok n))) := .emit _ _ hj.symm
    have hf : ¬ Submitted (SendOp.write (buf.advance n) t p).tok j
        ((w.emit (.streamSend id buf.offered false (.ok n))).putSend id
          { s with sendOps := ops }).trace := by
      have hf0 := ho.foreign_op hj hl.entry (hop ▸ List.mem_cons_self)
      rintro ⟨cmd, hc, ht, hid⟩
      exact hf0 ⟨cmd, by simpa [putSend, emit, Face.emit] using hc, ht, hid⟩
    exact (h1.trans (aside_putSend _ hj _)).trans (aside_completeOp _ hf (.ok ()))

theorem skipWrite_moves (ho : Origin w) {s : StreamSendState} {buf : WriteBuf} {t : Nat}
    {p : Option Nat} {ops : List SendOp} (hl : w.LiveSend id s) (hh : s.held = none)
    (hop : s.sendOps = .write buf t p :: ops) (hr : buf.hasRemaining = false) (i : Nat) :
    LifeMoves T srv i w ((w.putSend id { s with sendOps := ops }).completeOp
      (.write buf t p) (.ok ())) := by
  refine LifeMoves.of_step id ?_ (fun j hj => ?_) i
  · rw [life_completeOp, life_putSend]
    exact .skipWrite _ s buf t p ops hl.entry hl.isOpen hh hop hr
  · have hf : ¬ Submitted (SendOp.write buf t p).tok j
      (w.putSend id { s with sendOps := ops }).trace :=
      ho.foreign_op hj hl.entry (hop ▸ List.mem_cons_self)
    exact (aside_putSend w hj _).trans (aside_completeOp _ hf (.ok ()))

/-! ## 7. Commands -/

theorem Popped.life {cmd : DriverCommand} (hp : w.Popped cmd w') (i : Nat) :
    ∃ rest, w'.life i = { w.life i with cmds := rest } ∧ w'.trace = w.trace ∧
      (w.life i).cmds = if cmd.streamId = some i then cmd :: rest else rest := by
  cases hp with
  | @inbox rest h =>
    refine ⟨(rest ++ w.sh.cmdRx).filter fun c => c.streamId = some i, rfl, rfl, ?_⟩
    simp only [World.life, h, List.cons_append, List.filter_cons, decide_eq_true_eq]
  | @channel rest h0 h =>
    refine ⟨(w.inbox ++ rest).filter fun c => c.streamId = some i, rfl, rfl, ?_⟩
    simp only [World.life, h0, h, List.nil_append, List.filter_cons, decide_eq_true_eq]

/-- A command of another stream, or of none. -/
theorem Popped.moves {cmd : DriverCommand} (hp : w.Popped cmd w') (hi : cmd.streamId ≠ some i) :
    LifeMoves T srv i w (w'.emit (.applied cmd)) := by
  obtain ⟨rest, h1, h2, h3⟩ := hp.life i
  rw [if_neg hi] at h3
  refine Aside.moves ⟨?_, ?_⟩
  · rw [life_emit, h1]
    have ht : (w'.emit (.applied cmd)).trace = .applied cmd :: w.trace := by rw [← h2]; rfl
    simp only [Life.emit, ← h3, ht]
    rfl
  · change Grows _ w.trace (.applied cmd :: w'.trace)
    rw [h2]
    exact .one hi

/-- A command of the stream itself, up to its record. -/
theorem Popped.own {cmd : DriverCommand} (hp : w.Popped cmd w') (hi : cmd.streamId = some i) :
    ∃ rest, (w.life i).cmds = cmd :: rest ∧
      (w'.emit (.applied cmd)).life i = (w.life i).pop cmd rest := by
  obtain ⟨rest, h1, h2, h3⟩ := hp.life i
  rw [if_pos hi] at h3
  refine ⟨rest, h3, ?_⟩
  rw [life_emit, h1]
  rfl

theorem clean_moves (w : World σ) (i : Nat) :
    LifeMoves T srv i w (w.cleanUndeliveredPeerStreams T) := by
  obtain ⟨park, h1, h2, h3, h5, h4⟩ := life_cleanAllParked (T := T) w i
  obtain ⟨pend, k1, k2, k3, k5, k4⟩ := life_cleanAllPending (T := T) (w.cleanAllParked T) i
  rw [h2] at k1 k2
  refine .single ?_
  have hg := h3.trans (k3.mono (passing_anti h3.subset))
  have hn : park = false → pend = false → Grows (Event.foreign i w.trace) w.trace _ :=
    fun hx hy => (h5 hx).trans ((k5 hy).mono (foreign_anti h3.subset))
  have hm : Life.Move srv i (T.Accepts i) (w.life i) _ := .clean _ _ hg park pend hn h1 k1 ?_
  · refine Eq.mp (congrArg (Life.Move srv i _ _) ?_) hm
    exact k2.symm
  · rintro (hp | hp)
    · obtain ⟨s1, s2⟩ := h4 hp
      exact ⟨k3.subset s1, fun hb => k3.subset (s2 hb)⟩
    · exact k4 hp

theorem apply_moves (ho : Origin w) {cmd : DriverCommand} (hp : w.Popped cmd w') (i : Nat) :
    LifeMoves T srv i w (w'.applyNow T cmd) := by
  obtain ⟨ho1, hcmd⟩ := hp.origin ho
  have ho2 := ho1.emitApplied hcmd
  have hfresh : FreshCell w'.sh.nextSend w.trace := by
    have := ho1.freshCell
    rwa [show w'.trace = w.trace by cases hp <;> rfl] at this
  -- another stream sees the record and then what the application does aside
  have haside : cmd.streamId ≠ some i → Aside i (w'.emit (.applied cmd)) (w'.applyNow T cmd) →
      LifeMoves T srv i w (w'.applyNow T cmd) := fun hi ha => (hp.moves hi).trans ha.moves
  have hforeign : ∀ id t, cmd.streamId = some id → cmd.tok = some t → i ≠ id →
      ¬ Submitted t i (w'.emit (.applied cmd)).trace := by
    intro id t hid ht hi hsub
    exact hi (ho2.face.tokInj t i id hsub ⟨cmd, List.mem_cons_of_mem _ hcmd.1, ht, hid⟩)
  have hne : ∀ id, i ≠ id → some id ≠ some i := fun id hi h => hi (Option.some.inj h).symm
  cases cmd with
  | recvResume id =>
    by_cases hi : i = id
    · subst hi
      obtain ⟨rest, hc, hl⟩ := hp.own rfl
      refine .single ?_
      have h1 : (w'.applyNow T (.recvResume i)).life i =
          { (w'.emit (.applied (.recvResume i))).life i with resume := true } := by
        simp only [applyNow, life, Registry.enqueueResume, OnceQueue.has_push_self]
        rfl
      rw [h1, hl]
      exact .applyResume _ rest hc
    · refine haside (hne id hi) (.same ?_)
      simp only [applyNow, life, Registry.enqueueResume, OnceQueue.has_push_ne _ hi]
      rfl
  | send id buf t p =>
    by_cases hi : i = id
    · subst hi
      obtain ⟨rest, hc, hl⟩ := hp.own rfl
      refine .single ?_
      simp only [applyNow, life_enqueueSendOp, hl]
      exact .applySend _ buf t p rest _ hc hfresh
    · exact haside (hne id hi) (aside_enqueueSendOp _ hi (hforeign id t rfl rfl hi))
  | finish id t =>
    by_cases hi : i = id
    · subst hi
      obtain ⟨rest, hc, hl⟩ := hp.own rfl
      refine .single ?_
      simp only [applyNow, life_enqueueSendOp, hl]
      exact .applyFinish _ t rest _ hc hfresh
    · exact haside (hne id hi) (aside_enqueueSendOp _ hi (hforeign id t rfl rfl hi))
  | reset id code =>
    by_cases hi : i = id
    · subst hi
      obtain ⟨rest, hc, hl⟩ := hp.own rfl
      refine .single ?_
      simp only [applyNow, life_ensureSend, hl]
      exact .applyReset _ code rest _ hc hfresh
    · exact haside (hne id hi) (aside_ensureSend _ hi)
  | stopSending id code =>
    by_cases hi : i = id
    · subst hi
      obtain ⟨rest, hc, hl⟩ := hp.own rfl
      refine .single ?_
      simp only [applyNow, life_markRecvDone]
      rw [life_emit, hl]
      exact .applyStop _ code rest hc
    · refine haside (hne id hi) ?_
      have h1 : Aside i (w'.emit (.applied (.stopSending id code)))
        ((w'.emit (.applied (.stopSending id code))).emit (.streamShutdown id .read code)) :=
        .emit _ _ trivial
      exact h1.trans (aside_markRecvDone (ho2.still (.emit _ _ trivial)) hi)
  | connectionDropped => exact (hp.moves (by simp [DriverCommand.streamId])).trans (clean_moves _ i)
  | _ => exact haside (by simp [DriverCommand.streamId]) (.same rfl)

/-! ## 8. The steps -/

theorem foreign_of_isProbe {e : Event} (h : e.isProbe) (i : Nat) (tr : List Event) :
    e.foreign i tr := by
  cases e with
  | writableNext id t => cases t <;> first | exact .inl rfl | exact h.elim
  | streamPriority id ok => cases ok <;> first | exact .inl rfl | exact h.elim
  | _ => trivial

/-- What the worker knows of a world that every step keeps. -/
structure Sound (w : World σ) : Prop where
  peers : PeersOk w.reg
  origin : Origin w
  recv : RecvInv w.rview
  counters : Counters w.oview
  listening : w.sh.cmdRxClosed = false

theorem sound_step (hs : Step T w w') (h : Sound w) : Sound w' where
  peers := peersOk_step hs h.peers
  origin := origin_step hs h.peers h.origin
  recv := h.recv.moves (recvMoves_step hs h.peers)
  counters := h.counters.moves (openMoves_step hs)
  listening := (openMoves_step hs).fixed.2.trans h.listening

theorem sound_steps (hs : Steps T w w') (h : Sound w) : Sound w' := by
  induction hs with
  | refl => exact h
  | tail _ hstep ih => exact sound_step hstep ih

/-- **Every step moves every stream.** -/
theorem life_step (hs : Step T w w') (h : Sound w) (i : Nat) :
    LifeMoves T w.isServer i w w' := by
  have ho := h.origin
  cases hs with
  | front a => exact front_moves ho (Face.front_rel w.toFace a) i
  | probe e he => exact emit_moves w (foreign_of_isProbe he i w.trace)
  | readable id => exact readable_moves w id i
  | requeue id j hr => exact requeueReadable_moves hr i
  | popResume id j rest hp hr =>
    have h1 : LifeMoves T w.isServer i w { w with reg.pendingResume := rest } :=
      popResume_moves hp i
    have h2 : Aside i { w with reg.pendingResume := rest }
      ((({ w with reg.pendingResume := rest } : World σ).modRecv j
        fun r => { r with resume := false }).emit (.drain j)) := ⟨rfl, .one trivial⟩
    exact h1.trans h2.moves
  | skipResume id rest hp hr => exact popResume_moves hp i
  | popReadable id j rest hp hr =>
    have h1 : LifeMoves T w.isServer i w { w with reg.pendingReadable := rest } :=
      popReadable_moves hp i
    exact h1.trans (emit_moves _ trivial)
  | skipReadable id rest hp hr => exact popReadable_moves hp i
  | drain id j hr => exact emit_moves w trivial
  | reserve id j hr hg hf =>
    exact Aside.moves ⟨rfl, .one trivial⟩
  | park id j acts hr hl w1 hw1 hf =>
    subst hw1
    have ho1 := ho.still (.modRecv w j (fun r => { r with blocked := true }) (fun _ => rfl)
      (fun _ => rfl) fun _ => rfl)
    have h1 : LifeMoves T w.isServer i w (w.modRecv j fun r => { r with blocked := true }) :=
      (Aside.same rfl).moves
    have h2 := h1.trans (front_moves ho1 (Face.fronts_rel acts _) i)
    exact h2.trans (emit_moves _ trivial)
  | readErr id j err hr hp =>
    have h1 : Aside i w (w.emit (.streamRecv id (.error err))) := .emit _ _ trivial
    have h2 : Aside i (w.emit (.streamRecv id (.error err)))
      ((w.emit (.streamRecv id (.error err))).permitDrop j) := ⟨rfl, .one trivial⟩
    exact (h1.trans h2).moves
  | readOk id j chunk fin hr hp =>
    have h1 : Aside i w (w.emit (.streamRecv id (.ok (chunk, fin)))) := .emit _ _ trivial
    have h2 : Aside i (w.emit (.streamRecv id (.ok (chunk, fin))))
        ((w.emit (.streamRecv id (.ok (chunk, fin)))).placeChunk j chunk) := by
      unfold placeChunk
      split <;> exact ⟨rfl, .one trivial⟩
    exact (h1.trans h2).moves
  | recvEnd id j e hr hf => exact recvEnd_moves ho h.recv hr i
  | abandon id j hr hg => exact abandon_moves ho hr h.recv hg i
  | forgetRecv id j hr hl => exact forgetRecv_moves w id i
  | stalePending b id rest hq hs => exact stalePending_moves hq hs i
  | lostPending b id rest hq hp => exact lostPending_moves hq hp i
  | skipParked b id rest hq ha => exact skipParked_moves hq ha i
  | admitBidi b id p r acts ht hb => exact admitBidi_moves ho acts ht (ht.peerOk h.peers) hb i
  | admitUni b id p r acts ht hb => exact admitUni_moves ho acts ht (ht.peerOk h.peers) hb i
  | repark b front id p r ht => exact repark_moves ht i
  | tear b id p r ht => exact tear_moves ht (ht.peerOk h.peers).1 i
  | settle id =>
    refine LifeMoves.of_step id ?_ (fun j hj => (aside_done hj).terminalTransition w) i
    rw [life_terminalTransition]
    exact .settle _
  | acceptFlag b | skipOpen b => cases b <;> exact (Aside.same rfl).moves
  | failOpen b r rest t hq hw =>
    cases b <;> exact Aside.moves ⟨rfl, .one trivial⟩
  | openDeliver b r rest acts hq w1 hw1 hw =>
    subst hw1
    exact openDeliver_moves ho h.counters rest acts i
  | openUndeliver b r rest acts c hq w1 hw1 hw =>
    subst hw1
    exact openUndeliver_moves ho h.counters h.listening rest acts c i
  | discover id ans hu => exact discover_moves hu i
  | mergePending id ans p hs hp =>
    refine LifeMoves.of_step id ?_ (fun j hj => ?_) i
    · refine Eq.mpr (congrArg (Life.Move _ id _ _)
        (life_insertPending (w.emit (.streamCapacity id ans)) id _)) ?_
      exact .mergePending _ ans p hs hp
    · have h1 : Aside j w (w.emit (.streamCapacity id ans)) := .emit _ _ (Ne.symm hj)
      exact h1.trans (aside_insertPending _ hj _)
  | mergeParked id ans p hs ha =>
    refine LifeMoves.of_step id ?_ (fun j hj => ?_) i
    · refine Eq.mpr (congrArg (Life.Move _ id _ _)
        (life_insertAdmit (w.emit (.streamCapacity id ans)) id _)) ?_
      exact .mergeParked _ ans p hs ha
    · have h1 : Aside j w (w.emit (.streamCapacity id ans)) := .emit _ _ (Ne.symm hj)
      exact h1.trans (aside_insertAdmit _ hj _)
  | capacity id ans hs =>
    refine LifeMoves.of_step id ?_ (fun j hj => .emit _ (.streamCapacity id ans) hj.symm) i
    exact .capacity _ ans hs
  | markRunnable id hs => exact markRunnable_moves hs i
  | popRunnable id rest hp hn => exact popRunnable_moves hp hn i
  | sendErr id s data fin err hl hop =>
    refine LifeMoves.of_step id ?_ (fun j hj => .emit _ (.streamSend id data fin (.error err))
      hj.symm) i
    exact .sendErr _ s data fin err hl.entry hl.isOpen hop
  | flush id s buf fin n c hl hh hr hf hn hm =>
    exact offered_moves (.flush _ s buf fin n hl.entry hl.isOpen hh hr hf ⟨c, _, hn⟩ hm) i
  | flushFin id s buf n t ops c hl hh hr hop hn hm => exact flushFin_moves ho hl hh hr hop hn hm i
  | emptyHeld id s buf hl hh hr =>
    refine LifeMoves.of_step id ?_ (fun j hj => aside_putSend w hj _) i
    rw [life_putSend]
    exact .emptyHeld _ s buf hl.entry hl.isOpen hh hr
  | emptyFin id s buf t ops hl hh hr hop => exact emptyFin_moves ho hl hh hr hop i
  | loneFin id s n t ops c hl hh hop hn => exact loneFin_moves ho hl hh hop hn i
  | hold id s buf t p ops hl hh hop hr => exact hold_moves ho hl hh hop hr i
  | offer id s buf t p ops n c hl hh hop hr hn hm =>
    exact offered_moves (.offer _ s buf t p ops n hl.entry hl.isOpen hh hop hr ⟨c, _, hn⟩ hm) i
  | accept id s buf t p ops n c hl hh hop hr hn hm => exact accept_moves ho hl hh hop hr hn hm i
  | skipWrite id s buf t p ops hl hh hop hr => exact skipWrite_moves ho hl hh hop hr i
  | sendEnd id s e hl => exact sendEnd_moves ho hl e i
  | resetTurn id code s rest hq hs hp => exact resetTurn_moves hq hs hp i
  | apply w1 cmd hp => exact apply_moves ho hp i
  | resetEntry id code ha => exact resetEntry_moves ho ha i
  | toInbox cmd rest hc =>
    refine (Aside.same ?_).moves
    simp only [life, hc, List.append_assoc, List.singleton_append]
  | _ => exact (Aside.same rfl).moves

/-- Along a sequence of steps. -/
theorem life_steps (hs : Steps T w w') (h : Sound w) (i : Nat) :
    LifeMoves T w.isServer i w w' := by
  induction hs with
  | refl => exact .refl
  | @tail w1 w2 hs hstep ih =>
    have hsrv : w1.isServer = w.isServer := isServer_steps hs
    exact ih.trans (hsrv ▸ life_step hstep (sound_steps hs h) i)

/-- The history only grows. -/
theorem suffix_steps (hs : Steps T w w') (h : Sound w) : w.trace <:+ w'.trace :=
  Life.Moves.suffix (life_steps hs h 0)

end World

end QuicheH3
