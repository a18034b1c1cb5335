/-
# Every run is a sequence of steps

One lemma per function of the worker: what it does is a sequence of atomic steps.  The guards
of the later steps of a function are facts its earlier checks established; a batch of front-end
actions in between cannot undo them, since it leaves the registries alone (`interleave_reg`)
and keeps to `FrontRel`.

The proofs follow the code.  A loop with a budget is an induction over what is left of the budget,
a function with early returns is one case per return, and where a guard is known to hold there is a
definition that says so (`Visiting` while a stream is drained, `Popped` for a command in hand).
Later modules never look into a function again: an invariant of one step is one of every run
(`run_steps`).

Contents
  1  giving way to the other tasks
  2  drains, 3 admission, 4 opening, 5 the send stage, 6 the writable scan
  7  commands
  8  the callbacks, and whole runs
-/
import QuicheH3.Driver.Steps

namespace QuicheH3

open Lib Relation

namespace World

variable {σ : Type} {T : QuicConn σ} {w : World σ}

/-! ## 1. Giving way to the other tasks -/

theorem Steps.one {w' : World σ} (h : Step T w w') : Steps T w w' := .single h

theorem ctl_steps (w : World σ) (c : Ctl σ) : Steps T w { w with ctl := c } := .one (.ctl w c)

theorem fronts_steps : ∀ (acts : List FrontAct) (w : World σ), Steps T w (w.fronts acts)
  | [], _ => .refl
  | a :: acts, w => .head (.front w a) (fronts_steps acts (w.front a))

/-- `interleave` is a batch of front-end actions and a shorter script. -/
theorem interleave_eq (w : World σ) :
    ∃ acts c, w.interleave = { w.fronts acts with ctl := c } := ⟨_, _, rfl⟩

theorem interleave_steps (w : World σ) : Steps T w w.interleave := by
  obtain ⟨acts, c, h⟩ := w.interleave_eq
  rw [h]
  exact (fronts_steps acts w).trans (ctl_steps _ c)

@[simp] theorem interleave_reg (w : World σ) : w.interleave.reg = w.reg := rfl

theorem interleave_rel (w : World σ) : FrontRel w.toFace w.interleave.toFace := by
  obtain ⟨acts, c, h⟩ := w.interleave_eq
  rw [h]
  exact Face.fronts_rel acts w.toFace

theorem interleave_setReg (w : World σ) (r : Registry) :
    { w with reg := r }.interleave = { w.interleave with reg := r } := rfl

theorem interleave_setOpenOf (w : World σ) (bidi : Bool) (q : List Nat) :
    (w.setOpenOf bidi q).interleave = w.interleave.setOpenOf bidi q := by
  cases bidi <;> rfl

@[simp] theorem interleave_openOf (w : World σ) (bidi : Bool) :
    w.interleave.openOf bidi = w.openOf bidi := rfl

theorem lastRead_interleave (w : World σ) (id : Nat) :
    lastRead id w.interleave.trace = lastRead id w.trace :=
  (blind_lastRead id).grows w.interleave_rel.grows

/-! ## 2. Drains -/

/-- The worker is at half `h` of the registered stream `id`. -/
structure Visiting (w : World σ) (id h : Nat) : Prop where
  entry : w.reg.recv.lookup id = some h
  away : leftFull h w.trace = false

theorem Visiting.interleave {id h : Nat} (hv : w.Visiting id h) : w.interleave.Visiting id h :=
  ⟨by simpa using hv.entry, ((blind_leftFull h).grows w.interleave_rel.grows).trans hv.away⟩

theorem storeBlocked_eq {id h : Nat} (b : Bool) (hv : w.reg.recv.lookup id = some h) :
    w.storeBlocked id b = w.interleave.modRecv h fun r => { r with blocked := b } := by
  simp only [storeBlocked, interleave_reg, hv]

theorem storeBlocked_steps {id h : Nat} (b : Bool) (hv : w.Visiting id h) :
    Steps T w (w.storeBlocked id b) ∧ (w.storeBlocked id b).Visiting id h := by
  have hi := hv.interleave
  rw [storeBlocked_eq b hv.entry]
  exact ⟨(interleave_steps w).tail (.setBlocked _ id h b hi.entry hi.away), hi.entry, hi.away⟩

/-- The three answers of `try_reserve`. -/
theorem tryReserve_cases (w : World σ) (h : Nat) :
    (w.tryReserve h = (.closed, w.interleave) ∧ (w.interleave.sh.recvHalves h).holder = .gone) ∨
    (w.tryReserve h = (.permit,
        (w.interleave.modRecv h fun r => { r with permit := true }).emit (.reserve h)) ∧
      (w.interleave.sh.recvHalves h).holder ≠ .gone ∧
      (w.interleave.sh.recvHalves h).bytes.length < (w.interleave.sh.recvHalves h).depth) ∨
    (w.tryReserve h = (.full, w.interleave) ∧
      (w.interleave.sh.recvHalves h).depth ≤ (w.interleave.sh.recvHalves h).bytes.length) := by
  unfold tryReserve
  dsimp only
  split
  · rename_i hg
    exact .inl ⟨rfl, hg⟩
  · rename_i hg
    split
    · rename_i hf
      exact .inr (.inl ⟨rfl, hg, hf⟩)
    · rename_i hf
      exact .inr (.inr ⟨rfl, not_lt.mp hf⟩)

/-- What a drain knows after it asked for a slot. -/
def Reserved (T : QuicConn σ) (w : World σ) (id h : Nat) : TryReserve × World σ → Prop
  | (.permit, w') => Steps T w w' ∧ w'.Visiting id h ∧ (w'.sh.recvHalves h).permit = true
  | (.closed, w') =>
    Steps T w w' ∧ w'.Visiting id h ∧ (w'.sh.recvHalves h).holder = .gone
  | (.full, w') => Steps T w w'

theorem reserve_steps {id h : Nat} (hv : w.Visiting id h)
    (hg : (w.interleave.sh.recvHalves h).holder ≠ .gone)
    (hf : (w.interleave.sh.recvHalves h).bytes.length < (w.interleave.sh.recvHalves h).depth) :
    Reserved T w id h
      (.permit, (w.interleave.modRecv h fun r => { r with permit := true }).emit (.reserve h)) := by
  have hi := hv.interleave
  refine ⟨(interleave_steps w).tail (.reserve _ id h hi.entry hg hf), ⟨hi.entry, hi.away⟩, ?_⟩
  simp [modRecv, Face.modRecv, emit, Face.emit]

theorem reserveOrPark_steps {id h : Nat} (hv : w.Visiting id h) :
    Reserved T w id h (w.reserveOrPark id h) := by
  unfold reserveOrPark
  rcases w.tryReserve_cases h with ⟨he, hg⟩ | ⟨he, hg, hf⟩ | ⟨he, hf⟩
  · rw [he]
    exact ⟨interleave_steps w, hv.interleave, hg⟩
  · rw [he]
    exact reserve_steps hv hg hf
  · rw [he]
    dsimp only
    have hi := hv.interleave
    obtain ⟨hs, hb⟩ := storeBlocked_steps (T := T) true hi
    have hs := (interleave_steps w).trans hs
    rcases (w.interleave.storeBlocked id true).tryReserve_cases h with
      ⟨he', hg'⟩ | ⟨he', hg', hf'⟩ | ⟨he', hf'⟩
    · rw [he']
      exact ⟨hs.trans (interleave_steps _), hb.interleave, hg'⟩
    · rw [he']
      obtain ⟨h1, h2, h3⟩ := reserve_steps (T := T) hb hg' hf'
      obtain ⟨h4, h5⟩ := storeBlocked_steps (T := T) false h2
      refine ⟨(hs.trans h1).trans h4, h5, ?_⟩
      rw [storeBlocked_eq false h2.entry]
      simp only [modRecv, Face.modRecv, Function.update_self]
      exact ((interleave_rel _).permit h).trans h3
    · rw [he']
      -- the batches between the store and the second look belong to one step
      rw [storeBlocked_eq true hi.entry] at hf' ⊢
      have hi' := hi.interleave
      obtain ⟨acts, c, ha⟩ := ((w.interleave.interleave.modRecv h
        fun r => { r with blocked := true }).interleave_eq)
      rw [ha] at hf' ⊢
      have h1 := (interleave_steps (T := T) w).trans (interleave_steps w.interleave)
      exact (h1.tail (.park _ id h acts hi'.entry hi'.away _ rfl hf')).tail (.ctl _ c)

theorem seal_steps {id h : Nat} (e : RecvEnd) (hr : w.reg.recv.lookup id = some h)
    (hf : e = .fin → ∃ chunk, lastRead id w.trace = some (.ok (chunk, true))) :
    Steps T w ((w.interleave.publishRecvTerminal id e).markRecvDone id) := by
  have he : w.interleave.publishRecvTerminal id e = w.interleave.setRecvCell h e := by
    simp only [publishRecvTerminal, interleave_reg, hr]
  rw [he]
  refine (interleave_steps w).tail (.recvEnd _ id h e hr fun hfin => ?_)
  rw [lastRead_interleave]
  exact hf hfin

theorem recvError_steps {id h : Nat} (err : QuicheError) (hv : w.Visiting id h) :
    Steps T w (w.recvError id err) := by
  unfold recvError
  split
  · exact .refl
  · exact seal_steps _ hv.entry (by simp)
  · unfold resolveRecvViaConn
    split
    · exact seal_steps _ hv.entry (by simp)
    · exact .one (.forgetRecv w id h hv.entry hv.away)
  · exact seal_steps _ hv.entry (by simp)

/-- The half is visited still, and its permit is spent, after a read that placed a chunk. -/
theorem Visiting.placeChunk {id h : Nat} (hv : w.Visiting id h) (chunk : Bytes) (fin : Bool) :
    ((w.emit (.streamRecv id (.ok (chunk, fin)))).placeChunk h chunk).Visiting id h := by
  unfold World.placeChunk
  split <;> exact ⟨hv.entry, hv.away⟩

theorem lastRead_placeChunk (w : World σ) (id h : Nat) (chunk : Bytes) (fin : Bool) :
    lastRead id ((w.emit (.streamRecv id (.ok (chunk, fin)))).placeChunk h chunk).trace =
      some (.ok (chunk, fin)) := by
  unfold World.placeChunk
  split <;> simp [permitSend, permitDrop, emit, Face.emit, modRecv, Face.modRecv, lastRead]

/-- A read whose answer is there: the chunk, the budget, and the FIN. -/
theorem recvChunk_steps {id h : Nat} (chunk : Bytes) (fin : Bool) (hv : w.Visiting id h)
    (hp : (w.sh.recvHalves h).permit = true) :
    Steps T w ((w.emit (.streamRecv id (.ok (chunk, fin)))).recvChunk id h chunk fin) ∧
    (fin = false →
      ((w.emit (.streamRecv id (.ok (chunk, fin)))).recvChunk id h chunk fin).Visiting id h) := by
  have h1 := Step.readOk (T := T) w id h chunk fin hv.entry hp
  have hv1 := hv.placeChunk chunk fin
  have hl := lastRead_placeChunk w id h chunk fin
  obtain ⟨c, hc⟩ : ∃ c, (w.emit (.streamRecv id (.ok (chunk, fin)))).recvChunk id h chunk fin =
      (if fin then
        ({ (w.emit (.streamRecv id (.ok (chunk, fin)))).placeChunk h chunk with
          ctl := c }.interleave.publishRecvTerminal id .fin).markRecvDone id
      else { (w.emit (.streamRecv id (.ok (chunk, fin)))).placeChunk h chunk with ctl := c }) := by
    by_cases hch : chunk ≠ []
    · simp only [recvChunk, World.placeChunk, if_pos hch]
      exact ⟨_, rfl⟩
    · simp only [recvChunk, World.placeChunk, if_neg hch]
      exact ⟨w.ctl, rfl⟩
  rw [hc]
  generalize (w.emit (.streamRecv id (.ok (chunk, fin)))).placeChunk h chunk = w1 at h1 hv1 hl ⊢
  have h2 := (Steps.one h1).trans (ctl_steps w1 c)
  cases fin with
  | false => exact ⟨h2, fun _ => ⟨hv1.entry, hv1.away⟩⟩
  | true =>
    rw [if_pos rfl]
    exact ⟨h2.trans (seal_steps .fin hv1.entry fun _ => ⟨chunk, hl⟩), by simp⟩

theorem requeueAndIterate_steps {id h : Nat} (hv : w.reg.recv.lookup id = some h) :
    Steps T w (w.requeueAndIterate id) :=
  (Steps.one (.requeue w id h hv)).trans (ctl_steps _ _)

/-- A read gives some answer, is recorded, and moves the transport. -/
theorem streamRecv_eq (w : World σ) (id : Nat) :
    ∃ ans c, w.streamRecv T id = (ans, { w with ctl := c }.emit (.streamRecv id ans)) :=
  ⟨_, _, rfl⟩

/-- **`drain_stream` is a sequence of steps.** -/
theorem drainLoop_steps {id h : Nat} : ∀ (n : Nat) (w : World σ), w.Visiting id h →
    Steps T w (drainLoop T id h n w)
  | 0, w, hv => by
    unfold drainLoop
    split
    · exact requeueAndIterate_steps hv.entry
    · exact .refl
  | n + 1, w, hv => by
    unfold drainLoop
    split
    · exact requeueAndIterate_steps hv.entry
    have hres := reserveOrPark_steps (T := T) hv
    rcases hq : w.reserveOrPark id h with ⟨res, w'⟩
    rw [hq] at hres
    cases res with
    | full => exact hres
    | closed =>
      obtain ⟨hs, hv', hg⟩ := hres
      refine hs.trans ((ctl_steps w' { w'.ctl with
        qconn := (T.streamShutdown w'.ctl.qconn id .read h3NoError).2 }).tail ?_)
      exact .abandon _ id h hv'.entry hg
    | permit =>
      obtain ⟨hs, hv', hp⟩ := hres
      have hi := hv'.interleave
      have hpi := (w'.interleave_rel.permit h).trans hp
      obtain ⟨ans, c, ha⟩ := streamRecv_eq (T := T) w'.interleave id
      have hs := (hs.trans (interleave_steps w')).trans (ctl_steps w'.interleave c)
      dsimp only
      rw [ha]
      rcases ans with err | ⟨chunk, fin⟩
      · refine (hs.tail (.readErr _ id h err hi.entry hpi)).trans (recvError_steps (h := h) err ?_)
        exact ⟨hi.entry, hi.away⟩
      · obtain ⟨h1, h2⟩ := recvChunk_steps (T := T) (w := { w'.interleave with ctl := c })
          chunk fin ⟨hi.entry, hi.away⟩ hpi
        dsimp only
        split
        · exact hs.trans h1
        · rename_i hg
          have hfin : fin = false := by
            cases fin
            · rfl
            · simp at hg
          exact (hs.trans h1).trans (drainLoop_steps n _ (h2 hfin))

theorem drainStream_steps {id h : Nat} (hv : w.Visiting id h) : Steps T w (w.drainStream T id) := by
  simp only [drainStream, hv.entry]
  exact drainLoop_steps _ w hv

theorem leftFull_drain (h : Nat) (tr : List Event) : leftFull h (.drain h :: tr) = false := by
  simp [leftFull]

theorem drainResumedLoop_steps : ∀ (n : Nat) (w : World σ), Steps T w (drainResumedLoop T n w)
  | 0, _ => .refl
  | n + 1, w => by
    unfold drainResumedLoop
    split
    · exact .refl
    · rename_i id rest hp
      dsimp only
      split
      · rename_i hr
        exact .head (.skipResume w id rest hp hr) (drainResumedLoop_steps n _)
      · rename_i h hr
        have hw : { w with reg.pendingResume := rest }.storeResume id false =
            { w.interleave with reg.pendingResume := rest }.modRecv h
              fun r => { r with resume := false } := by
          have hr' : { w with reg.pendingResume := rest }.interleave.reg.recv.lookup id = some h :=
            hr
          simp only [storeResume, hr']
          rfl
        have h1 := (interleave_steps (T := T) w).tail (.popResume _ id h rest hp hr)
        have hv : (({ w with reg.pendingResume := rest }.storeResume id false).emit
            (.drain h)).Visiting id h := by
          rw [hw]
          exact ⟨hr, leftFull_drain h _⟩
        obtain ⟨h2, hv2⟩ := storeBlocked_steps (T := T) false hv
        rw [← hw] at h1
        exact ((h1.trans h2).trans (drainStream_steps hv2)).trans (drainResumedLoop_steps n _)

theorem phase1Loop_steps : ∀ (n : Nat) (w : World σ), Steps T w (phase1Loop T n w)
  | 0, _ => .refl
  | n + 1, w => by
    unfold phase1Loop
    split
    · split
      · exact ctl_steps w _
      · exact .refl
    · split
      · exact .refl
      · rename_i id rest hp
        dsimp only
        split
        · rename_i hr
          exact .head (.skipReadable w id rest hp hr) (phase1Loop_steps n _)
        · rename_i h hr
          have hv : ({ w with reg.pendingReadable := rest }.emit (.drain h)).Visiting id h :=
            ⟨hr, leftFull_drain h _⟩
          exact (Steps.one (.popReadable w id h rest hp hr)).trans
            ((drainStream_steps hv).trans (phase1Loop_steps n _))

theorem intakeLoop_steps : ∀ (n : Nat) (w : World σ), Steps T w (intakeLoop T n w)
  | 0, w => ctl_steps w _
  | n + 1, w => by
    unfold intakeLoop
    split
    · exact ctl_steps w _
    · rename_i id c _
      have h1 := (ctl_steps (T := T) w { w.ctl with qconn := c }).tail (.readable _ id)
      exact h1.trans (intakeLoop_steps n _)

/-! ## 3. Admission -/

section Queues

variable (r : Registry) (bidi : Bool) (q : List Nat)

@[simp] theorem setPendingOf_admission : (setPendingOf r bidi q).admission = r.admission := by
  cases bidi <;> rfl

@[simp] theorem setPendingOf_recv : (setPendingOf r bidi q).recv = r.recv := by
  cases bidi <;> rfl

@[simp] theorem setPendingOf_pendingAdmit :
    (setPendingOf r bidi q).pendingAdmit = r.pendingAdmit := by
  cases bidi <;> rfl

@[simp] theorem setParkedOf_admission : (setParkedOf r bidi q).admission = r.admission := by
  cases bidi <;> rfl

end Queues

/-- The calls of a torn-down admission, and the transport they move. -/
theorem shutdownPeerDirections_eq (w : World σ) (id : Nat) (bidi : Bool) :
    ∃ c, w.shutdownPeerDirections T id bidi = { w with ctl := c }.noteShutdown id bidi := by
  let c1 := (T.streamShutdown w.ctl.qconn id .read h3NoError).2
  cases bidi
  · exact ⟨{ w.ctl with qconn := c1 }, rfl⟩
  · exact ⟨{ w.ctl with qconn := (T.streamShutdown c1 id .write h3NoError).2 }, rfl⟩

theorem admitFinish_steps (w : World σ) (id : Nat) : Steps T w (w.admitFinish T id) := by
  refine (Steps.one (.settle w id)).trans ?_
  dsimp only [admitFinish]
  split
  · rename_i h hr
    exact (Steps.one (.drain _ id h hr)).trans (drainStream_steps ⟨hr, leftFull_drain h _⟩)
  · exact .refl

/-- What is known after `admit_one` of a peer taken out of its queue. -/
def Admitted (T : QuicConn σ) (w : World σ) (peer : PeerStream) (r : Registry) :
    AdmitResult × World σ → Prop
  | (.registered, w') => Steps T w w'
  | (.tornDown, w') => Steps T w w'
  | (.full peer', w') =>
    peer' = peer ∧ ∃ w1, Steps T w w1 ∧ w1.reg = w.reg ∧ w' = { w1 with reg := r }

theorem tear_steps {w1 : World σ} {bidi : Bool} {id : Nat} {peer : PeerStream} {r : Registry}
    (hs : Steps T w w1) (ht : Take w1.reg bidi id peer r) :
    Steps T w ({ w1 with reg := r }.shutdownPeerDirections T peer.id (isBidi peer.id)) := by
  obtain ⟨c, hc⟩ := shutdownPeerDirections_eq (T := T) { w1 with reg := r } peer.id (isBidi peer.id)
  rw [hc]
  exact (hs.trans (ctl_steps w1 c)).tail (.tear _ bidi id peer r ht)

theorem registerBidi_steps {bidi : Bool} {id : Nat} {peer : PeerStream} {r : Registry}
    (ht : Take w.reg bidi id peer r) (hb : isBidi peer.id = true) :
    Steps T w ({ w with reg := r }.registerBidi peer) := by
  dsimp only [registerBidi]
  obtain ⟨acts, c, ha⟩ := ({ w with reg := r }.buildPeerBidi peer).2.interleave_eq
  rw [ha]
  exact (Steps.one (.admitBidi w bidi id peer r acts ht hb)).trans (ctl_steps _ c)

theorem registerUni_steps {bidi : Bool} {id : Nat} {peer : PeerStream} {r : Registry}
    (ht : Take w.reg bidi id peer r) (hb : isBidi peer.id = false) :
    Steps T w ({ w with reg := r }.registerUni peer) := by
  dsimp only [registerUni]
  obtain ⟨acts, c, ha⟩ := ({ w with reg := r }.buildPeerUni peer).2.interleave_eq
  rw [ha]
  exact (Steps.one (.admitUni w bidi id peer r acts ht hb)).trans (ctl_steps _ c)

/-- **`admit_one` is a sequence of steps.** -/
theorem admitOne_steps {bidi : Bool} {id : Nat} {peer : PeerStream} {r : Registry}
    (ht : Take w.reg bidi id peer r) :
    Admitted T w peer r ({ w with reg := r }.admitOne T peer) := by
  have h1 := interleave_steps (T := T) w
  have h2 := h1.trans (interleave_steps w.interleave)
  dsimp only [admitOne]
  rw [interleave_setReg, interleave_setReg]
  dsimp only
  split
  · rename_i hb
    split
    · exact hb ▸ tear_steps h1 ht
    · split
      · exact ⟨rfl, w.interleave, h1, rfl, rfl⟩
      · split
        · exact hb ▸ tear_steps h2 ht
        · exact (h2.trans (registerBidi_steps ht hb)).trans (admitFinish_steps _ _)
  · rename_i hb
    have hb : isBidi peer.id = false := by simpa using hb
    split
    · exact hb ▸ tear_steps h1 ht
    · split
      · exact ⟨rfl, w.interleave, h1, rfl, rfl⟩
      · split
        · exact hb ▸ tear_steps h2 ht
        · exact (h2.trans (registerUni_steps ht hb)).trans (admitFinish_steps _ _)

theorem phase2Loop_steps : ∀ (fuel budget : Nat) (b u p : Bool) (w : World σ),
    Steps T w (phase2Loop T fuel budget b u p w)
  | 0, _, _, _, _, _ => .refl
  | fuel + 1, budget, b, u, p, w => by
    unfold phase2Loop
    split
    · exact .refl
    · dsimp only
      split
      · generalize (if (!b && !w.reg.pendingAdmitBidi.isEmpty) &&
          (!u && !w.reg.pendingAdmitUni.isEmpty) then p
          else !b && !w.reg.pendingAdmitBidi.isEmpty) = bidi
        split
        · exact .refl
        · rename_i id rest hq
          split
          · rename_i hs
            rw [setPendingOf_admission, setPendingOf_recv] at hs
            exact .head (.stalePending w bidi id rest hq (by simpa using hs))
              (phase2Loop_steps fuel _ _ _ _ _)
          · rename_i hs
            have hs : w.reg.admission.lookup id = none ∧ w.reg.recv.lookup id = none := by
              rw [setPendingOf_admission, setPendingOf_recv] at hs
              simpa using hs
            split
            · rename_i hp
              rw [setPendingOf_pendingAdmit] at hp
              exact .head (.lostPending w bidi id rest hq hp) (phase2Loop_steps fuel _ _ _ _ _)
            · rename_i peer hp
              rw [setPendingOf_pendingAdmit] at hp
              have ht : Take w.reg bidi id peer _ := .pending hq hs.1 hs.2 hp
              have had := admitOne_steps (T := T) ht
              split
              · rename_i w' he
                rw [he] at had
                exact had.trans (phase2Loop_steps fuel _ _ _ _ _)
              · rename_i peer' w' he
                rw [he] at had
                obtain ⟨rfl, w1, h1, hreg, rfl⟩ := had
                exact (h1.tail (.repark w1 bidi false id peer' _ (by rw [hreg]; exact ht))).trans
                  (phase2Loop_steps fuel _ _ _ _ _)
              · rename_i w' he
                rw [he] at had
                exact had.trans (phase2Loop_steps fuel _ _ _ _ _)
      · exact .refl

theorem phase2Admission_steps (w : World σ) : Steps T w (w.phase2Admission T) :=
  phase2Loop_steps _ _ _ _ _ w

theorem promoteLoop_steps (bidi : Bool) : ∀ (n : Nat) (w : World σ),
    Steps T w (promoteLoop T bidi n w)
  | 0, _ => .refl
  | n + 1, w => by
    unfold promoteLoop
    split
    · exact .refl
    · rename_i id rest hq
      dsimp only
      split
      · rename_i peer ha
        rw [setParkedOf_admission] at ha
        have ht : Take w.reg bidi id peer _ := .parked hq ha
        have had := admitOne_steps (T := T) ht
        split
        · rename_i w' he
          rw [he] at had
          exact had.trans (promoteLoop_steps bidi n _)
        · rename_i peer' w' he
          rw [he] at had
          obtain ⟨rfl, w1, h1, hreg, rfl⟩ := had
          exact h1.tail (.repark w1 bidi true id peer' _ (by rw [hreg]; exact ht))
        · rename_i w' he
          rw [he] at had
          exact had
      · rename_i hn
        rw [setParkedOf_admission] at hn
        exact .head (.skipParked w bidi id rest hq hn) (promoteLoop_steps bidi n _)

theorem promoteParked_steps (bidi : Bool) (w : World σ) : Steps T w (w.promoteParked T bidi) := by
  dsimp only [promoteParked]
  split
  · exact (((interleave_steps w).trans (interleave_steps _)).tail (.acceptFlag _ bidi false)).trans
      (promoteLoop_steps bidi _ _)
  · exact interleave_steps w

/-- **The read pump is a sequence of steps.** -/
theorem runReadPump_steps (w : World σ) : Steps T w (w.runReadPump T) := by
  have h1 := intakeLoop_steps (T := T) discoveryBudget w
  have h2 := h1.trans (drainResumedLoop_steps recvResumeBudget _)
  have h3 := h2.trans (phase1Loop_steps readableBudget _)
  have h4 := h3.trans (phase2Admission_steps _)
  exact (h4.trans (promoteParked_steps true _)).trans (promoteParked_steps false _)

/-! ## 4. Opening -/

theorem replyErr_steps {bidi : Bool} {r : Nat} {rest : List Nat} (t : ConnTerminal)
    (hq : w.openOf bidi = r :: rest) : Steps T w ((w.setOpenOf bidi rest).replyErr r t) := by
  have h1 := interleave_steps (T := T) w
  have hsh : (w.interleave.setOpenOf bidi rest).sh = w.interleave.sh := by cases bidi <;> rfl
  dsimp only [replyErr]
  rw [interleave_setOpenOf, hsh]
  split
  · rename_i hw
    exact h1.tail (.failOpen _ bidi r rest t hq hw)
  · rename_i hw
    exact h1.tail (.skipOpen _ bidi r rest hq hw)

theorem dropRecvEntry_ctl (w : World σ) (id : Nat) (c : Ctl σ) :
    { w with ctl := c }.dropRecvEntry id = { w.dropRecvEntry id with ctl := c } := by
  unfold dropRecvEntry
  dsimp only
  split <;> rfl

theorem streamShutdown_eq (w : World σ) (id : Nat) (dir : Shutdown) (code : Nat) :
    ∃ c, w.streamShutdown T id dir code =
      { w.emit (.streamShutdown id dir code) with ctl := c } := ⟨_, rfl⟩

/-- The cleanup of an undeliverable open, and the transport its calls move. -/
theorem cleanup_eq (w : World σ) (bidi : Bool) (id : Nat) (ans : Reply) :
    ∃ c, (w.dropAnswer ans).cleanupUndeliverableOpen T id bidi =
      { w.undeliver bidi id ans with ctl := c } := by
  obtain ⟨c, hc⟩ := streamShutdown_eq (T := T) ((w.dropAnswer ans).dropSendEntry id) id .write
    h3RequestCancelled
  dsimp only [cleanupUndeliverableOpen, undeliver]
  rw [hc]
  cases bidi
  · exact ⟨c, rfl⟩
  · rw [dropRecvEntry_ctl]
    exact ⟨_, rfl⟩

theorem deliver_steps {bidi : Bool} {r : Nat} {rest : List Nat} (hq : w.openOf bidi = r :: rest) :
    Steps T w ((w.opened bidi rest).2.deliver T bidi r (w.nextIdOf bidi)
      (w.opened bidi rest).1) := by
  dsimp only [deliver]
  obtain ⟨acts, c, ha⟩ := (w.opened bidi rest).2.interleave_eq
  rw [ha]
  split
  · rename_i hw
    exact (Steps.one (.openDeliver w bidi r rest acts hq _ rfl hw)).trans (ctl_steps _ c)
  · rename_i hw
    obtain ⟨c', hc⟩ := cleanup_eq (T := T) { (w.opened bidi rest).2.fronts acts with ctl := c } bidi
      (w.nextIdOf bidi) (w.opened bidi rest).1
    rw [hc]
    exact (Steps.one (.openUndeliver w bidi r rest acts c hq _ rfl hw)).trans (ctl_steps _ c')

theorem streamPriority_eq (w : World σ) (id u : Nat) (i : Bool) :
    ∃ ok c, w.streamPriority T id u i = (ok, { w with ctl := c }.emit (.streamPriority id ok)) :=
  ⟨_, _, rfl⟩

theorem materialize_steps {bidi : Bool} {r : Nat} {rest : List Nat}
    (hq : w.openOf bidi = r :: rest) :
    Steps T w ((w.setOpenOf bidi rest).materialize T bidi r) := by
  dsimp only [materialize]
  obtain ⟨ok, c, ho⟩ := streamPriority_eq (T := T) (w.setOpenOf bidi rest)
    ((w.setOpenOf bidi rest).nextIdOf bidi) 127 true
  have hid : (w.setOpenOf bidi rest).nextIdOf bidi = w.nextIdOf bidi := by cases bidi <;> rfl
  rw [hid] at ho ⊢
  rw [ho]
  have h1 := ctl_steps (T := T) w c
  have he : { w.setOpenOf bidi rest with ctl := c } = { w with ctl := c }.setOpenOf bidi rest := by
    cases bidi <;> rfl
  rw [he]
  cases ok
  · dsimp only
    have h2 := h1.tail (.probe { w with ctl := c } (.streamPriority (w.nextIdOf bidi) false)
      trivial)
    have he' : ({ w with ctl := c }.setOpenOf bidi rest).emit
          (.streamPriority (w.nextIdOf bidi) false) =
        ({ w with ctl := c }.emit (.streamPriority (w.nextIdOf bidi) false)).setOpenOf bidi
          rest := by
      cases bidi <;> rfl
    rw [he']
    exact h2.trans (replyErr_steps _ hq)
  · exact h1.trans (deliver_steps (w := { w with ctl := c }) hq)

/-- A request put back in front of the queue it came from. -/
theorem setOpenOf_back {bidi : Bool} {r : Nat} {rest : List Nat} (hq : w.openOf bidi = r :: rest) :
    (w.setOpenOf bidi rest).setOpenOf bidi (r :: (w.setOpenOf bidi rest).openOf bidi) = w := by
  cases bidi
  · exact congrArg (fun q => { w with openUni := q }) hq.symm
  · exact congrArg (fun q => { w with openBidi := q }) hq.symm

/-- **The loop of `stage_open_*` is a sequence of steps.** -/
theorem openLoop_steps (bidi : Bool) : ∀ (n : Nat) (w : World σ), Steps T w (openLoop T bidi n w)
  | 0, w => by
    unfold openLoop
    split
    · exact ctl_steps w _
    · exact .refl
  | n + 1, w => by
    unfold openLoop
    split
    · exact .refl
    · rename_i r rest hq
      have hqi : w.interleave.openOf bidi = r :: rest := hq
      have hqi2 : w.interleave.interleave.openOf bidi = r :: rest := hq
      have hsh : (w.interleave.setOpenOf bidi rest).sh = w.interleave.sh := by cases bidi <;> rfl
      have h1 := interleave_steps (T := T) w
      have h2 := h1.trans (interleave_steps w.interleave)
      dsimp only
      rw [interleave_setOpenOf, hsh]
      split
      · rename_i hw
        exact (h1.tail (.skipOpen _ bidi r rest hqi hw)).trans (openLoop_steps bidi n _)
      · split
        · rw [setOpenOf_back hqi]
          exact h1
        · rw [interleave_setOpenOf]
          split
          · exact (h2.trans (replyErr_steps _ hqi2)).trans (openLoop_steps bidi n _)
          · exact (h2.trans (materialize_steps hqi2)).trans (openLoop_steps bidi n _)

/-! ## 5. The send stage -/

theorem streamWritable_eq (w : World σ) (id len : Nat) :
    ∃ ans c, w.streamWritable T id len = (ans, { w with ctl := c }.emit (.streamWritable id ans)) :=
  ⟨_, _, rfl⟩

theorem streamCapacity_eq (w : World σ) (id : Nat) :
    ∃ ans c, w.streamCapacity T id = (ans, { w with ctl := c }.emit (.streamCapacity id ans)) :=
  ⟨_, _, rfl⟩

theorem streamSend_eq (w : World σ) (id : Nat) (data : Bytes) (fin : Bool) :
    ∃ ans c, w.streamSend T id data fin =
        (ans, { w with ctl := c }.emit (.streamSend id data fin ans)) ∧
      (T.streamSend w.ctl.qconn id data fin).1 = ans :=
  ⟨_, _, rfl, rfl⟩

theorem sendEnd_steps {id : Nat} {s : StreamSendState} (e : SendEnd) (hl : w.LiveSend id s) :
    Steps T w (w.interleave.sendTerminalTransition id e) :=
  (interleave_steps w).tail (.sendEnd _ id s e ⟨hl.entry, hl.terminal, hl.pendingReset⟩)

/-- What is known after a turn: it is a sequence of steps, and it asks to be requeued only
while the entry is there. -/
def Turned (T : QuicConn σ) (w : World σ) (id : Nat) (x : TurnOutcome × World σ) : Prop :=
  Steps T w x.2 ∧ (x.1 = .requeue → (x.2.reg.send.lookup id).isSome)

theorem Turned.of_ne {id : Nat} {o : TurnOutcome} {w' : World σ} (h : Steps T w w')
    (ho : o ≠ .requeue) : Turned T w id (o, w') := ⟨h, fun he => absurd he ho⟩

theorem Turned.trans {w1 : World σ} {id : Nat} {x : TurnOutcome × World σ} (h : Steps T w w1)
    (h' : Turned T w1 id x) : Turned T w id x := ⟨h.trans h'.1, h'.2⟩

/-- The turn of the stream is on: its entry is live, and it has left `runnable_send`. -/
structure Turning (w : World σ) (id : Nat) (s : StreamSendState) : Prop extends
    LiveSend w id s where
  idle : id ∉ w.reg.runnableSend.members

/-- `rearm_send` parks or drops. -/
theorem rearmSend_steps {id : Nat} {s : StreamSendState} (hl : w.LiveSend id s) :
    Steps T w (w.rearmSend T id).2 ∧ (w.rearmSend T id).1 ≠ .requeue := by
  unfold rearmSend
  obtain ⟨ans, c, ha⟩ := streamWritable_eq (T := T) w id rearmThreshold
  rw [ha]
  have h1 := (ctl_steps (T := T) w c).tail (.probe _ (.streamWritable id ans) trivial)
  split
  · rename_i code w' he
    obtain ⟨rfl, rfl⟩ := Prod.mk.inj he
    exact ⟨h1.trans (sendEnd_steps _ ⟨hl.entry, hl.terminal, hl.pendingReset⟩), by simp⟩
  · rename_i w' _ he
    obtain ⟨rfl, rfl⟩ := Prod.mk.inj he
    exact ⟨h1, by simp⟩

theorem classifySendErr_steps {id : Nat} {s : StreamSendState} (err : QuicheError)
    (hl : w.Turning id s) :
    Steps T w (w.classifySendErr T id err).2 ∧ (w.classifySendErr T id err).1 ≠ .requeue := by
  unfold classifySendErr
  split
  · exact ⟨sendEnd_steps _ hl.toLiveSend, by simp⟩
  · exact rearmSend_steps hl.toLiveSend
  · split
    · exact ⟨sendEnd_steps _ hl.toLiveSend, by simp⟩
    · -- the stream has left the queue with its turn
      have hq : w.reg.runnableSend.drop id = w.reg.runnableSend := OnceQueue.drop_of_not_mem hl.idle
      refine ⟨?_, by simp⟩
      simp only [Registry.dropSendMembership, hq]
      exact .refl
  · exact ⟨sendEnd_steps _ hl.toLiveSend, by simp⟩
  · exact ⟨sendEnd_steps _ hl.toLiveSend, by simp⟩

/-- The three outcomes of one `send_from_buf`. -/
theorem sendFromBuf_cases (w : World σ) (id : Nat) (fin : Bool) (buf : WriteBuf) :
    (buf.hasRemaining = false ∧
      sendFromBuf buf (offer T id fin buf.remaining) w = (.ok 0, buf, w)) ∨
    (buf.hasRemaining = true ∧ ∃ n c, (T.streamSend w.ctl.qconn id buf.offered (buf.offerFin fin)).1
      = .ok n ∧
      sendFromBuf buf (offer T id fin buf.remaining) w = (.ok n, buf.advance n,
        { w with ctl := c }.emit (.streamSend id buf.offered (buf.offerFin fin) (.ok n)))) ∨
    (buf.hasRemaining = true ∧ ∃ err c,
      sendFromBuf buf (offer T id fin buf.remaining) w = (.error err, buf,
        { w with ctl := c }.emit
          (.streamSend id buf.offered (buf.offerFin fin) (.error err)))) := by
  cases hr : buf.hasRemaining with
  | false => exact .inl ⟨rfl, by simp [sendFromBuf, hr]⟩
  | true =>
    refine .inr ?_
    obtain ⟨ans, c, ha, hans⟩ := streamSend_eq (T := T) w id buf.offered (buf.offerFin fin)
    have ho : offer T id fin buf.remaining buf.chunk w =
        (ans, { w with ctl := c }.emit (.streamSend id buf.offered (buf.offerFin fin) ans)) := ha
    cases ans with
    | ok n => exact .inl ⟨rfl, n, c, hans, by simp [sendFromBuf, hr, ho]⟩
    | error err => exact .inr ⟨rfl, err, c, by simp [sendFromBuf, hr, ho]⟩

theorem putSend_lookup (w : World σ) (id : Nat) (s : StreamSendState) :
    (w.putSend id s).reg.send.lookup id = some s := AList.lookup_insert _

/-- What is known after one offer of the held write. -/
def Flushed (T : QuicConn σ) (w : World σ) (id : Nat) (s : StreamSendState) (fin : Bool) :
    HeldFlush × World σ → Prop
  | (.complete, w') =>
    if fin then Steps T w (w'.completeFinishOp id)
    else Steps T w w' ∧ w'.Turning id { s with held := none }
  | (.more, w') => Steps T w w' ∧ (w'.reg.send.lookup id).isSome
  | (_, w') => Steps T w w'

theorem flushHeldOnce_steps {id : Nat} {s : StreamSendState} {buf : WriteBuf} (fin : Bool)
    (hl : w.Turning id s) (hh : s.held = some buf)
    (hf : fin = true → ∃ t ops, s.sendOps = .finish t :: ops) :
    Flushed T w id s fin (w.flushHeldOnce T id fin) := by
  simp only [flushHeldOnce, hl.entry, hh]
  rcases sendFromBuf_cases (T := T) w id fin buf with ⟨hr, he⟩ | ⟨hr, n, c, hn, he⟩ |
    ⟨hr, err, c, he⟩
  · rw [he]
    simp only [hr]
    cases fin with
    | false =>
      exact ⟨.one (.emptyHeld w id s buf hl.toLiveSend hh hr),
        ⟨⟨putSend_lookup .., hl.terminal, hl.pendingReset⟩, hl.idle⟩⟩
    | true =>
      obtain ⟨t, ops, ho⟩ := hf rfl
      exact Steps.one (.emptyFin w id s buf t ops hl.toLiveSend hh hr ho)
  · rw [he]
    have hlc : { w with ctl := c }.LiveSend id s := ⟨hl.entry, hl.terminal, hl.pendingReset⟩
    dsimp only
    split
    · rename_i hm
      have h1 := (ctl_steps (T := T) w c).tail
        (.flush _ id s buf fin n w.ctl.qconn hlc hh hr hf hn (.inr hm))
      rw [if_pos hm] at h1
      split
      · exact ⟨h1, by rw [putSend_lookup]; rfl⟩
      · obtain ⟨h2, h3⟩ := rearmSend_steps (T := T) (w := ({ w with ctl := c }.emit
          (.streamSend id buf.offered (buf.offerFin fin) (.ok n))).putSend id
          { s with held := some (buf.advance n) })
          (s := { s with held := some (buf.advance n) })
            ⟨putSend_lookup .., hl.terminal, hl.pendingReset⟩
        split
        · rename_i w' hx
          rw [hx] at h2
          exact h1.trans h2
        · rename_i o w' _ hx
          rw [hx] at h2
          exact h1.trans h2
    · rename_i hm
      have hm : (buf.advance n).hasRemaining = false := by simpa using hm
      cases fin with
      | false =>
        have h1 := (ctl_steps (T := T) w c).tail
          (.flush _ id s buf false n w.ctl.qconn hlc hh hr hf hn (.inl rfl))
        rw [if_neg (by simp [hm])] at h1
        exact ⟨h1, ⟨⟨putSend_lookup .., hl.terminal, hl.pendingReset⟩, hl.idle⟩⟩
      | true =>
        obtain ⟨t, ops, ho⟩ := hf rfl
        exact (ctl_steps (T := T) w c).tail
          (.flushFin _ id s buf n t ops w.ctl.qconn hlc hh hr ho hn hm)
  · rw [he]
    have hlc : { w with ctl := c }.LiveSend id s := ⟨hl.entry, hl.terminal, hl.pendingReset⟩
    have h1 := (ctl_steps (T := T) w c).tail (.sendErr _ id s buf.offered (buf.offerFin fin) err hlc
      (.inr (by rw [hh]; rfl)))
    obtain ⟨h2, h3⟩ := classifySendErr_steps (T := T) (w := { w with ctl := c }.emit
      (.streamSend id buf.offered (buf.offerFin fin) (.error err))) (s := s) err
      ⟨⟨hl.entry, hl.terminal, hl.pendingReset⟩, hl.idle⟩
    dsimp only
    split
    · rename_i w' hx
      rw [hx] at h2
      exact h1.trans h2
    · rename_i w' hx
      rw [hx] at h3
      exact absurd rfl h3
    · rename_i w' hx
      rw [hx] at h2
      exact h1.trans h2

theorem runnableAfterPop_requeue {id : Nat} (h : w.runnableAfterPop id = .requeue) :
    (w.reg.send.lookup id).isSome := by
  unfold runnableAfterPop at h
  split at h
  · rename_i s hs
    rw [hs]
    rfl
  · cases h

theorem writeTurn_steps {id : Nat} {s : StreamSendState} (hl : w.Turning id s)
    (hh : s.held = none) : Turned T w id (w.writeTurn T id) := by
  simp only [writeTurn, hl.entry]
  split
  · rename_i buf t permit ops ho
    obtain ⟨ans, c, ha⟩ := streamCapacity_eq (T := T) w id
    rw [ha]
    have h1 := (ctl_steps (T := T) w c).tail
      (.capacity _ id ans (Option.isSome_iff_exists.mpr ⟨s, hl.entry⟩))
    have hl1 : ({ w with ctl := c }.emit (.streamCapacity id ans)).Turning id s :=
      ⟨⟨hl.entry, hl.terminal, hl.pendingReset⟩, hl.idle⟩
    generalize { w with ctl := c }.emit (.streamCapacity id ans) = w1 at h1 hl1 ⊢
    cases ans with
    | error err =>
      obtain ⟨h2, h3⟩ := classifySendErr_steps (T := T) err hl1
      exact ⟨h1.trans h2, fun he => absurd he h3⟩
    | ok cap =>
      dsimp only
      split
      · rename_i hcap
        exact ⟨h1.tail (.hold w1 id s buf t permit ops hl1.toLiveSend hh ho hcap.1),
          runnableAfterPop_requeue⟩
      · rcases sendFromBuf_cases (T := T) w1 id false buf with
          ⟨hr, he⟩ | ⟨hr, n, c', hn, he⟩ | ⟨hr, err, c', he⟩
        · rw [he]
          dsimp only
          rw [if_neg (by simp [hr])]
          exact ⟨h1.tail (.skipWrite w1 id s buf t permit ops hl1.toLiveSend hh ho hr),
            runnableAfterPop_requeue⟩
        · rw [he]
          have hl2 : { w1 with ctl := c' }.LiveSend id s :=
            ⟨hl1.entry, hl.terminal, hl.pendingReset⟩
          have h2 := h1.trans (ctl_steps w1 c')
          dsimp only
          split
          · rename_i hm
            have h3 := h2.tail (.offer _ id s buf t permit ops n w1.ctl.qconn hl2 hh ho hr hn hm)
            split
            · exact ⟨h3, fun _ => by dsimp only; rw [putSend_lookup]; rfl⟩
            · obtain ⟨h4, h5⟩ := rearmSend_steps (T := T) (w := ({ w1 with ctl := c' }.emit
                (.streamSend id buf.offered false (.ok n))).putSend id
                { s with sendOps := .write (buf.advance n) t permit :: ops })
                (s := { s with sendOps := .write (buf.advance n) t permit :: ops })
                ⟨putSend_lookup .., hl.terminal, hl.pendingReset⟩
              exact ⟨h3.trans h4, fun he => absurd he h5⟩
          · rename_i hm
            have hm : (buf.advance n).hasRemaining = false := by simpa using hm
            exact ⟨h2.tail (.accept _ id s buf t permit ops n w1.ctl.qconn hl2 hh ho hr hn hm),
              runnableAfterPop_requeue⟩
        · rw [he]
          have hl2 : { w1 with ctl := c' }.LiveSend id s :=
            ⟨hl1.entry, hl.terminal, hl.pendingReset⟩
          have h2 := (h1.trans (ctl_steps w1 c')).tail (.sendErr _ id s buf.offered
            (buf.offerFin false) err hl2 (.inl (by simp [ho])))
          obtain ⟨h3, h4⟩ := classifySendErr_steps (T := T) (w := { w1 with ctl := c' }.emit
            (.streamSend id buf.offered (buf.offerFin false) (.error err))) (s := s) err
            ⟨⟨hl1.entry, hl.terminal, hl.pendingReset⟩, hl1.idle⟩
          exact ⟨h2.trans h3, fun he => absurd he h4⟩
  · exact .of_ne .refl (by simp)

theorem serviceWriteTurn_steps {id : Nat} {s : StreamSendState} (hl : w.Turning id s) :
    Turned T w id (w.serviceWriteTurn T id) := by
  simp only [serviceWriteTurn, hl.entry]
  split
  · rename_i hh
    obtain ⟨buf, hb⟩ := Option.isSome_iff_exists.mp hh
    have hf := flushHeldOnce_steps (T := T) false hl hb (by simp)
    split
    · rename_i w' hx
      rw [hx] at hf
      exact .trans hf.1 (writeTurn_steps hf.2 rfl)
    · rename_i w' hx
      rw [hx] at hf
      exact ⟨hf.1, fun _ => hf.2⟩
    · rename_i w' hx
      rw [hx] at hf
      exact .of_ne hf (by simp)
    · rename_i w' hx
      rw [hx] at hf
      exact .of_ne hf (by simp)
  · rename_i hh
    exact writeTurn_steps hl (by simpa using hh)

theorem serviceFinishTurn_steps {id t : Nat} {s : StreamSendState} {ops : List SendOp}
    (hl : w.Turning id s) (ho : s.sendOps = .finish t :: ops) :
    Turned T w id (w.serviceFinishTurn T id) := by
  simp only [serviceFinishTurn, hl.entry]
  split
  · rename_i hh
    obtain ⟨buf, hb⟩ := Option.isSome_iff_exists.mp hh
    have hf := flushHeldOnce_steps (T := T) true hl hb fun _ => ⟨t, ops, ho⟩
    split
    · rename_i w' hx
      rw [hx] at hf
      exact .of_ne hf (by simp)
    · rename_i w' hx
      rw [hx] at hf
      exact ⟨hf.1, fun _ => hf.2⟩
    · rename_i w' hx
      rw [hx] at hf
      exact .of_ne hf (by simp)
    · rename_i w' hx
      rw [hx] at hf
      exact .of_ne hf (by simp)
  · rename_i hh
    obtain ⟨ans, c, ha, hans⟩ := streamSend_eq (T := T) w id [] true
    rw [ha]
    have hlc : { w with ctl := c }.LiveSend id s := ⟨hl.entry, hl.terminal, hl.pendingReset⟩
    have h1 := ctl_steps (T := T) w c
    cases ans with
    | ok n =>
      exact .of_ne (h1.tail (.loneFin _ id s n t ops w.ctl.qconn hlc (by simpa using hh) ho hans))
        (by simp)
    | error err =>
      have h2 := h1.tail (.sendErr _ id s [] true err hlc (.inl (by simp [ho])))
      obtain ⟨h3, h4⟩ := classifySendErr_steps (T := T) (w := { w with ctl := c }.emit
        (.streamSend id [] true (.error err))) (s := s) err
        ⟨⟨hl.entry, hl.terminal, hl.pendingReset⟩, hl.idle⟩
      exact ⟨h2.trans h3, fun he => absurd he h4⟩

/-- The turn of a stream whose reset waits. -/
theorem serviceReset_steps {id code : Nat} {s : StreamSendState} {rest : OnceQueue Nat}
    (hq : w.reg.runnableSend.pop = some (id, rest)) (hs : w.reg.send.lookup id = some s)
    (hp : s.pendingReset = some code) :
    Steps T w (({ w with reg.runnableSend := rest }.emit (.turn id)).serviceReset T id code s) :=
  (ctl_steps w { w.ctl with qconn := (T.streamShutdown w.ctl.qconn id .write code).2 }).tail
    (.resetTurn _ id code s rest hq hs hp)

/-- **A service turn is a sequence of steps**, if no reset waits. -/
theorem serviceSendTurn_steps (w : World σ) (id : Nat) (hq : id ∉ w.reg.runnableSend.members)
    (hn : ∀ s, w.reg.send.lookup id = some s → s.pendingReset = none) :
    Turned T w id (w.serviceSendTurn T id) := by
  unfold serviceSendTurn
  split
  · exact .of_ne .refl (by simp)
  · rename_i s hs
    split
    · rename_i code hp
      exact absurd ((hn s hs).symm.trans hp) nofun
    · rename_i hp
      split
      · exact .of_ne .refl (by simp)
      · rename_i ht
        have hl : w.Turning id s := ⟨⟨hs, by simpa using ht, hp⟩, hq⟩
        split
        · split
          · rename_i hh
            obtain ⟨buf, hb⟩ := Option.isSome_iff_exists.mp hh
            have hf := flushHeldOnce_steps (T := T) false hl hb (by simp)
            split
            · rename_i w' hx
              rw [hx] at hf
              exact .of_ne hf.1 (by simp)
            · rename_i w' hx
              rw [hx] at hf
              exact .of_ne hf (by simp)
            · rename_i w' hx
              rw [hx] at hf
              exact ⟨hf.1, fun _ => hf.2⟩
            · rename_i w' hx
              rw [hx] at hf
              exact .of_ne hf (by simp)
          · exact .of_ne .refl (by simp)
        · exact serviceWriteTurn_steps hl
        · rename_i t ops ho
          exact serviceFinishTurn_steps hl ho

/-- The next runnable stream leaves the queue and has its turn. -/
theorem takeTurn_steps {id : Nat} {rest : OnceQueue Nat}
    (hp : w.reg.runnableSend.pop = some (id, rest)) :
    Turned T w id (({ w with reg.runnableSend := rest }.emit (.turn id)).serviceSendTurn T id) := by
  by_cases hr : ∃ s code, w.reg.send.lookup id = some s ∧ s.pendingReset = some code
  · obtain ⟨s, code, hs, hc⟩ := hr
    have he : ({ w with reg.runnableSend := rest }.emit (.turn id)).serviceSendTurn T id =
        (.drop, ({ w with reg.runnableSend := rest }.emit (.turn id)).serviceReset T id code
          s) := by
      have hs' : ({ w with reg.runnableSend := rest }.emit (.turn id)).reg.send.lookup id =
        some s := hs
      simp only [serviceSendTurn, hs', hc]
    rw [he]
    exact .of_ne (serviceReset_steps hp hs hc) (by simp)
  · have hn : ∀ s, w.reg.send.lookup id = some s → s.pendingReset = none := by
      intro s hs
      by_contra hne
      obtain ⟨code, hc⟩ := Option.ne_none_iff_exists'.mp hne
      exact hr ⟨s, code, hs, hc⟩
    have h1 := Steps.one (T := T) (.popRunnable w id rest hp hn)
    have h2 := serviceSendTurn_steps (T := T) ({ w with reg.runnableSend := rest }.emit (.turn id))
      id (OnceQueue.not_mem_of_pop hp) hn
    exact ⟨h1.trans h2.1, h2.2⟩

theorem sendLoop_steps : ∀ (n : Nat) (w : World σ), Steps T w (sendLoop T n w)
  | 0, w => by
    unfold sendLoop
    split
    · exact ctl_steps w _
    · exact .refl
  | n + 1, w => by
    unfold sendLoop
    split
    · exact .refl
    · rename_i id rest hp
      have h2 := takeTurn_steps (T := T) hp
      dsimp only
      split
      · rename_i w' hx
        rw [hx] at h2
        have h3 := (h2.1.tail (.markRunnable w' id (h2.2 rfl))).trans
          (ctl_steps _ { w'.ctl with needsIteration := true })
        exact h3.trans (sendLoop_steps n _)
      · rename_i w' _ hx
        rw [hx] at h2
        exact h2.1.trans (sendLoop_steps n _)

/-! ## 6. The writable scan -/

theorem writableRegistered_steps {id : Nat} {s : StreamSendState}
    (hs : w.reg.send.lookup id = some s) : Steps T w (w.writableRegistered T id) := by
  unfold writableRegistered
  obtain ⟨ans, c, ha⟩ := streamCapacity_eq (T := T) w id
  rw [ha]
  have h1 := (ctl_steps (T := T) w c).tail
    (.capacity _ id ans (Option.isSome_iff_exists.mpr ⟨s, hs⟩))
  have hs1 : ({ w with ctl := c }.emit (.streamCapacity id ans)).reg.send.lookup id = some s := hs
  generalize { w with ctl := c }.emit (.streamCapacity id ans) = w1 at h1 hs1 ⊢
  dsimp only
  rw [hs1]
  dsimp only
  split
  · split
    · exact h1
    · rename_i hg
      simp only [Bool.or_eq_true, not_or, Bool.not_eq_true, Option.isSome_eq_false_iff,
        Option.isNone_iff_eq_none] at hg
      exact h1.trans (sendEnd_steps _ ⟨hs1, hg.2, hg.1⟩)
  · split
    · exact h1.tail (.markRunnable w1 id (by rw [hs1]; rfl))
    · exact h1

theorem writableDiscover_steps {id : Nat} (hs : w.reg.send.lookup id = none)
    (hb : isBidi id = true) (ha : ∀ sd rd, w.reg.admission.lookup id ≠ some (.registered sd rd)) :
    Steps T w ((w.emit (.writableNext id (w.reg.writeTracked id))).writableDiscover T id) := by
  unfold writableDiscover
  obtain ⟨ans, c, hc⟩ :=
    streamCapacity_eq (T := T) (w.emit (.writableNext id (w.reg.writeTracked id))) id
  rw [hc]
  have h1 := ctl_steps (T := T) w c
  -- the report, when the id is tracked
  have h2 (ht : w.reg.writeTracked id = true) :
      Steps T w ({ w with ctl := c }.emit (.writableNext id (w.reg.writeTracked id))) := by
    rw [ht]
    exact h1.tail (.probe _ (.writableNext id true) trivial)
  dsimp only
  split
  · rename_i peer hp
    have hp : w.reg.pendingAdmit.lookup id = some peer := hp
    exact (h2 (by simp [Registry.writeTracked, hp])).tail
      (.mergePending _ id ans peer hs hp)
  · rename_i hp
    have hp : w.reg.pendingAdmit.lookup id = none := hp
    split
    · rename_i peer hpk
      have hpk : w.reg.admission.lookup id = some (.parked peer) := hpk
      exact (h2 (by simp [Registry.writeTracked, hpk])).tail
        (.mergeParked _ id ans peer hs hpk)
    · rename_i hnp
      have hnone : w.reg.admission.lookup id = none := by
        cases hx : w.reg.admission.lookup id with
        | none => rfl
        | some st =>
          cases st with
          | parked peer => exact absurd hx (hnp peer)
          | registered sd rd => exact absurd hx (ha sd rd)
      have hu : w.reg.writeTracked id = false := by
        simp [Registry.writeTracked, hs, hb, hnone, hp]
      rw [hu]
      exact (h1.tail (.discover _ id ans hu)).trans (ctl_steps _ { c with needsIteration := true })

theorem writableOne_steps (w : World σ) (id : Nat) :
    Steps T w ((w.emit (.writableNext id (w.reg.writeTracked id))).writableOne T id) := by
  -- a tracked id that the scan leaves alone
  have hp (ht : w.reg.writeTracked id = true) :
      Steps T w (w.emit (.writableNext id (w.reg.writeTracked id))) := by
    rw [ht]
    exact .one (.probe w _ trivial)
  unfold writableOne
  split
  · rename_i hs
    obtain ⟨s, hs⟩ := Option.isSome_iff_exists.mp hs
    have hs : w.reg.send.lookup id = some s := hs
    exact (hp (by simp [Registry.writeTracked, hs])).trans (writableRegistered_steps hs)
  · rename_i hs
    have hs : w.reg.send.lookup id = none := Option.not_isSome_iff_eq_none.mp hs
    split
    · rename_i hb
      exact hp (by simp [Registry.writeTracked, by simpa using hb])
    · rename_i hb
      split
      · rename_i sd rd ha
        have ha : w.reg.admission.lookup id = some (.registered sd rd) := ha
        exact hp (by simp [Registry.writeTracked, ha])
      · rename_i ha
        exact writableDiscover_steps hs (by simpa using hb) ha

theorem writableLoop_steps : ∀ (n : Nat) (w : World σ), Steps T w (writableLoop T n w)
  | 0, w => ctl_steps w _
  | n + 1, w => by
    unfold writableLoop
    split
    · exact ctl_steps w _
    · rename_i id c _
      exact ((ctl_steps w { w.ctl with qconn := c }).trans (writableOne_steps _ id)).trans
        (writableLoop_steps n _)

/-! ## 7. Commands -/

theorem nextCommand_cases (w : World σ) :
    (∃ w', w.nextCommand = (none, w') ∧ Steps T w w') ∨
    ∃ cmd w1 w', w.nextCommand = (some cmd, w') ∧ Steps T w w1 ∧ w1.Popped cmd w' := by
  unfold nextCommand
  split
  · rename_i cmd rest hi
    exact .inr ⟨cmd, w, _, rfl, .refl, .inbox hi⟩
  · rename_i hi
    dsimp only
    split
    · rename_i cmd rest hc
      exact .inr ⟨cmd, w.interleave, _, rfl, interleave_steps w, .channel hi hc⟩
    · exact .inl ⟨_, rfl, interleave_steps w⟩

theorem Popped.setCtl {w' : World σ} {cmd : DriverCommand} (hp : w.Popped cmd w') (c : Ctl σ) :
    { w with ctl := c }.Popped cmd { w' with ctl := c } := by
  cases hp with
  | inbox h => exact .inbox h
  | channel h0 h => exact .channel h0 h

theorem mem_trace_ensureSend {id : Nat} {e : Event} (he : e ∈ w.trace) :
    e ∈ (w.ensureSend id).trace := by
  unfold ensureSend
  split
  · exact he
  · rename_i hn
    simp only [insertSend, dropSendEntry, hn]
    exact List.mem_cons_of_mem _ he

theorem applyCommand_steps {w' : World σ} {cmd : DriverCommand} (hp : w.Popped cmd w') :
    Steps T w (w'.applyCommand T cmd) := by
  have h1 := Steps.one (Step.apply (T := T) w w' cmd hp)
  cases cmd with
  | acceptBidiResume => exact (h1.trans (interleave_steps _)).tail (.acceptFlag _ true true)
  | acceptUniResume => exact (h1.trans (interleave_steps _)).tail (.acceptFlag _ false true)
  | reset id code =>
    refine (h1.trans (interleave_steps _)).tail (.resetEntry _ id code ?_)
    exact (interleave_rel _).grows.mem (mem_trace_ensureSend List.mem_cons_self)
  | stopSending id code =>
    let c := { w'.ctl with qconn := (T.streamShutdown w'.ctl.qconn id .read code).2 }
    have h2 := Step.apply (T := T) _ _ (.stopSending id code) (hp.setCtl c)
    have he : (w'.emit (.applied (.stopSending id code))).streamShutdown T id .read code =
        ({ w' with ctl := c }.emit (.applied (.stopSending id code))).emit
          (.streamShutdown id .read code) := rfl
    simp only [applyCommand, he]
    exact (ctl_steps w c).tail h2
  | close code reason =>
    simp only [applyCommand]
    split
    · exact h1.trans (ctl_steps _ _)
    · exact h1
  | _ => exact h1

theorem applyLoop_steps : ∀ (n : Nat) (w : World σ), Steps T w (applyLoop T n w)
  | 0, w => by
    unfold applyLoop
    split
    · exact ctl_steps w _
    · exact .refl
  | n + 1, w => by
    unfold applyLoop
    rcases nextCommand_cases (T := T) w with ⟨w', he, hs⟩ | ⟨cmd, w1, w', he, hs, hp⟩
    · rw [he]
      exact hs
    · rw [he]
      exact (hs.trans (applyCommand_steps hp)).trans (applyLoop_steps n _)

/-! ## 8. The callbacks -/

theorem callClose_steps (w : World σ) (code : Nat) (reason : Bytes) (msg : String) :
    Steps T w (w.callClose T code reason msg) := by
  unfold callClose
  dsimp only
  have h1 := (ctl_steps (T := T) w { w.ctl with
      qconn := (T.close w.ctl.qconn true code reason).2, explicitCloseAttempted := true }).tail
    (.probe _ (.connClose code reason (T.close w.ctl.qconn true code reason).1) trivial)
  split
  · exact h1.trans (ctl_steps _ _)
  · exact h1.trans (ctl_steps _ _)
  · exact h1.trans (ctl_steps _ _)

theorem applyCloseBarrier_steps (w : World σ) : Steps T w (w.applyCloseBarrier T) := by
  unfold applyCloseBarrier
  split
  · exact .refl
  · split
    · exact (ctl_steps w _).trans (callClose_steps _ _ _ _)
    · split
      · exact callClose_steps _ _ _ _
      · exact .refl

theorem doProcessReads_steps (w : World σ) : Steps T w (w.doProcessReads T) :=
  (ctl_steps w _).trans (runReadPump_steps _)

theorem startIteration_steps (w : World σ) : Steps T w w.startIteration := by
  unfold startIteration
  split
  · exact .refl
  · exact ctl_steps w _

theorem endIteration_steps (w : World σ) : Steps T w (w.endIteration T) :=
  (((ctl_steps w { w.ctl with readsRanThisIter := false }).trans (interleave_steps _)).trans
    (ctl_steps _ _)).trans (applyCloseBarrier_steps _)

theorem doProcessWrites_steps (w : World σ) : Steps T w (w.doProcessWrites T) := by
  have h1 := (startIteration_steps (T := T) w).trans (applyLoop_steps cmdBudget _)
  have h2 : Steps T w (if !w.ctl.readsRanThisIter then (w.startIteration.applyInbox T).runReadPump T
      else w.startIteration.applyInbox T) := by
    split
    · exact h1.trans (runReadPump_steps _)
    · exact h1
  have h3 := ((h2.trans (openLoop_steps true openBudget _)).trans
    (openLoop_steps false openBudget _)).trans (writableLoop_steps writableBudget _)
  exact (h3.trans (sendLoop_steps writeBudget _)).trans (endIteration_steps _)

theorem quiescentHeldIds_registered {r : Registry} {id : Nat} (h : id ∈ quiescentHeldIds r) :
    (r.send.lookup id).isSome := by
  simp only [quiescentHeldIds, List.mem_map, List.mem_filter] at h
  obtain ⟨x, ⟨hx, -⟩, rfl⟩ := h
  exact AList.lookup_isSome.mpr (List.mem_keys_of_mem hx)

theorem markSendRunnables_steps : ∀ (ids : List Nat) (w : World σ),
    (∀ id ∈ ids, (w.reg.send.lookup id).isSome) →
    Steps T w { w with reg := ids.foldl Registry.markSendRunnable w.reg }
  | [], _, _ => .refl
  | id :: ids, w, h => by
    refine .head (.markRunnable w id (h id List.mem_cons_self)) ?_
    exact markSendRunnables_steps ids { w with reg := w.reg.markSendRunnable id }
      fun i hi => h i (List.mem_cons_of_mem _ hi)

theorem waitForData_steps (w : World σ) : Steps T w w.waitForData := by
  unfold waitForData
  split
  · exact .refl
  · exact interleave_steps w
  · dsimp only
    split
    · rename_i cmd rest hc
      exact (interleave_steps w).tail (.toInbox _ cmd rest hc)
    · split
      · exact (interleave_steps w).trans (ctl_steps _ _)
      · split
        · have h1 := (interleave_steps (T := T) w).trans
            (markSendRunnables_steps (quiescentHeldIds w.interleave.reg) w.interleave
              fun id hi => quiescentHeldIds_registered hi)
          unfold markQuiescentHeldWritesRunnable
          dsimp only
          split
          · exact h1.trans (ctl_steps _ _)
          · exact h1
        · exact interleave_steps w

theorem tick_steps (w : World σ) (t : Tick σ) : Steps T w (w.tick T t) := by
  cases t with
  | processReads => exact doProcessReads_steps w
  | processWrites => exact doProcessWrites_steps w
  | waitForData => exact waitForData_steps w
  | transport c => exact ctl_steps w _
  | front a => exact .one (.front w a)

/-- **Every run is a sequence of steps.** -/
theorem run_steps : ∀ (ticks : List (Tick σ)) (w : World σ), Steps T w (w.run T ticks)
  | [], _ => .refl
  | t :: ticks, w => (tick_steps w t).trans (run_steps ticks (w.tick T t))

end World

end QuicheH3
