/-
# The stages over a stuck transport

Function by function: what a stage does when the transport is stuck is to ease the world.  The
loops with a budget carry one more fact, on which the bound rests: a loop that leaves something
in its queue, or asks for another iteration, has taken something off the load.

What a stuck transport refuses differs from stage to stage: there is nothing to read, there is no
credit for a new stream, there is no room to send into.  Admission goes on as usual: streams move
from their queue to the accepting task, which is work taken away.

Contents
  1  the read pump, 2 admission, 3 opening
  4  the send stage
-/
import QuicheH3.Rest.Ease

namespace QuicheH3

open Lib

namespace World

variable {σ : Type} {T : QuicConn σ} {B : Blockade σ} {w w' w'' : World σ}

/-- After a call that changes nothing but the transport and the history. -/
def probed (w : World σ) (c : σ) (e : Event) : World σ := { w with ctl.qconn := c }.emit e

namespace Ease

/-! ## 1. The read pump: nothing is there to be read -/

theorem drainStream (hT : T.Stuck B.stuck) (w : World σ) (hb : 0 < w.ctl.readBudget) (id : Nat) :
    Ease B w (w.drainStream T id) := by
  intro hr
  unfold World.drainStream
  split
  · rename_i h hh
    have h1 := reserve.reserveOrPark w id h hr
    change Eases B w (drainLoop T id h (15 + 1) w)
    unfold drainLoop
    rw [if_neg (Nat.ne_of_gt hb)]
    rcases hw1 : w.reserveOrPark id h with ⟨ans, w1⟩
    rw [hw1] at h1
    cases ans with
    | full => exact h1
    | closed =>
      exact h1.trans (((streamShutdown hT w1 id .read h3NoError).trans (markRecvDone _ id))
        h1.ready)
    | permit =>
      -- the call answers `Done`: the permit goes back and the drain stops
      have hrecv := hT.recv _ id h1.ready.conn
      have h2 : Eases B w (w1.interleave.streamRecv T id).2 := by
        rw [interleave_silent h1.ready.script]
        exact h1.trans (((call w1 fun _ => hrecv.2).trans (emit _ _)) h1.ready)
      have ha : (w1.interleave.streamRecv T id).1 = .error .done := by
        rw [interleave_silent h1.ready.script]
        exact hrecv.1
      dsimp only
      rcases hw2 : w1.interleave.streamRecv T id with ⟨ans, w2⟩
      rw [hw2] at h2 ha
      cases ha
      exact h2.trans (((modRecv w2 h _).trans (emit _ _)) h2.ready)
  · exact refl w hr

/-- The loops of the pump: work was taken off, or there is a turn left to do so. -/
theorem drainResumedLoop (hT : T.Stuck B.stuck) {w0 : World σ} : ∀ (n : Nat) (w : World σ),
    0 < w.ctl.readBudget → Eases B w0 w → (n = 0 → load w < load w0) →
    Eases B w0 (drainResumedLoop T n w) ∧
      ((World.drainResumedLoop T n w).reg.pendingResume.queue ≠ [] →
        load (World.drainResumedLoop T n w) < load w0)
  | 0, w, _, h, hn => ⟨h, fun _ => hn rfl⟩
  | n + 1, w, hb, h, _ => by
    unfold World.drainResumedLoop
    cases hp : w.reg.pendingResume.pop with
    | none => exact ⟨h, fun hx => absurd (OnceQueue.pop_eq_none.mp hp) hx⟩
    | some x =>
      obtain ⟨id, rest⟩ := x
      have hlen := OnceQueue.length_pop hp
      have h1 : Eases B w { w with reg.pendingResume := rest } :=
        reg w { Lighter.refl w.reg with resume := by dsimp only; omega } h.ready
      have hlt : load ({ w with reg.pendingResume := rest } : World σ) < load w0 := by
        have h0 := h.load_le
        simp only [load, regLoad, opsQueued] at h0 ⊢
        omega
      dsimp only
      split
      · exact drainResumedLoop hT n _ hb (h.trans h1) fun _ => hlt
      · rename_i i hi
        have h2 := ((reserve (B := B).storeResume { w with reg.pendingResume := rest } id false).trans
          ((emit _ (.drain i)).trans (reserve.storeBlocked _ id false))) h1.ready
        have hb2 := h2.budget.trans_gt hb
        have h3 := h2.trans (drainStream hT _ hb2 id h2.ready)
        exact drainResumedLoop hT n _ (h3.budget.trans_gt hb) ((h.trans h1).trans h3)
          fun _ => h3.load_le.trans_lt hlt

theorem phase1Loop (hT : T.Stuck B.stuck) {w0 : World σ} : ∀ (n : Nat) (w : World σ),
    0 < w.ctl.readBudget → Eases B w0 w → (n = 0 → load w < load w0) →
    Eases B w0 (phase1Loop T n w) ∧
      ((World.phase1Loop T n w).reg.pendingReadable.queue ≠ [] →
        load (World.phase1Loop T n w) < load w0)
  | 0, w, _, h, hn => ⟨h, fun _ => hn rfl⟩
  | n + 1, w, hb, h, _ => by
    unfold World.phase1Loop
    rw [if_neg (Nat.ne_of_gt hb)]
    cases hp : w.reg.pendingReadable.pop with
    | none => exact ⟨h, fun hx => absurd (OnceQueue.pop_eq_none.mp hp) hx⟩
    | some x =>
      obtain ⟨id, rest⟩ := x
      have hlen := OnceQueue.length_pop hp
      have h1 : Eases B w { w with reg.pendingReadable := rest } :=
        reg w { Lighter.refl w.reg with readable := by dsimp only; omega } h.ready
      have hlt : load ({ w with reg.pendingReadable := rest } : World σ) < load w0 := by
        have h0 := h.load_le
        simp only [load, regLoad, opsQueued] at h0 ⊢
        omega
      dsimp only
      split
      · exact phase1Loop hT n _ hb (h.trans h1) fun _ => hlt
      · rename_i i hi
        have h2 := emit (B := B) { w with reg.pendingReadable := rest } (.drain i) h1.ready
        have h3 := h2.trans (drainStream hT _ (h2.budget.trans_gt hb) id h2.ready)
        exact phase1Loop hT n _ (h3.budget.trans_gt hb) ((h.trans h1).trans h3)
          fun _ => h3.load_le.trans_lt hlt

theorem intakeReadable (hT : T.Stuck B.stuck) (w : World σ) : Ease B w (w.intakeReadable T) := by
  intro hr
  obtain ⟨hn, hc⟩ := hT.readableNext _ hr.conn
  have h1 : w.intakeReadable T = { w with ctl.qconn := (T.streamReadableNext w.ctl.qconn).2 } := by
    change World.intakeLoop T (31 + 1) w = _
    unfold World.intakeLoop
    rcases hx : T.streamReadableNext w.ctl.qconn with ⟨ans, c⟩
    rw [hx] at hn
    cases hn
    rfl
  rw [h1]
  exact call w (fun _ => hc) hr

/-! ## 2. Admission -/

theorem buildSend (w : World σ) {id : Nat} (hid : B.loose id) (retained : Option SendEnd) :
    Ease B w (w.buildSend id retained).2 := by
  have h1 : Ease B w ({ w with
      sh.nextSend := w.sh.nextSend + 1
      sh.senders := w.sh.senders + 1
      sh.sendHalves := Function.update w.sh.sendHalves w.sh.nextSend
        { (default : SendHalf) with id := id, holder := .handoff } }.emit
          (.handle id w.sh.nextSend)) :=
    face w { w.toFace with sh := _, trace := _ } rfl (Nat.le_succ _) fun _ hb => hb
  cases retained with
  | some e => exact h1.trans (cells.setSendCell _ _ e)
  | none => exact h1.trans (insertSend _ id _ fun _ _ _ => hid)

theorem pushAcceptBidi (w : World σ) (id : Nat) (x : Nat × Nat) :
    Ease B w (w.pushAcceptBidi id x) := face w _ rfl le_rfl fun _ hb => hb

theorem pushAcceptUni (w : World σ) (id h : Nat) : Ease B w (w.pushAcceptUni id h) :=
  face w _ rfl le_rfl fun _ hb => hb

theorem registerBidi (w : World σ) {peer : PeerStream} (hp : B.loose peer.id) :
    Ease B w (w.registerBidi peer) := by
  have h1 := ((recvs (B := B)).buildRecv w peer.id peer.pendingRecvTerminal).trans
    (buildSend _ hp peer.pendingSendTerminal)
  exact (h1.trans (reg _ (.putAdmission _ _ fun _ h => by cases h))).trans
    ((interleave _).trans (pushAcceptBidi _ _ _))

theorem registerUni (w : World σ) (peer : PeerStream) : Ease B w (w.registerUni peer) := by
  have h1 := (recvs (B := B)).buildRecv w peer.id peer.pendingRecvTerminal
  exact (h1.trans (reg _ (.putAdmission _ _ fun _ h => by cases h))).trans
    ((interleave _).trans (pushAcceptUni _ _ _))

theorem admitFinish (hT : T.Stuck B.stuck) (w : World σ) (hb : 0 < w.ctl.readBudget) (id : Nat) :
    Ease B w (w.admitFinish T id) := by
  intro hr
  have h1 := terminalTransition w id hr
  unfold World.admitFinish
  dsimp only
  split
  · rename_i h hh
    have h2 := h1.trans (emit _ (.drain h) h1.ready)
    exact h2.trans (drainStream hT _ (h2.budget.trans_gt hb) id h2.ready)
  · exact h1

/-- A stream that finds its accept queue full is given back as it came. -/
theorem admitOne (hT : T.Stuck B.stuck) (w : World σ) (hb : 0 < w.ctl.readBudget)
    {peer : PeerStream} (hp : B.loose peer.id) (hr : Ready B w) :
    Eases B w (w.admitOne T peer).2 ∧ ∀ p, (w.admitOne T peer).1 = .full p → B.loose p.id := by
  have hi := interleave_silent hr.script
  unfold World.admitOne
  simp only [hi]
  split
  · split
    · exact ⟨shutdownPeerDirections hT w peer.id true hr, nofun⟩
    · split
      · exact ⟨refl w hr, fun p hx => AdmitResult.full.inj hx ▸ hp⟩
      · split
        · exact ⟨shutdownPeerDirections hT w peer.id true hr, nofun⟩
        · have h1 := registerBidi w hp hr
          exact ⟨h1.trans (admitFinish hT _ (h1.budget.trans_gt hb) peer.id h1.ready), nofun⟩
  · split
    · exact ⟨shutdownPeerDirections hT w peer.id false hr, nofun⟩
    · split
      · exact ⟨refl w hr, fun p hx => AdmitResult.full.inj hx ▸ hp⟩
      · split
        · exact ⟨shutdownPeerDirections hT w peer.id false hr, nofun⟩
        · have h1 := registerUni w peer hr
          exact ⟨h1.trans (admitFinish hT _ (h1.budget.trans_gt hb) peer.id h1.ready), nofun⟩

theorem parked (w : World σ) (bidi : Bool) (q : List Nat) :
    Ease B w { w with reg := setParkedOf w.reg bidi q } := by
  cases bidi <;> exact reg w { Lighter.refl w.reg with }

theorem parkPeer (w : World σ) (bidi front : Bool) (id : Nat) {peer : PeerStream}
    (hp : B.loose peer.id) : Ease B w (w.parkPeer bidi front id peer) := by
  refine Ease.trans (reg w (.putAdmission _ id (a := .parked peer) fun p hx => ?_))
    (parked _ bidi _)
  exact AdmitState.parked.inj hx ▸ hp

/-- The pending queue of a class gets shorter. -/
theorem pending (w : World σ) (bidi : Bool) (q : List Nat)
    (hq : q.length ≤ (pendingOf w.reg bidi).length) :
    Ease B w { w with reg := setPendingOf w.reg bidi q } := by
  cases bidi with
  | true => exact reg w { Lighter.refl w.reg with bidi := hq }
  | false => exact reg w { Lighter.refl w.reg with uni := hq }

theorem load_setPendingOf {bidi : Bool} {id : Nat} {rest : List Nat}
    (hq : pendingOf w.reg bidi = id :: rest) :
    load ({ w with reg := setPendingOf w.reg bidi rest } : World σ) < load w := by
  have hlen := congrArg List.length hq
  cases bidi <;> simp [pendingOf, setPendingOf, load, regLoad, opsQueued] at hlen ⊢ <;> omega

/-- The class a turn selects has a stream to offer. -/
theorem pendingOf_selected {r : Registry} {b u p : Bool}
    (hr : ((!b && !r.pendingAdmitBidi.isEmpty) || (!u && !r.pendingAdmitUni.isEmpty)) = true) :
    pendingOf r (if (!b && !r.pendingAdmitBidi.isEmpty) && (!u && !r.pendingAdmitUni.isEmpty)
      then p else !b && !r.pendingAdmitBidi.isEmpty) ≠ [] := by
  cases hb : !b && !r.pendingAdmitBidi.isEmpty <;> cases hu : !u && !r.pendingAdmitUni.isEmpty
  · simp [hb, hu] at hr
  all_goals cases p <;> simp_all [pendingOf]

/-- Every turn of `phase2_admission` takes one stream off a pending queue, and there is a first
turn unless both queues are empty. -/
theorem phase2Loop (hT : T.Stuck B.stuck) {w0 : World σ} :
    ∀ (fuel budget : Nat) (b u p : Bool) (w : World σ), 0 < w.ctl.readBudget → Eases B w0 w →
    (load w < load w0 ∨ (budget ≠ 0 ∧ b = false ∧ u = false ∧
      w.reg.pendingAdmitBidi.length + w.reg.pendingAdmitUni.length ≤ fuel)) →
    Eases B w0 (phase2Loop T fuel budget b u p w) ∧
      (∀ c, pendingOf (World.phase2Loop T fuel budget b u p w).reg c ≠ [] →
        load (World.phase2Loop T fuel budget b u p w) < load w0)
  | 0, budget, b, u, p, w, _, h, hd => by
    refine ⟨h, fun c hc => hd.resolve_right ?_⟩
    rintro ⟨-, -, -, hl⟩
    have := List.length_pos_iff.mpr hc
    cases c <;> simp only [pendingOf, World.phase2Loop] at this <;> simp at this <;> omega
  | fuel + 1, budget, b, u, p, w, hb, h, hd => by
    unfold World.phase2Loop
    split
    · rename_i h0
      exact ⟨h, fun c hc => hd.resolve_right fun hx => hx.1 h0⟩
    · dsimp only
      split
      · rename_i hready
        have hsel := pendingOf_selected (p := p) hready
        generalize (if (!b && !w.reg.pendingAdmitBidi.isEmpty) &&
          (!u && !w.reg.pendingAdmitUni.isEmpty) then p
          else !b && !w.reg.pendingAdmitBidi.isEmpty) = bidi at hsel ⊢
        split
        · rename_i hq
          exact absurd hq hsel
        · rename_i id rest hq
          have hlt := (load_setPendingOf hq).trans_le h.load_le
          have h1 := pending (B := B) w bidi rest (by simp [hq]) h.ready
          have h2 := reg (B := B) { w with reg := setPendingOf w.reg bidi rest }
            (.erasePending _ id) h1.ready
          have hb1 := h1.budget.trans_gt hb
          split
          · exact phase2Loop hT fuel _ _ _ _ _ (h2.budget.trans_gt hb1) (h.trans (h1.trans h2))
              (.inl hlt)
          · split
            · exact phase2Loop hT fuel _ _ _ _ _ hb1 (h.trans h1) (.inl hlt)
            · rename_i peer hp
              have hloose := h1.ready.reg.waits _ ⟨id, peer, rfl, .inl hp⟩
              obtain ⟨h3, hpark⟩ := admitOne hT _ (h2.budget.trans_gt hb1) hloose h2.ready
              replace h3 := h2.trans h3
              split
              · rename_i w1 hx
                rw [hx] at h3
                exact phase2Loop hT fuel _ _ _ _ w1 (h3.budget.trans_gt hb1)
                  (h.trans (h1.trans h3)) (.inl (h3.load_le.trans_lt hlt))
              · rename_i peer1 w1 hx
                rw [hx] at h3 hpark
                have h4 := h3.trans (parkPeer w1 bidi false id (hpark peer1 rfl) h3.ready)
                exact phase2Loop hT fuel _ _ _ _ _ (h4.budget.trans_gt hb1)
                  (h.trans (h1.trans h4)) (.inl (h4.load_le.trans_lt hlt))
              · rename_i w1 hx
                rw [hx] at h3
                exact phase2Loop hT fuel _ _ _ _ w1 (h3.budget.trans_gt hb1)
                  (h.trans (h1.trans h3)) (.inl (h3.load_le.trans_lt hlt))
      · rename_i hready
        refine ⟨h, fun c hc => hd.resolve_right ?_⟩
        rintro ⟨-, rfl, rfl, -⟩
        cases c <;> simp_all [pendingOf]

theorem phase2Admission (hT : T.Stuck B.stuck) (hb : 0 < w.ctl.readBudget) (h : Ready B w) :
    Eases B w (w.phase2Admission T) ∧ (∀ c, pendingOf (w.phase2Admission T).reg c ≠ [] →
      load (w.phase2Admission T) < load w) :=
  phase2Loop hT _ _ _ _ _ w hb (refl w h) (.inr ⟨by decide, rfl, rfl, le_rfl⟩)

theorem promoteLoop (hT : T.Stuck B.stuck) (bidi : Bool) : ∀ (n : Nat) (w : World σ),
    0 < w.ctl.readBudget → Ease B w (promoteLoop T bidi n w)
  | 0, w, _ => refl w
  | n + 1, w, hb => by
    intro hr
    unfold World.promoteLoop
    split
    · exact refl w hr
    · rename_i id rest hq
      have h1 := parked w bidi rest hr
      dsimp only
      split
      · rename_i peer hp
        have hloose := h1.ready.reg.waits _ ⟨id, peer, rfl, .inr hp⟩
        have h2 := h1.trans (eraseAdmission _ id h1.ready)
        obtain ⟨h3, hpark⟩ := admitOne hT _ (h2.budget.trans_gt hb) hloose h2.ready
        replace h3 := h2.trans h3
        split
        · rename_i w1 hx
          rw [hx] at h3
          exact h3.trans (promoteLoop hT bidi n w1 (h3.budget.trans_gt hb) h3.ready)
        · rename_i peer1 w1 hx
          rw [hx] at h3 hpark
          exact h3.trans (parkPeer w1 bidi true id (hpark peer1 rfl) h3.ready)
        · rename_i w1 hx
          rw [hx] at h3
          exact h3
      · exact h1.trans (promoteLoop hT bidi n _ (h1.budget.trans_gt hb) h1.ready)

theorem clearResume (w : World σ) (bidi : Bool) : Ease B w (w.setAcceptResume bidi false) := by
  cases bidi with
  | true =>
    refine face w { w.toFace with sh.acceptBidiResume := false } rfl le_rfl fun b hb => ?_
    cases b with
    | true => cases hb
    | false => exact hb
  | false =>
    refine face w { w.toFace with sh.acceptUniResume := false } rfl le_rfl fun b hb => ?_
    cases b with
    | true => exact hb
    | false => cases hb

/-- After a promotion pass no resume request of the class is left. -/
theorem promoteParked (hT : T.Stuck B.stuck) (hb : 0 < w.ctl.readBudget) (bidi : Bool)
    (h : Ready B w) :
    Eases B w (w.promoteParked T bidi) ∧
      acceptResumeOf (w.promoteParked T bidi).sh bidi = false := by
  unfold World.promoteParked
  simp only [interleave_silent h.script]
  split
  · have h1 := clearResume w bidi h
    have h2 := promoteLoop hT bidi promoteBudget _ (h1.budget.trans_gt hb) h1.ready
    refine ⟨h1.trans h2, Bool.eq_false_iff.mpr fun hx => ?_⟩
    have hx1 := h2.bits bidi hx
    cases bidi <;> cases hx1
  · rename_i hf
    exact ⟨refl w h, Bool.eq_false_iff.mpr hf⟩

theorem cleanParked (hT : T.Stuck B.stuck) (w : World σ) (id : Nat) :
    Ease B w (w.cleanParked T id) := by
  unfold World.cleanParked
  split
  · exact (shutdownPeerDirections hT w id _).trans (eraseAdmission _ id)
  · exact refl w

theorem cleanPending (hT : T.Stuck B.stuck) (w : World σ) (id : Nat) :
    Ease B w (w.cleanPending T id) := by
  unfold World.cleanPending
  split
  · exact Ease.trans (reg w (.erasePending _ id)) (shutdownPeerDirections hT _ id _)
  · exact refl w

theorem cleanUndeliveredPeerStreams (hT : T.Stuck B.stuck) (w : World σ) :
    Ease B w (w.cleanUndeliveredPeerStreams T) := by
  have h1 := (parked (B := B) w true []).trans (parked _ false [])
  have h2 := h1.trans (cells.foldl _ (cleanParked hT) (w.reg.parkedBidi ++ w.reg.parkedUni) _)
  have h3 := h2.trans ((pending _ true [] (Nat.zero_le _)).trans
    (pending _ false [] (Nat.zero_le _)))
  exact h3.trans (cells.foldl _ (cleanPending hT) _ _)

/-! ## 3. Opening: no credit -/

theorem load_setOpenOf {bidi : Bool} {r : Nat} {rest : List Nat}
    (hq : w.openOf bidi = r :: rest) : load (w.setOpenOf bidi rest) < load w := by
  have hlen := congrArg List.length hq
  cases bidi <;> simp [openOf, setOpenOf, load] at hlen ⊢ <;> omega

theorem setOpenOf (w : World σ) (bidi : Bool) (q : List Nat)
    (hq : q.length ≤ (w.openOf bidi).length) : Ease B w (w.setOpenOf bidi q) := fun h => by
  have h0 := refl w h
  cases bidi with
  | true =>
    exact { h0 with
      ready := ⟨h.conn, h.script, h.reg⟩, needs := .inl
      opens := fun b => by
        cases b with
        | true => exact hq
        | false => exact le_rfl }
  | false =>
    exact { h0 with
      ready := ⟨h.conn, h.script, h.reg⟩, needs := .inl
      opens := fun b => by
        cases b with
        | true => exact le_rfl
        | false => exact hq }

theorem openLoop (hT : T.Stuck B.stuck) (bidi : Bool) {w0 : World σ} : ∀ (n : Nat) (w : World σ),
    Eases B w0 w → (n = 0 → load w < load w0) → Eases B w0 (openLoop T bidi n w)
  | 0, w, h, hn => by
    unfold World.openLoop
    split
    · exact h.iterate (hn rfl)
    · exact h
  | n + 1, w, h, _ => by
    unfold World.openLoop
    split
    · exact h
    · rename_i r rest hq
      have h1 := setOpenOf (B := B) w bidi rest (by simp [hq]) h.ready
      simp only [interleave_silent h1.ready.script]
      split
      · exact openLoop hT bidi n _ (h.trans h1) fun _ => (load_setOpenOf hq).trans_le h.load_le
      · -- the request at the head goes back, and nothing more is asked for
        have hc : creditOf T (w.setOpenOf bidi rest).ctl.qconn bidi = 0 := by
          cases bidi with
          | true => exact hT.creditBidi _ h1.ready.conn
          | false => exact hT.creditUni _ h1.ready.conn
        rw [if_pos hc]
        have h2 : (w.setOpenOf bidi rest).setOpenOf bidi (r :: (w.setOpenOf bidi rest).openOf bidi)
            = w.setOpenOf bidi (r :: rest) := by
          cases bidi <;> rfl
        rw [h2]
        exact h.trans (setOpenOf w bidi _ (by simp [hq]) h.ready)

theorem stageOpen (hT : T.Stuck B.stuck) (w : World σ) : Ease B w (w.stageOpen T) := fun h => by
  have h1 := openLoop hT true openBudget w (refl w h) nofun
  exact h1.trans (openLoop hT false openBudget _ (refl _ h1.ready) nofun)

/-! ## 4. The send stage: nothing is taken -/

theorem stageWritable (hT : T.Stuck B.stuck) (w : World σ) : Ease B w (w.stageWritable T) := by
  intro hr
  obtain ⟨hn, hc⟩ := hT.writableNext _ hr.conn
  have h1 : w.stageWritable T = { w with ctl.qconn := (T.streamWritableNext w.ctl.qconn).2 } := by
    change World.writableLoop T (31 + 1) w = _
    unfold World.writableLoop
    rcases hx : T.streamWritableNext w.ctl.qconn with ⟨ans, c⟩
    rw [hx] at hn
    cases hn
    rfl
  rw [h1]
  exact call w (fun _ => hc) hr

theorem probed {c : σ} (hc : B.stuck c) (e : Event) : Ease B w (w.probed c e) :=
  (call w fun _ => hc).trans (emit _ e)

theorem rearmSend_eq (hT : T.Stuck B.stuck) (id : Nat) (h : Ready B w) :
    ∃ c e, B.stuck c ∧ w.rearmSend T id = (.park, w.probed c e) := by
  obtain ⟨hn, hc⟩ := hT.writable _ id rearmThreshold h.conn
  refine ⟨_, .streamWritable id (.ok false), hc, ?_⟩
  unfold World.rearmSend
  have ha : w.streamWritable T id rearmThreshold = (.ok false,
      { w with ctl.qconn := (T.streamWritable w.ctl.qconn id rearmThreshold).2 }.emit
        (.streamWritable id (.ok false))) := by
    unfold World.streamWritable
    dsimp only
    rw [hn]
  rw [ha]
  rfl

theorem rearmSend (hT : T.Stuck B.stuck) (id : Nat) (h : Ready B w) :
    Eases B w (w.rearmSend T id).2 ∧ (w.rearmSend T id).1 = .park := by
  obtain ⟨c, e, hc, hx⟩ := rearmSend_eq hT id h
  rw [hx]
  exact ⟨probed hc e h, rfl⟩

theorem classifySendErr (hT : T.Stuck B.stuck) (id : Nat) (err : QuicheError) (h : Ready B w)
    (ho : Occupied w id) :
    Eases B w (w.classifySendErr T id err).2 ∧ (w.classifySendErr T id err).1 ≠ .requeue := by
  have hseal (e : SendEnd) : Eases B w (w.interleave.sendTerminalTransition id e) := by
    rw [interleave_silent h.script]
    exact sendTerminalTransition w id e ho h
  unfold World.classifySendErr
  split
  · exact ⟨hseal _, nofun⟩
  · obtain ⟨h1, h2⟩ := rearmSend hT id h
    exact ⟨h1, by rw [h2]; nofun⟩
  · split
    · exact ⟨hseal _, nofun⟩
    · exact ⟨reg w (.dropSendMembership _ id) h, nofun⟩
  · exact ⟨hseal _, nofun⟩
  · exact ⟨hseal _, nofun⟩

/-- Bytes that are offered are refused. -/
theorem sendFromBuf (hT : T.Stuck B.stuck) (id : Nat) (fin : Bool) {buf : WriteBuf}
    (hr : buf.hasRemaining = true) (h : Ready B w) :
    ∃ c e, B.stuck c ∧ QuicheH3.sendFromBuf buf (offer T id fin buf.remaining) w =
      (.error .done, buf, w.probed c e) := by
  have hne : buf.chunk.take (min buf.chunk.length maxWriteChunk) ≠ [] := by
    have hc : buf.chunk ≠ [] := fun hc =>
      (WriteBuf.hasRemaining_iff buf).mp hr ((WriteBuf.chunk_eq_nil_iff buf).mp hc)
    have hpos := List.length_pos_iff.mpr hc
    rw [← List.length_pos_iff, List.length_take]
    exact Nat.lt_min.mpr ⟨Nat.lt_min.mpr ⟨hpos, by decide⟩, hpos⟩
  have ha := hT.send _ id _ (fin && min buf.chunk.length maxWriteChunk == buf.remaining) h.conn hne
  refine ⟨_, .streamSend id (buf.chunk.take (min buf.chunk.length maxWriteChunk))
    (fin && min buf.chunk.length maxWriteChunk == buf.remaining) (.error .done),
    hT.sent _ id (buf.chunk.take (min buf.chunk.length maxWriteChunk))
    (fin && min buf.chunk.length maxWriteChunk == buf.remaining) h.conn, ?_⟩
  unfold QuicheH3.sendFromBuf offer World.streamSend
  rw [if_pos hr]
  dsimp only
  rw [ha]
  rfl

theorem quiescentHeld_of_held {s : StreamSendState} (h : s.held = none) :
    StreamSendState.quiescentHeld s = false := by
  simp [StreamSendState.quiescentHeld, h]

/-- A held write is refused, unless there is nothing in it. -/
theorem flushHeldOnce (hT : T.Stuck B.stuck) (id : Nat) (fin : Bool) (h : Ready B w) :
    Eases B w (w.flushHeldOnce T id fin).2 ∧
      ((w.flushHeldOnce T id fin).1 = .blocked ∨ (w.flushHeldOnce T id fin).1 = .terminal ∨
        ((w.flushHeldOnce T id fin).1 = .complete ∧
          ∀ s, (w.flushHeldOnce T id fin).2.reg.send.lookup id = some s → s.held = none)) := by
  unfold World.flushHeldOnce
  split
  · rename_i hs
    exact ⟨refl w h, .inr (.inr ⟨rfl, fun s hx => by rw [hs] at hx; cases hx⟩)⟩
  · rename_i s hs
    split
    · rename_i hh
      refine ⟨refl w h, .inr (.inr ⟨rfl, fun x hx => ?_⟩)⟩
      rw [hs] at hx
      cases hx
      exact hh
    · rename_i buf hh
      cases hr : buf.hasRemaining with
      | true =>
        obtain ⟨c, e, hc, hx⟩ := sendFromBuf hT id fin hr h
        have h1 := probed hc e h
        -- `Done` is answered by a re-arm
        obtain ⟨c', e', hc', hy⟩ := rearmSend_eq hT id h1.ready
        have hcls : World.classifySendErr T (w.probed c e) id .done =
            (.park, (w.probed c e).probed c' e') := hy
        dsimp only
        rw [hx]
        dsimp only
        rw [hcls]
        exact ⟨h1.trans (probed hc' e' h1.ready), .inl rfl⟩
      | false =>
        have hx : QuicheH3.sendFromBuf buf (offer T id fin buf.remaining) w = (.ok 0, buf, w) := by
          unfold QuicheH3.sendFromBuf
          rw [hr]
          rfl
        dsimp only
        rw [hx]
        dsimp only
        rw [if_neg (by simp [hr])]
        have hq : StreamSendState.quiescentHeld s = false := Bool.eq_false_iff.mpr fun hq => by
          rw [(h.reg.whole id s hs hq).2 buf hh] at hr
          cases hr
        refine ⟨putSend w hs { s with held := none } le_rfl hq ?_ h,
          .inr (.inr ⟨rfl, fun x hx => ?_⟩)⟩
        · simp [StreamSendState.quiescentHeld]
        · have hl : (w.putSend id { s with held := none }).reg.send.lookup id =
              some { s with held := none } := AList.lookup_insert _
          rw [hl] at hx
          cases hx
          rfl

/-- A write turn completes an empty write or leaves everything as it is. -/
theorem writeTurn (hT : T.Stuck B.stuck) (id : Nat) (h : Ready B w)
    (hh : ∀ s, w.reg.send.lookup id = some s → s.held = none) :
    Eases B w (w.writeTurn T id).2 ∧ ((w.writeTurn T id).1 = .requeue →
      opsQueued (w.writeTurn T id).2.reg < opsQueued w.reg) := by
  unfold World.writeTurn
  split
  · exact ⟨refl w h, nofun⟩
  · rename_i s hs
    split
    · rename_i buf done permit ops ho
      obtain ⟨hn, hc⟩ := hT.capacity _ id h.conn
      have h1 : Eases B w (w.streamCapacity T id).2 := ((call w fun _ => hc).trans (emit _ _)) h
      have ha : (w.streamCapacity T id).1 = .ok 0 := hn
      have hg : (w.streamCapacity T id).2.reg = w.reg := rfl
      rcases hx : w.streamCapacity T id with ⟨ans, w1⟩
      rw [hx] at h1 ha hg
      cases ha
      dsimp only
      rw [if_neg (by omega)]
      cases hr : buf.hasRemaining with
      | true =>
        obtain ⟨c, e, hc, hy⟩ := sendFromBuf hT id false hr h1.ready
        have h2 := probed hc e h1.ready
        obtain ⟨h3, h4⟩ := classifySendErr hT id .done h2.ready
          (.of_lookup (s := s) (hg ▸ hs) (quiescentHeld_of_held (hh s hs)))
        rw [hy]
        exact ⟨(h1.trans h2).trans h3, fun hq => absurd hq h4⟩
      | false =>
        have hy : QuicheH3.sendFromBuf buf (offer T id false buf.remaining) w1 =
            (.ok 0, buf, w1) := by
          unfold QuicheH3.sendFromBuf
          rw [hr]
          rfl
        rw [hy]
        dsimp only
        rw [if_neg (by simp [hr])]
        have hs1 : w1.reg.send.lookup id = some s := hg ▸ hs
        have h2 : Eases B w1 (w1.putSend id { s with sendOps := ops }) := by
          exact putSend w1 hs1 _ (by simp [ho]) (quiescentHeld_of_held (hh s hs))
            (quiescentHeld_of_held (hh s hs)) h1.ready
        have h3 := h2.trans (cells.completeOp _ (.write buf done permit) (.ok ()) h2.ready)
        refine ⟨h1.trans h3, fun _ => ?_⟩
        have hcount := Lighter.card_opsIn_put hs1 { s with sendOps := ops }
        rw [ho, List.length_cons] at hcount
        rw [← hg]
        change Multiset.card (opsIn (w1.reg.send.insert id { s with sendOps := ops })) <
          Multiset.card (opsIn w1.reg.send)
        dsimp only at hcount
        omega
    · exact ⟨refl w h, nofun⟩

theorem serviceWriteTurn (hT : T.Stuck B.stuck) (id : Nat) (h : Ready B w) :
    Eases B w (w.serviceWriteTurn T id).2 ∧ ((w.serviceWriteTurn T id).1 = .requeue →
      opsQueued (w.serviceWriteTurn T id).2.reg < opsQueued w.reg) := by
  unfold World.serviceWriteTurn
  split
  · exact ⟨refl w h, nofun⟩
  · rename_i s hs
    split
    · obtain ⟨h1, ho⟩ := flushHeldOnce hT id false h
      rcases hx : w.flushHeldOnce T id false with ⟨o, w1⟩
      rw [hx] at h1 ho
      rcases ho with rfl | rfl | ⟨rfl, hh⟩
      · exact ⟨h1, nofun⟩
      · exact ⟨h1, nofun⟩
      · obtain ⟨h2, h3⟩ := writeTurn hT id h1.ready hh
        exact ⟨h1.trans h2, fun hq => (h3 hq).trans_le h1.lighter.ops⟩
    · rename_i hn
      refine writeTurn hT id h fun x hx => ?_
      rw [hs] at hx
      cases hx
      simpa using hn

/-- A finish is completed only over an entry that holds nothing. -/
theorem completeFinishOp (w : World σ) (id : Nat)
    (hh : ∀ s, w.reg.send.lookup id = some s → s.held = none) :
    Ease B w (w.completeFinishOp id) := by
  have hrest (w : World σ) (ho : Occupied w id) :
      Ease B w ((w.markSendDone id).reclaimFinishedSend id) :=
    (markSendDone w id ho).trans (reclaimFinishedSend _ id)
  have hocc : Occupied w id := fun s hs => quiescentHeld_of_held (hh s hs)
  unfold World.completeFinishOp
  split
  · rename_i s hs
    split
    · rename_i op ops ho
      -- the operation taken off leaves an entry that holds nothing either
      have hq : StreamSendState.quiescentHeld { s with sendOps := ops } = false :=
        quiescentHeld_of_held (hh s hs)
      have h1 := putSend (B := B) w hs { s with sendOps := ops } (by simp [ho]) (hocc s hs) hq
      refine (h1.trans (cells.completeOp _ op (.ok ()))).trans (hrest _ (.of_lookup ?_ hq))
      cases op <;> exact AList.lookup_insert _
    · exact hrest w hocc
  · exact hrest w hocc

theorem serviceFinishTurn (hT : T.Stuck B.stuck) (id : Nat) (h : Ready B w) :
    Eases B w (w.serviceFinishTurn T id).2 ∧ (w.serviceFinishTurn T id).1 ≠ .requeue := by
  unfold World.serviceFinishTurn
  split
  · exact ⟨refl w h, nofun⟩
  · rename_i s hs
    split
    · obtain ⟨h1, ho⟩ := flushHeldOnce hT id true h
      rcases hx : w.flushHeldOnce T id true with ⟨o, w1⟩
      rw [hx] at h1 ho
      rcases ho with rfl | rfl | ⟨rfl, hh⟩
      · exact ⟨h1, nofun⟩
      · exact ⟨h1, nofun⟩
      · exact ⟨h1.trans (completeFinishOp w1 id hh h1.ready), nofun⟩
    · rename_i hn
      have hc := hT.sent _ id [] true h.conn
      have h1 : Eases B w (w.streamSend T id [] true).2 := ((call w fun _ => hc).trans (emit _ _)) h
      have hg : (w.streamSend T id [] true).2.reg = w.reg := rfl
      rcases hx : w.streamSend T id [] true with ⟨ans, w1⟩
      rw [hx] at h1 hg
      cases ans with
      | ok n =>
        refine ⟨h1.trans (completeFinishOp w1 id (fun x hx => ?_) h1.ready), nofun⟩
        rw [hg, hs] at hx
        cases hx
        simpa using hn
      | error err =>
        obtain ⟨h2, h3⟩ := classifySendErr hT id err h1.ready
          (.of_lookup (s := s) (hg ▸ hs) (quiescentHeld_of_held (by simpa using hn)))
        exact ⟨h1.trans h2, h3⟩

/-- A turn that asks for another one has completed an operation. -/
theorem serviceSendTurn (hT : T.Stuck B.stuck) (id : Nat) (h : Ready B w) :
    Eases B w (w.serviceSendTurn T id).2 ∧ ((w.serviceSendTurn T id).1 = .requeue →
      opsQueued (w.serviceSendTurn T id).2.reg < opsQueued w.reg) := by
  unfold World.serviceSendTurn
  split
  · exact ⟨refl w h, nofun⟩
  · rename_i s hs
    split
    · rename_i code hp
      have hq : StreamSendState.quiescentHeld s = false := Bool.eq_false_iff.mpr fun hq => by
        rw [(h.reg.whole id s hs hq).1] at hp
        cases hp
      have h1 := (putSend (B := B) w hs { s with pendingReset := none } le_rfl hq hq).trans
        (streamShutdown hT _ id .write code)
      refine ⟨(h1.trans (markSendDone _ id ?_)) h, nofun⟩
      exact .of_lookup (s := { s with pendingReset := none }) (AList.lookup_insert _) hq
    · split
      · exact ⟨refl w h, nofun⟩
      · split
        · split
          · obtain ⟨h1, ho⟩ := flushHeldOnce hT id false h
            rcases hx : w.flushHeldOnce T id false with ⟨o, w1⟩
            rw [hx] at h1 ho
            rcases ho with rfl | rfl | ⟨rfl, -⟩ <;> exact ⟨h1, nofun⟩
          · exact ⟨refl w h, nofun⟩
        · exact serviceWriteTurn hT id h
        · obtain ⟨h1, h2⟩ := serviceFinishTurn hT id h
          exact ⟨h1, fun hq => absurd hq h2⟩

/-- A stream is taken off the queue for its turn. -/
theorem popTurn {id : Nat} {rest : OnceQueue Nat} (hp : w.reg.runnableSend.pop = some (id, rest)) :
    Ease B w ({ w with reg.runnableSend := rest }.emit (.turn id)) ∧
      load ({ w with reg.runnableSend := rest }.emit (.turn id)) < load w := by
  have hlen := OnceQueue.length_pop hp
  have h1 : Ease B w { w with reg.runnableSend := rest } :=
    reg w { Lighter.refl w.reg with runnable := by dsimp only; omega }
  refine ⟨h1.trans (emit _ _), ?_⟩
  simp only [load, regLoad, opsQueued, World.emit]
  omega

/-- A stream goes back to the queue after an operation of it was completed. -/
theorem requeueTurn {w1 : World σ} (id : Nat) (h : Eases B w w1)
    (hq : w1.reg.runnableSend.queue.length < w.reg.runnableSend.queue.length)
    (ho : opsQueued w1.reg < opsQueued w.reg) :
    Eases B w { w1 with reg := w1.reg.markSendRunnable id, ctl.needsIteration := true } ∧
      load ({ w1 with reg := w1.reg.markSendRunnable id, ctl.needsIteration := true } : World σ) <
        load w := by
  have hpush := OnceQueue.length_push_le w1.reg.runnableSend id
  have hl : Lighter B.loose w.reg (w1.reg.markSendRunnable id) :=
    { h.lighter with runnable := hpush.trans hq }
  have hlt : load ({ w1 with reg := w1.reg.markSendRunnable id } : World σ) < load w := by
    have h1 := h.lighter.resume
    have h2 := h.lighter.readable
    have h3 := h.lighter.bidi
    have h4 := h.lighter.uni
    have h5 : w1.openBidi.length ≤ w.openBidi.length := h.opens true
    have h6 : w1.openUni.length ≤ w.openUni.length := h.opens false
    have h7 := hl.runnable
    simp only [load, regLoad, h.inbox, Registry.markSendRunnable, opsQueued] at *
    omega
  exact ⟨{ h with ready := ⟨h.ready.conn, h.ready.script, { h.ready.reg with }⟩, lighter := hl
                  needs := fun _ => .inr hlt }, hlt⟩

/-- Every turn of the send stage takes something off the load. -/
theorem sendLoop (hT : T.Stuck B.stuck) {w0 : World σ} : ∀ (n : Nat) (w : World σ),
    Eases B w0 w → (n = 0 → load w < load w0) →
    Eases B w0 (sendLoop T n w) ∧ ((World.sendLoop T n w).reg.runnableSend.queue ≠ [] →
      load (World.sendLoop T n w) < load w0)
  | 0, w, h, hn => by
    unfold World.sendLoop
    split
    · exact ⟨h.iterate (hn rfl), fun _ => hn rfl⟩
    · exact ⟨h, fun _ => hn rfl⟩
  | n + 1, w, h, _ => by
    unfold World.sendLoop
    split
    · rename_i hp
      exact ⟨h, fun hx => absurd (OnceQueue.pop_eq_none.mp hp) hx⟩
    · rename_i id rest hp
      obtain ⟨hpop, hload⟩ := popTurn (B := B) hp
      have h1 := hpop h.ready
      obtain ⟨h2, hq⟩ := serviceSendTurn hT id h1.ready
      have hlt := (h2.load_le.trans_lt hload).trans_le h.load_le
      dsimp only
      split
      · rename_i w1 hy
        rw [hy] at h2 hq
        have hlen := OnceQueue.length_pop hp
        have hr : w1.reg.runnableSend.queue.length ≤ rest.queue.length := h2.lighter.runnable
        obtain ⟨h3, h4⟩ := requeueTurn id (h1.trans h2)
          (hr.trans_lt (by omega)) (hq rfl)
        exact sendLoop hT n _ (h.trans h3) fun _ => h4.trans_le h.load_le
      · rename_i w1 _ hy
        rw [hy] at h2 hlt
        exact sendLoop hT n w1 (h.trans (h1.trans h2)) fun _ => hlt

end Ease

end World

end QuicheH3
