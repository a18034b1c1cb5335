/-
# Admission at the doors

Most of what the worker does is nothing to the accept side: the parked queues stay, the doors
change only as other tasks change them, the commands already taken stay.  `Calm` is that, and
the stages outside admission are calm.  What admission itself does comes down to four updates:
a stream leaves a parked queue, a stream is pushed into an accept queue that had room, a stream
is parked before an OPEN and FULL one, a resume bit is set.

`HallInv I` says that `I` is kept by calm work and by the four, and the loops of admission then
keep it.  The clearing of a resume bit before promotion, and what a command stands for, are left
to the results that are about them.

Contents
  1  calm work, 2 what `admit_one` does at the doors, 3 the clean-up
  4  between the steps of a run, 5 invariants of the hall, 6 the lobby
  7  what an iteration leaves over
-/
import QuicheH3.Accept.Backed
import QuicheH3.Driver.Quota
import QuicheH3.Life.Fate

namespace QuicheH3

open Lib

/-! ## 1. Calm work -/

abbrev Face.FrontDoors : Face → Face → Prop := Relation.ReflTransGen Face.FrontDoor

theorem Face.fronts_doors : ∀ (acts : List FrontAct) (f : Face),
    Face.FrontDoors f (acts.foldl Face.front f)
  | [], _ => .refl
  | a :: acts, f => .head (Face.front_door f a) (Face.fronts_doors acts (f.front a))

/-- The doors after a change of one of them. -/
theorem Face.door_updated {f : Face} {d : Bool → Door} {b : Bool} {x : Door}
    {r : ConnStage × Bool × Option ConnTerminal × Option ConnTerminal × Option ConnTerminal}
    (h : f.hall = (Function.update d b x, r)) (c : Bool) :
    f.sh.door c = if c = b then x else d c := by
  have hd : f.sh.door = Function.update d b x := congrArg Prod.fst h
  rw [hd, Function.update_apply]

namespace World

variable {σ : Type} {T : QuicConn σ} {w w' w'' : World σ}

/-- The parked queues and the inbox stay, and the doors change as other tasks change them. -/
structure Calm (w w' : World σ) : Prop where
  parked : ∀ b, parkedOf w'.reg b = parkedOf w.reg b
  doors : Face.FrontDoors w.toFace w'.toFace
  inbox : w'.inbox = w.inbox

theorem Calm.trans (h : Calm w w') (h' : Calm w' w'') : Calm w w'' :=
  ⟨fun b => (h'.parked b).trans (h.parked b), h.doors.trans h'.doors, h'.inbox.trans h.inbox⟩

/-- Work that does not touch the accept side at all. -/
theorem Calm.aside (hp : ∀ b, parkedOf w'.reg b = parkedOf w.reg b)
    (hh : w'.toFace.hall = w.toFace.hall) (hc : w'.sh.cmdRx = w.sh.cmdRx)
    (hi : w'.inbox = w.inbox) : Calm w w' :=
  ⟨hp, .single (.outside ⟨hh, hc ▸ List.prefix_rfl⟩), hi⟩

theorem Calm.refl (w : World σ) : Calm w w := ⟨fun _ => rfl, .refl, rfl⟩

theorem calm_interleave (w : World σ) : Calm w w.interleave :=
  ⟨fun _ => rfl, Face.fronts_doors (w.ctl.script.headD []) w.toFace, rfl⟩

theorem parkedOf_pushPendingAdmit (r : Registry) (id : Nat) (b : Bool) :
    parkedOf (r.pushPendingAdmit id) b = parkedOf r b := by
  unfold Registry.pushPendingAdmit
  split <;> cases b <;> rfl

/-- **The stages outside admission are calm.** -/
theorem calm_frame : OpenFrame (Calm (σ := σ)) where
  refl := Calm.refl
  trans := Calm.trans
  interleave := calm_interleave
  qconn _ _ := .aside (fun _ => rfl) rfl rfl rfl
  iterate _ := .aside (fun _ => rfl) rfl rfl rfl
  emit _ _ _ := .aside (fun _ => rfl) rfl rfl rfl
  place _ _ _ _ := .aside (fun _ => rfl) rfl rfl rfl
  halves _ _ _ _ _ _ _ _ _ _ := .aside (fun _ => rfl) rfl rfl rfl
  reg w r hr := by
    cases hr with
    | pushPending id => exact .aside (parkedOf_pushPendingAdmit w.reg id) rfl rfl rfl
    | _ => exact .aside (fun _ => rfl) rfl rfl rfl
  reply _ _ _ := .aside (fun _ => rfl) rfl rfl rfl
  dropAnswer w ans := by
    refine ⟨fun b => ?_, .single (.outside (dropAnswer_outside w ans)), ?_⟩
    · cases ans <;> rfl
    · cases ans <;> rfl
  opens _ _ _ _ _ := .aside (fun _ => rfl) rfl rfl rfl

theorem parkedOf_setPendingOf (r : Registry) (b c : Bool) (q : List Nat) :
    parkedOf (setPendingOf r b q) c = parkedOf r c := by
  cases b <;> cases c <;> rfl

theorem calm_pending (w : World σ) (b : Bool) (q : List Nat) :
    Calm w { w with reg := setPendingOf w.reg b q } :=
  .aside (fun c => parkedOf_setPendingOf w.reg b c q) rfl rfl rfl

theorem parkedOf_setParkedOf (r : Registry) (b c : Bool) (q : List Nat) :
    parkedOf (setParkedOf r b q) c = if c = b then q else parkedOf r c := by
  cases b <;> cases c <;> rfl

/-! ## 2. What `admit_one` does at the doors -/

/-- A stream was put into the accept queue of its class. -/
structure Pushed (b : Bool) (w w' : World σ) : Prop where
  parked : ∀ c, parkedOf w'.reg c = parkedOf w.reg c
  hall : w'.toFace.hall = (Function.update w.sh.door b
    { w.sh.door b with waiting := (w.sh.door b).waiting + 1 }, w.toFace.hall.2)
  cmdRx : w'.sh.cmdRx = w.sh.cmdRx
  inbox : w'.inbox = w.inbox

theorem pushAcceptBidi_pushed (w : World σ) (id : Nat) (x : Nat × Nat) :
    Pushed true w (w.pushAcceptBidi id x) := by
  refine ⟨fun _ => rfl, Prod.ext (funext fun c => ?_) rfl, rfl, rfl⟩
  cases c with
  | true =>
    refine Door.ext ?_ rfl rfl rfl rfl
    exact List.length_append
  | false => rfl

theorem pushAcceptUni_pushed (w : World σ) (id h : Nat) :
    Pushed false w (w.pushAcceptUni id h) := by
  refine ⟨fun _ => rfl, Prod.ext (funext fun c => ?_) rfl, rfl, rfl⟩
  cases c with
  | true => rfl
  | false =>
    refine Door.ext ?_ rfl rfl rfl rfl
    exact List.length_append

theorem registerBidi_pushed (w : World σ) (peer : PeerStream) :
    ∃ w1, Calm w w1 ∧ Pushed true w1 (w.registerBidi peer) := by
  have h1 := (calm_frame.recvs.buildRecv w peer.id peer.pendingRecvTerminal).trans
    (calm_frame.sends.buildSend _ peer.id peer.pendingSendTerminal)
  have h2 := h1.trans (calm_frame.admission _
    ((((w.buildRecv peer.id peer.pendingRecvTerminal).2.buildSend
      peer.id peer.pendingSendTerminal).2.reg.admission).insert peer.id
      (.registered peer.pendingSendTerminal.isSome peer.pendingRecvTerminal.isSome)))
  exact ⟨_, h2.trans (calm_interleave _), pushAcceptBidi_pushed _ _ _⟩

theorem registerUni_pushed (w : World σ) (peer : PeerStream) :
    ∃ w1, Calm w w1 ∧ Pushed false w1 (w.registerUni peer) := by
  have h1 := calm_frame.recvs.buildRecv w peer.id peer.pendingRecvTerminal
  have h2 := h1.trans (calm_frame.admission _
    ((w.buildRecv peer.id peer.pendingRecvTerminal).2.reg.admission.insert
      peer.id (.registered true peer.pendingRecvTerminal.isSome)))
  exact ⟨_, h2.trans (calm_interleave _), pushAcceptUni_pushed _ _ _⟩

/-- The four outcomes of `admit_one`, each with the state of the door that decides it. -/
inductive Admission (w : World σ) (b : Bool) : AdmitResult × World σ → Prop
  | registered {w1 w2 w3 : World σ} (h1 : Calm w w1) (h2 : Pushed b w1 w2) (h3 : Calm w2 w3) :
      Admission w b (.registered, w3)
  | full {p : PeerStream} {w1 : World σ} (h1 : Calm w w1) (ho : (w1.sh.door b).isOpen = true)
      (hc : (w1.sh.door b).cap ≤ (w1.sh.door b).waiting) : Admission w b (.full p, w1)
  | shut {w1 : World σ} (ho : (w.interleave.sh.door b).isOpen = false)
      (h1 : Calm w.interleave w1) : Admission w b (.tornDown, w1)
  | orphan {w1 : World σ} (hs : w.interleave.interleave.sh.senders = 0)
      (h1 : Calm w.interleave.interleave w1) : Admission w b (.tornDown, w1)

theorem admitOne_admission (w : World σ) (peer : PeerStream) :
    Admission w (isBidi peer.id) (w.admitOne T peer) := by
  have h1 := calm_interleave w
  have h2 := h1.trans (calm_interleave _)
  have htear (w1 : World σ) (b : Bool) := calm_frame.shutdownPeerDirections (T := T) w1 peer.id b
  unfold admitOne
  dsimp only
  cases hb : isBidi peer.id with
  | true =>
    simp only [if_true]
    split
    · rename_i ho
      exact .shut ho (htear _ true)
    · rename_i ho
      split
      · rename_i hc
        exact .full h1 (Bool.eq_true_of_not_eq_false ho) hc
      · split
        · rename_i hs
          exact .orphan hs (htear _ true)
        · obtain ⟨w1, h3, h4⟩ := registerBidi_pushed w.interleave.interleave peer
          exact .registered (h2.trans h3) h4 ((calm_frame.pump peer.id).admitFinish _)
  | false =>
    simp only [Bool.false_eq_true, if_false]
    split
    · rename_i ho
      exact .shut ho (htear _ false)
    · rename_i ho
      split
      · rename_i hc
        exact .full h1 (Bool.eq_true_of_not_eq_false ho) hc
      · split
        · rename_i hs
          exact .orphan hs (htear _ false)
        · obtain ⟨w1, h3, h4⟩ := registerUni_pushed w.interleave.interleave peer
          exact .registered (h2.trans h3) h4 ((calm_frame.pump peer.id).admitFinish _)

/-! ## 3. The clean-up -/

theorem calm_cleanParked (w : World σ) (id : Nat) : Calm w (w.cleanParked T id) := by
  unfold cleanParked
  split
  · exact (calm_frame.shutdownPeerDirections w id _).trans (calm_frame.admission _ _)
  · exact .refl w

theorem calm_cleanPending (w : World σ) (id : Nat) : Calm w (w.cleanPending T id) := by
  unfold cleanPending
  split
  · exact (calm_frame.pendingAdmit w _).trans (calm_frame.shutdownPeerDirections _ id _)
  · exact .refl w

/-- Once the parked queues are empty, the clean-up is calm. -/
theorem cleaned_calm (w : World σ) : Calm { w with
    reg := setParkedOf (setParkedOf w.reg true []) false [] }
    (w.cleanUndeliveredPeerStreams T) := by
  have h1 := calm_frame.foldl _ (calm_cleanParked (T := T)) (w.reg.parkedBidi ++ w.reg.parkedUni)
    { w with reg := setParkedOf (setParkedOf w.reg true []) false [] }
  have h2 := h1.trans ((calm_pending _ true []).trans (calm_pending _ false []))
  exact h2.trans (calm_frame.foldl _ (calm_cleanPending (T := T)) _ _)

theorem parkedOf_cleaned (w : World σ) (b : Bool) :
    parkedOf (w.cleanUndeliveredPeerStreams T).reg b = [] := by
  rw [(cleaned_calm w).parked b]
  cases b <;> rfl

/-! ## 4. Between the steps of a run -/

/-- The states a run passes through, those inside a callback included. -/
def Reached (T : QuicConn σ) (w : World σ) : Prop :=
  ∃ isServer bidiCap uniCap depth cap c script,
    Steps T (withBuffers isServer bidiCap uniCap depth cap c script) w

namespace Reached

theorem steps (h : Reached T w) (hs : Steps T w w') : Reached T w' := by
  obtain ⟨isServer, bidiCap, uniCap, depth, cap, c, script, h⟩ := h
  exact ⟨isServer, bidiCap, uniCap, depth, cap, c, script, h.trans hs⟩

theorem step (h : Reached T w) (hs : Step T w w') : Reached T w' := h.steps (.single hs)

theorem backed (h : Reached T w) : w.sh.Backed 0 := by
  obtain ⟨isServer, bidiCap, uniCap, depth, cap, c, script, h⟩ := h
  exact backed_steps h (backed_withBuffers ..)

theorem peers (h : Reached T w) : PeersOk w.reg := by
  obtain ⟨isServer, bidiCap, uniCap, depth, cap, c, script, h⟩ := h
  exact peersOk_steps h (peersOk_withBuffers ..)

theorem queued (h : Reached T w) (id : Nat) : Queued id (w.life id) := by
  obtain ⟨isServer, bidiCap, uniCap, depth, cap, c, script, h⟩ := h
  have htrue : Always (fun _ _ => True) w.trace := always_iff.mpr fun _ _ _ _ => trivial
  exact life_run isServer bidiCap uniCap depth cap c script (fun id => .init id)
    (fun _ _ _ hm _ hq => hq.move hm) h htrue id

theorem handed (h : Reached T w) (id : Nat) : Handed w.isServer id (w.life id) := by
  obtain ⟨isServer, bidiCap, uniCap, depth, cap, c, script, h⟩ := h
  have hsrv : w.isServer = isServer := isServer_steps h
  have htrue : Always (fun _ _ => True) w.trace := always_iff.mpr fun _ _ _ _ => trivial
  rw [hsrv]
  exact life_run isServer bidiCap uniCap depth cap c script (fun id => .init isServer id)
    (fun _ _ _ hm _ hq => hq.move hm) h htrue id

/-- A queue holds streams of its class only. -/
theorem parkedClass (h : Reached T w) {b : Bool} {id : Nat} (hq : id ∈ parkedOf w.reg b) :
    isBidi id = b :=
  ((h.queued id).parkClass b (List.count_pos_iff.mpr hq)).symm

theorem pendingClass (h : Reached T w) {b : Bool} {id : Nat} (hq : id ∈ pendingOf w.reg b) :
    isBidi id = b :=
  ((h.queued id).pendClass b (List.count_pos_iff.mpr hq)).symm

/-- What is taken out of a queue is of the class of the queue. -/
theorem takeClass (h : Reached T w) {b : Bool} {id : Nat} {peer : PeerStream} {r : Registry}
    (ht : Take w.reg b id peer r) : isBidi peer.id = b := by
  cases ht with
  | pending hq ha hr hp =>
    rw [(h.peers.pending id peer hp).1]
    exact h.pendingClass (by rw [hq]; exact List.mem_cons_self)
  | parked hq ha =>
    rw [(h.peers.parked id peer ha).1]
    exact h.parkedClass (by rw [hq]; exact List.mem_cons_self)

end Reached

/-! ## 5. Invariants of the hall -/

/-- `I` is kept by calm work and by what admission does at the doors. -/
structure HallInv (I : World σ → Prop) : Prop where
  calm : ∀ {w w'}, Calm w w' → I w → I w'
  unpark : ∀ w b q, q <:+ parkedOf w.reg b → I w → I { w with reg := setParkedOf w.reg b q }
  push : ∀ {w w' b}, Pushed b w w' → I w → I w'
  park : ∀ w b front id peer, (w.sh.door b).isOpen = true →
    (w.sh.door b).cap ≤ (w.sh.door b).waiting → I w → I (w.parkPeer b front id peer)
  arm : ∀ w b, I w → I (w.setAcceptResume b true)

namespace HallInv

variable {I : World σ → Prop}

theorem admitted (H : HallInv I) {b : Bool} {x : AdmitResult × World σ} (ha : Admission w b x)
    (h : I w) : I x.2 := by
  cases ha with
  | registered h1 h2 h3 => exact H.calm h3 (H.push h2 (H.calm h1 h))
  | full h1 ho hc => exact H.calm h1 h
  | shut ho h1 => exact H.calm ((calm_interleave w).trans h1) h
  | orphan hs h1 =>
    exact H.calm (((calm_interleave w).trans (calm_interleave _)).trans h1) h

theorem refused (H : HallInv I) {b : Bool} {p : PeerStream} (front : Bool) (id : Nat)
    (ha : Admission w b (.full p, w')) (h : I w) : I (w'.parkPeer b front id p) := by
  cases ha with
  | full h1 ho hc => exact H.park w' b front id p ho hc (H.calm h1 h)

theorem phase2Loop (H : HallInv I) : ∀ (fuel budget : Nat) (b u p : Bool) (w : World σ),
    Reached T w → I w → I (phase2Loop T fuel budget b u p w)
  | 0, _, _, _, _, _ => fun _ h => h
  | fuel + 1, budget, b, u, p, w => by
    intro hw h
    unfold World.phase2Loop
    split
    · exact h
    · dsimp only
      split
      · generalize (if (!b && !w.reg.pendingAdmitBidi.isEmpty) &&
          (!u && !w.reg.pendingAdmitUni.isEmpty) then p
          else !b && !w.reg.pendingAdmitBidi.isEmpty) = bidi
        split
        · exact h
        · rename_i id rest hq
          have h1 := calm_pending w bidi rest
          have h2 := h1.trans (calm_frame.pendingAdmit _
            ((setPendingOf w.reg bidi rest).pendingAdmit.erase id))
          split
          · rename_i hs
            rw [setPendingOf_admission, setPendingOf_recv] at hs
            exact H.phase2Loop fuel _ _ _ _ _
              (hw.step (.stalePending w bidi id rest hq (by simpa using hs))) (H.calm h2 h)
          · rename_i hs
            have hs : w.reg.admission.lookup id = none ∧ w.reg.recv.lookup id = none := by
              rw [setPendingOf_admission, setPendingOf_recv] at hs
              simpa using hs
            split
            · rename_i hp
              rw [setPendingOf_pendingAdmit] at hp
              exact H.phase2Loop fuel _ _ _ _ _ (hw.step (.lostPending w bidi id rest hq hp))
                (H.calm h1 h)
            · rename_i peer hp
              rw [setPendingOf_pendingAdmit] at hp
              have ht : Take w.reg bidi id peer _ := .pending hq hs.1 hs.2 hp
              have had := admitOne_steps (T := T) ht
              have hdoor := admitOne_admission (T := T) ({ w with
                reg := { setPendingOf w.reg bidi rest with
                  pendingAdmit := (setPendingOf w.reg bidi rest).pendingAdmit.erase id } }) peer
              rw [hw.takeClass ht] at hdoor
              split
              · rename_i w' he
                rw [he] at had hdoor
                exact H.phase2Loop fuel _ _ _ _ _ (hw.steps had) (H.admitted hdoor (H.calm h2 h))
              · rename_i peer' w' he
                rw [he] at had hdoor
                obtain ⟨rfl, w1, hs1, hreg, rfl⟩ := had
                refine H.phase2Loop fuel _ _ _ _ _ ?_ (H.refused false id hdoor (H.calm h2 h))
                exact (hw.steps hs1).step (.repark w1 bidi false id peer' _
                  (by rw [hreg]; exact ht))
              · rename_i w' he
                rw [he] at had hdoor
                exact H.phase2Loop fuel _ _ _ _ _ (hw.steps had) (H.admitted hdoor (H.calm h2 h))
      · exact h

theorem phase2Admission (H : HallInv I) (hw : Reached T w) (h : I w) : I (w.phase2Admission T) :=
  H.phase2Loop _ _ _ _ _ w hw h

theorem promoteLoop (H : HallInv I) (b : Bool) : ∀ (n : Nat) (w : World σ),
    Reached T w → I w → I (promoteLoop T b n w)
  | 0, _ => fun _ h => h
  | n + 1, w => by
    intro hw h
    unfold World.promoteLoop
    split
    · exact h
    · rename_i id rest hq
      have h1 := H.unpark w b rest (by rw [hq]; exact List.suffix_cons _ _) h
      dsimp only
      split
      · rename_i peer ha
        rw [setParkedOf_admission] at ha
        have ht : Take w.reg b id peer _ := .parked hq ha
        have h2 := H.calm (calm_frame.admission _ ((setParkedOf w.reg b rest).admission.erase id))
          h1
        have had := admitOne_steps (T := T) ht
        have hdoor := admitOne_admission (T := T) ({ w with
          reg := { setParkedOf w.reg b rest with
            admission := (setParkedOf w.reg b rest).admission.erase id } }) peer
        rw [hw.takeClass ht] at hdoor
        split
        · rename_i w' he
          rw [he] at had hdoor
          exact H.promoteLoop b n _ (hw.steps had) (H.admitted hdoor h2)
        · rename_i peer' w' he
          rw [he] at hdoor
          exact H.refused true id hdoor h2
        · rename_i w' he
          rw [he] at hdoor
          exact H.admitted hdoor h2
      · rename_i hn
        rw [setParkedOf_admission] at hn
        exact H.promoteLoop b n _ (hw.step (.skipParked w b id rest hq hn)) h1

theorem cleaned (H : HallInv I) (h : I w) : I (w.cleanUndeliveredPeerStreams T) :=
  H.calm (cleaned_calm w)
    (H.unpark _ false [] (List.nil_suffix) (H.unpark w true [] (List.nil_suffix) h))

/-- Every command, once taken, is calm work, a clean-up, or sets a resume bit. -/
theorem applyCommand (H : HallInv I) (cmd : DriverCommand) (h : I w) :
    I (w.applyCommand T cmd) := by
  have h0 : Calm w (w.emit (.applied cmd)) := .aside (fun _ => rfl) rfl rfl rfl
  cases cmd with
  | acceptBidiResume => exact H.arm _ true (H.calm (h0.trans (calm_interleave _)) h)
  | acceptUniResume => exact H.arm _ false (H.calm (h0.trans (calm_interleave _)) h)
  | connectionDropped => exact H.cleaned (H.calm h0 h)
  | close code reason =>
    unfold World.applyCommand
    dsimp only
    split
    · exact H.calm (h0.trans (.aside (fun _ => rfl) rfl rfl rfl)) h
    · exact H.calm h0 h
  | _ => exact H.calm (calm_frame.applyCommand w _ rfl h0) h

end HallInv

/-! ## 6. The lobby -/

/-- What always holds of the doors while the worker runs. -/
structure Lobby (sh : Shared) : Prop where
  listening : sh.cmdRxClosed = false
  room : ∀ b, 1 ≤ (sh.door b).cap
  alive : sh.connStage = .alive → ∀ b, (sh.door b).isOpen = true
  dropped : sh.connStage = .dropped → ∀ b, (sh.door b).isOpen = false
  -- the uni receiver is closed last
  uni : (sh.door false).isOpen = false → sh.connStage = .dropped

/-- A change of one door that keeps a field of it. -/
theorem update_same {α : Type} (g : Door → α) (d : Bool → Door) {b : Bool} (x : Door)
    (hx : g x = g (d b)) (c : Bool) : g (Function.update d b x c) = g (d c) := by
  by_cases hcb : c = b
  · subst hcb
    rw [Function.update_self, hx]
  · rw [Function.update_of_ne hcb]

theorem setAcceptResume_hall (w : World σ) (b x : Bool) : (w.setAcceptResume b x).toFace.hall =
    (Function.update w.sh.door b { w.sh.door b with resume := x }, w.toFace.hall.2) := by
  cases b <;> refine Prod.ext (funext fun c => ?_) rfl <;> cases c <;> rfl

/-- Only the queue, the resume bit and the poll of the doors differ. -/
theorem Lobby.of_hall {f f' : Face} {d : Bool → Door} (h : Lobby f.sh)
    (hh : f'.hall = (d, f.hall.2)) (hcap : ∀ b, (d b).cap = (f.sh.door b).cap)
    (hopen : ∀ b, (d b).isOpen = (f.sh.door b).isOpen) : Lobby f'.sh := by
  have hdoor : f'.sh.door = d := congrArg Prod.fst hh
  have hst : f'.sh.connStage = f.sh.connStage := congrArg (fun x => x.2.1) hh
  have hcl : f'.sh.cmdRxClosed = f.sh.cmdRxClosed := congrArg (fun x => x.2.2.1) hh
  refine ⟨hcl.trans h.listening, fun b => ?_, fun hs b => ?_, fun hs b => ?_, fun hs => ?_⟩
  · rw [hdoor, hcap]
    exact h.room b
  · rw [hdoor, hopen]
    exact h.alive (hst ▸ hs) b
  · rw [hdoor, hopen]
    exact h.dropped (hst ▸ hs) b
  · rw [hdoor, hopen] at hs
    exact hst.trans (h.uni hs)

theorem Lobby.frontDoor {f f' : Face} (h : Lobby f.sh) (hd : Face.FrontDoor f f') :
    Lobby f'.sh := by
  cases hd with
  | outside ho => exact h.of_hall (d := f.sh.door) ho.hall (fun _ => rfl) fun _ => rfl
  | dequeue _ _ _ _ _ hh | swap _ _ hh | signal _ _ hh =>
    exact h.of_hall hh (update_same _ _ _ rfl) (update_same _ _ _ rfl)
  | leave hs hh hc =>
    have hdoor : f'.sh.door = f.sh.door := congrArg Prod.fst hh
    have hst : f'.sh.connStage = .dropping := congrArg (fun x => x.2.1) hh
    have hcl : f'.sh.cmdRxClosed = f.sh.cmdRxClosed := congrArg (fun x => x.2.2.1) hh
    refine ⟨hcl.trans h.listening, hdoor ▸ h.room, fun ha => ?_, fun ha => ?_, fun ho => ?_⟩
    · rw [hst] at ha
      cases ha
    · rw [hst] at ha
      cases ha
    · rw [hdoor, h.alive hs false] at ho
      cases ho
  | shut b st hs hst hd hu hh hc =>
    have hdoor := Face.door_updated hh
    have hstage : f'.sh.connStage = st := congrArg (fun x => x.2.1) hh
    have hcl : f'.sh.cmdRxClosed = f.sh.cmdRxClosed := congrArg (fun x => x.2.2.1) hh
    refine ⟨hcl.trans h.listening, fun c => ?_, fun ha => absurd (hstage ▸ ha) hst,
      fun ha c => ?_, fun ho => hstage.trans ?_⟩
    · rw [hdoor c]
      split
      · exact h.room b
      · exact h.room c
    · rw [hdoor c]
      split
      · rfl
      · rename_i hcb
        exact hd (hstage ▸ ha) c hcb
    · cases b with
      | false => exact hu rfl
      | true =>
        rw [hdoor false, if_neg (by simp)] at ho
        rw [h.uni ho] at hs
        cases hs

theorem Lobby.frontDoors {f f' : Face} (h : Lobby f.sh) (hd : Face.FrontDoors f f') :
    Lobby f'.sh := by
  induction hd with
  | refl => exact h
  | tail _ hd ih => exact ih.frontDoor hd

theorem Lobby.calm (hc : Calm w w') (h : Lobby w.sh) : Lobby w'.sh := h.frontDoors hc.doors

theorem lobby_inv : HallInv fun w : World σ => Lobby w.sh where
  calm := Lobby.calm
  unpark _ _ _ _ h := h
  push hp h := Lobby.of_hall h hp.hall (update_same _ _ _ rfl) (update_same _ _ _ rfl)
  park _ _ _ _ _ _ _ h := h
  arm w b h := h.of_hall (setAcceptResume_hall w b true) (update_same _ _ _ rfl)
    (update_same _ _ _ rfl)

theorem lobby_withBuffers (isServer : Bool) (bidiCap uniCap depth : Nat) (cap : Option Nat) (c : σ)
    (script : List (List FrontAct)) :
    Lobby (withBuffers isServer bidiCap uniCap depth cap c script).sh := by
  refine ⟨rfl, fun b => ?_, fun _ b => ?_, fun h => ?_, fun h => ?_⟩
  · cases b <;> exact Nat.le_max_right _ _
  · cases b <;> rfl
  · cases h
  · cases h

/-! ## 7. What an iteration leaves over -/

theorem callClose_sh (w : World σ) (code : Nat) (reason : Bytes) (msg : String) :
    (w.callClose T code reason msg).sh = w.sh := by
  unfold callClose
  dsimp only
  split <;> rfl

theorem applyCloseBarrier_sh (w : World σ) : (w.applyCloseBarrier T).sh = w.sh := by
  unfold applyCloseBarrier
  split
  · rfl
  · split
    · exact callClose_sh _ _ _ _
    · split
      · exact callClose_sh _ _ _ _
      · rfl

theorem endIteration_calm (w : World σ) : Calm w (w.endIteration T) := by
  have h0 : Calm w ({ w with ctl.readsRanThisIter := false } : World σ).interleave := by
    refine Calm.trans ?_ (calm_interleave _)
    exact .aside (fun _ => rfl) rfl rfl rfl
  generalize hw1 : ({ ({ w with ctl.readsRanThisIter := false } : World σ).interleave with
      ctl.needsIteration := w.ctl.needsIteration || hasRunnableRemainder w.reg
        ({ w with ctl.readsRanThisIter := false } : World σ).interleave.sh } : World σ) = w1
  have h1 : Calm w w1 := by
    subst hw1
    exact h0.trans (.aside (fun _ => rfl) rfl rfl rfl)
  have hs := applyCloseBarrier_settled (T := T) w1
  have hsh := applyCloseBarrier_sh (T := T) w1
  have hend : w.endIteration T = w1.applyCloseBarrier T := by
    subst hw1
    rfl
  rw [hend]
  refine h1.trans (.aside (fun b => by rw [hs.reg]) ?_ (by rw [hsh]) hs.inbox)
  unfold Face.hall
  rw [hsh]

/-- At the end of an iteration the flag is set if the resume bits AS THEY ARE THEN leave anything
to do. -/
theorem endIteration_needs (w : World σ) (h : (w.endIteration T).ctl.needsIteration = false) :
    hasRunnableRemainder (w.endIteration T).reg (w.endIteration T).sh = false := by
  generalize hw1 : ({ ({ w with ctl.readsRanThisIter := false } : World σ).interleave with
      ctl.needsIteration := w.ctl.needsIteration || hasRunnableRemainder w.reg
        ({ w with ctl.readsRanThisIter := false } : World σ).interleave.sh } : World σ) = w1
  have hend : w.endIteration T = w1.applyCloseBarrier T := by
    subst hw1
    rfl
  have hs := applyCloseBarrier_settled (T := T) w1
  rw [hend, hs.reg, applyCloseBarrier_sh]
  rw [hend, hs.needs] at h
  subst hw1
  exact (Bool.or_eq_false_iff.mp h).2

/-- `has_runnable_remainder`, class by class: what is pending waits behind what is parked, and
what is parked waits for its resume bit. -/
theorem hasRunnableRemainder_false {r : Registry} {sh : Shared}
    (h : hasRunnableRemainder r sh = false) (b : Bool) :
    (parkedOf r b = [] → pendingOf r b = []) ∧
      (parkedOf r b ≠ [] → (sh.door b).resume = false) := by
  unfold hasRunnableRemainder at h
  simp only [Bool.or_eq_false_iff, Bool.and_eq_false_iff, Bool.not_eq_false',
    List.isEmpty_iff, List.isEmpty_eq_false_iff] at h
  obtain ⟨⟨⟨⟨⟨-, hab⟩, hau⟩, -⟩, hpb⟩, hpu⟩ := h
  cases b with
  | true =>
    refine ⟨fun hp => ?_, fun hp => hpb.resolve_left hp⟩
    exact hab.resolve_right fun hx => hx.1 hp
  | false =>
    refine ⟨fun hp => ?_, fun hp => hpu.resolve_left hp⟩
    exact hau.resolve_right fun hx => hx.1 hp

/-- Between iterations nothing is pending unless something is parked before it, or the worker
comes back by itself. -/
def Rested (w : World σ) : Prop :=
  w.ctl.readsRanThisIter = false → w.ctl.needsIteration = false →
    ∀ b, parkedOf w.reg b = [] → pendingOf w.reg b = []

theorem markSendRunnables_queues (ids : List Nat) (r : Registry) (b : Bool) :
    parkedOf (ids.foldl Registry.markSendRunnable r) b = parkedOf r b ∧
      pendingOf (ids.foldl Registry.markSendRunnable r) b = pendingOf r b := by
  induction ids generalizing r with
  | nil => exact ⟨rfl, rfl⟩
  | cons id ids ih =>
    obtain ⟨h1, h2⟩ := ih (r.markSendRunnable id)
    exact ⟨h1.trans (by cases b <;> rfl), h2.trans (by cases b <;> rfl)⟩

/-- `wait_for_data` takes at most one command and leaves the queues of admission alone; it may
ask for an iteration, and never takes the request back. -/
structure Waited (w w' : World σ) : Prop where
  parked : ∀ b, parkedOf w'.reg b = parkedOf w.reg b
  pending : ∀ b, pendingOf w'.reg b = pendingOf w.reg b
  reads : w'.ctl.readsRanThisIter = w.ctl.readsRanThisIter
  needs : w.ctl.needsIteration = true → w'.ctl.needsIteration = true
  inbox : ∀ cmd ∈ w.inbox, cmd ∈ w'.inbox
  doors : ∃ f, Face.FrontDoors w.toFace f ∧ w'.toFace.hall = f.hall ∧
    ∀ cmd, cmd ∈ f.sh.cmdRx → cmd ∈ w'.sh.cmdRx ∨ cmd ∈ w'.inbox

theorem waitForData_waited (w : World σ) : Waited w w.waitForData := by
  have hi := (calm_interleave w).doors
  unfold waitForData
  split
  · exact ⟨fun _ => rfl, fun _ => rfl, rfl, id, fun _ h => h, _, .refl, rfl, fun _ => .inl⟩
  · exact ⟨fun _ => rfl, fun _ => rfl, rfl, id, fun _ h => h, _, hi, rfl, fun _ => .inl⟩
  · dsimp only
    split
    · rename_i cmd rest hc
      refine ⟨fun _ => rfl, fun _ => rfl, rfl, id, fun x hx => List.mem_append_left _ hx, _, hi,
        rfl, fun x hx => ?_⟩
      rw [hc] at hx
      rcases List.mem_cons.mp hx with rfl | hx
      · exact .inr (List.mem_append_right _ List.mem_cons_self)
      · exact .inl hx
    · split
      · exact ⟨fun _ => rfl, fun _ => rfl, rfl, id, fun _ h => h, _, hi, rfl, fun _ => .inl⟩
      · split
        · unfold markQuiescentHeldWritesRunnable
          have hq := markSendRunnables_queues (quiescentHeldIds w.interleave.reg) w.interleave.reg
          dsimp only
          split
          · exact ⟨fun b => (hq b).1, fun b => (hq b).2, rfl, fun _ => rfl, fun _ h =>
              h, _, hi, rfl,
              fun _ => .inl⟩
          · exact ⟨fun b => (hq b).1, fun b => (hq b).2, rfl, id, fun _ h => h, _, hi, rfl,
              fun _ => .inl⟩
        · exact ⟨fun _ => rfl, fun _ => rfl, rfl, id, fun _ h => h, _, hi, rfl, fun _ => .inl⟩

theorem doProcessReads_reads (w : World σ) :
    (w.doProcessReads T).ctl.readsRanThisIter = true :=
  (quota_frame.runReadPump (T := T) (w.beginIteration true)).reads

theorem rested_withBuffers (isServer : Bool) (bidiCap uniCap depth : Nat) (cap : Option Nat) (c : σ)
    (script : List (List FrontAct)) :
    Rested (withBuffers isServer bidiCap uniCap depth cap c script) := by
  intro _ _ b _
  cases b <;> rfl

/-- A worker about to block has no command left and no reason to iterate. -/
theorem idle_of_recv (h : w.waitDecision = .recv) :
    w.inbox = [] ∧ w.ctl.needsIteration = false := by
  unfold waitDecision at h
  split at h
  · cases h
  · split at h
    · cases h
    · rename_i hn
      simpa using hn

/-- Behind empty queues nothing waits. -/
theorem Reached.nothingWaits (hw : Reached T w) (hparked : ∀ b, parkedOf w.reg b = [])
    (hpending : ∀ b, pendingOf w.reg b = []) (id : Nat) :
    w.reg.pendingAdmit.lookup id = none ∧ isParked (w.reg.admission.lookup id) = false := by
  have hq := hw.queued id
  constructor
  · by_contra hn
    have h1 : 0 < (pendingOf w.reg (isBidi id)).count id :=
      hq.pend (Option.isSome_iff_ne_none.mpr hn)
    simp [hpending] at h1
  · by_contra hn
    have h1 : 0 < (parkedOf w.reg (isBidi id)).count id :=
      hq.parked (Bool.eq_true_of_not_eq_false hn)
    simp [hparked] at h1

theorem rested_tick (w : World σ) (t : Tick σ) (h : Rested w) : Rested (w.tick T t) := by
  cases t with
  | processReads =>
    intro hr
    have := doProcessReads_reads (T := T) w
    exact absurd (this.symm.trans hr) (by simp)
  | processWrites =>
    intro _ hn b
    exact (hasRunnableRemainder_false (endIteration_needs _ hn) b).1
  | waitForData =>
    have hw := waitForData_waited w
    intro hr hn b hp
    have hn0 : w.ctl.needsIteration = false := by
      by_contra hx
      have := hw.needs (by simpa using hx)
      exact absurd (this.symm.trans hn) (by simp)
    exact (hw.pending b).trans (h (hw.reads.symm.trans hr) hn0 b ((hw.parked b).symm.trans hp))
  | transport c => exact h
  | front a => exact h

end World

end QuicheH3
