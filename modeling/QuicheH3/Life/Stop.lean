/-
# STOP_SENDING before admission

A peer bidi stream waits in three places before it is handed over: in the pending queue, parked,
and, while an accept slot is tried for it, in nobody's hands but the worker's.  A STOP_SENDING
that the writable scan finds in this time is told to nobody: the code travels in the
`PeerStream`, the scan will not report it again, and the hand-over has to take it along.

`firstStop` reads the code off the history: the first one a capacity probe has reported since the
stream was announced.  `Carried` says that the `PeerStream` has exactly this code wherever it is.
At the hand-over the code becomes the status of the send half, or, if there is none, the half
gets a live entry over an empty cell.
-/
import QuicheH3.Life.Fate
import QuicheH3.Driver.Refine
import QuicheH3.Stream.SendStream
import QuicheH3.Mock

namespace QuicheH3

open Lib

/-! ## 1. Queries of the history -/

/-- The codes with which `stream_capacity` reported stream `id` stopped, oldest first. -/
def stops (id : Nat) : List Event → List Nat
  | [] => []
  | .streamCapacity i (.error (.streamStopped code)) :: tr =>
    stops id tr ++ if i = id then [code] else []
  | _ :: tr => stops id tr

/-- How often a scan announced stream `id` as a new one. -/
def announcements (id : Nat) : List Event → Nat
  | [] => 0
  | .readableNext i false :: tr => announcements id tr + if i = id then 1 else 0
  | .writableNext i false :: tr => announcements id tr + if i = id then 1 else 0
  | _ :: tr => announcements id tr

/-- The first code reported since stream `id` was last announced. -/
def firstStop (id : Nat) : List Event → Option Nat
  | [] => none
  | .readableNext i false :: tr => if i = id then none else firstStop id tr
  | .writableNext i false :: tr => if i = id then none else firstStop id tr
  | .streamCapacity i (.error (.streamStopped code)) :: tr =>
    if i = id then (firstStop id tr).or (some code) else firstStop id tr
  | _ :: tr => firstStop id tr

/-- Events that neither announce stream `id` nor probe it. -/
def Event.stopFree (id : Nat) : Event → Prop
  | .readableNext i t | .writableNext i t => t = true ∨ i ≠ id
  | .streamCapacity i _ => i ≠ id
  | _ => True

theorem stopFree_of_foreign {id : Nat} {tr : List Event} (e : Event) (h : e.foreign id tr) :
    e.stopFree id := by
  cases e <;> first | exact h | trivial

theorem stopFree_of_isFront {id : Nat} (e : Event) (h : e.isFront) : e.stopFree id := by
  cases e <;> trivial

theorem blind_stops (id : Nat) : Blind (Event.stopFree id) (stops id) := by
  intro e tr he
  cases e with
  | streamCapacity i ans =>
    have hne : i ≠ id := he
    cases ans with
    | ok n => rfl
    | error err => cases err <;> simp [stops, hne]
  | _ => rfl

theorem blind_announcements (id : Nat) : Blind (Event.stopFree id) (announcements id) := by
  intro e tr he
  cases e with
  | readableNext _ t | writableNext _ t =>
    cases t with
    | true => rfl
    | false => simp [announcements, he.resolve_left]
  | _ => rfl

theorem blind_firstStop (id : Nat) : Blind (Event.stopFree id) (firstStop id) := by
  intro e tr he
  cases e with
  | readableNext _ t | writableNext _ t =>
    cases t with
    | true => rfl
    | false => simp [firstStop, he.resolve_left]
  | streamCapacity i ans =>
    have hne : i ≠ id := he
    cases ans with
    | ok n => rfl
    | error err => cases err <;> simp [firstStop, hne]
  | _ => rfl

theorem discovered_of_announcements {id : Nat} {tr : List Event}
    (h : 0 < announcements id tr) : Discovered id tr := by
  induction tr with
  | nil => cases h
  | cons e tr ih =>
    have hold (hx : 0 < announcements id tr) : Discovered id (e :: tr) :=
      (ih hx).imp (List.mem_cons_of_mem e) (List.mem_cons_of_mem e)
    cases e with
    | readableNext i t =>
      cases t with
      | true => exact hold h
      | false =>
        by_cases hi : i = id
        · subst hi
          exact .inl List.mem_cons_self
        · exact hold (by simpa [announcements, hi] using h)
    | writableNext i t =>
      cases t with
      | true => exact hold h
      | false =>
        by_cases hi : i = id
        · subst hi
          exact .inr List.mem_cons_self
        · exact hold (by simpa [announcements, hi] using h)
    | _ => exact hold h

/-- A probe, in the terms of the `PeerStream`. -/
theorem firstStop_capacity (id : Nat) (ans : Except QuicheError Nat) (tr : List Event) :
    (firstStop id (.streamCapacity id ans :: tr)).map SendEnd.stopped =
      ((firstStop id tr).map SendEnd.stopped).or (World.stoppedOf ans) := by
  cases ans with
  | ok n => simp [firstStop, World.stoppedOf]
  | error err =>
    cases err with
    | streamStopped code =>
      simp only [firstStop, World.stoppedOf, if_pos]
      cases firstStop id tr <;> rfl
    | _ => simp [firstStop, World.stoppedOf]

theorem stops_capacity (id : Nat) (ans : Except QuicheError Nat) {tr : List Event}
    (h : firstStop id tr = (stops id tr).head?) :
    firstStop id (.streamCapacity id ans :: tr) =
      (stops id (.streamCapacity id ans :: tr)).head? := by
  cases ans with
  | ok n => exact h
  | error err =>
    cases err with
    | streamStopped code =>
      simp only [firstStop, stops, if_pos]
      rw [h, List.head?_append]
      rfl
    | _ => exact h

/-! ## 2. The code travels with the stream -/

/-- The record of a waiting stream carries the first stop seen for it. -/
structure Carried (id : Nat) (v : Life) : Prop where
  /-- The stream waits in one place. -/
  excl : v.pend.isSome → v.admission = none
  pend : ∀ p, v.pend = some p →
    p.pendingSendTerminal = (firstStop id v.hist).map SendEnd.stopped ∧ 0 < announcements id v.hist
  parked : ∀ p, v.admission = some (.parked p) →
    p.pendingSendTerminal = (firstStop id v.hist).map SendEnd.stopped ∧ 0 < announcements id v.hist
  -- nobody probes a stream that was not announced
  unseen : announcements id v.hist = 0 → stops id v.hist = []
  first : announcements id v.hist ≤ 1 → firstStop id v.hist = (stops id v.hist).head?
  -- and it is announced again only after it was shut down
  again : 1 < announcements id v.hist → Shut id v.hist

namespace Carried

variable {srv : Bool} {id : Nat} {v v' : Life}

/-- The stream stays where it is, or leaves. -/
theorem keep (h : Carried id v) (hg : Grows (Event.stopFree id) v.hist v'.hist)
    (hp : ∀ p, v'.pend = some p → v.pend = some p)
    (ha : ∀ p, v'.admission = some (.parked p) → v.admission = some (.parked p))
    (hn : v.admission = none → v'.admission = none) : Carried id v' := by
  have hf := (blind_firstStop id).grows hg
  have hc := (blind_announcements id).grows hg
  have hst := (blind_stops id).grows hg
  refine ⟨fun hx => ?_, fun p hpx => ?_, fun p hpx => ?_, fun hx => ?_, fun hx => ?_, fun hx => ?_⟩
  · obtain ⟨p, hpx⟩ := Option.isSome_iff_exists.mp hx
    exact hn (h.excl (Option.isSome_iff_exists.mpr ⟨p, hp p hpx⟩))
  · rw [hf, hc]
    exact h.pend p (hp p hpx)
  · rw [hf, hc]
    exact h.parked p (ha p hpx)
  · rw [hst]
    exact h.unseen (hc ▸ hx)
  · rw [hf, hst]
    exact h.first (hc ▸ hx)
  · exact Handed.Shut.mono (h.again (hc ▸ hx)) hg.subset

/-- Only the history grows. -/
theorem hist (h : Carried id v) (hg : Grows (Event.stopFree id) v.hist v'.hist)
    (hp : v'.pend = v.pend) (ha : v'.admission = v.admission) : Carried id v' :=
  h.keep hg (fun _ hx => hp ▸ hx) (fun _ hx => ha ▸ hx) fun hx => ha.trans hx

/-- A probe of a stream that waits: the first code stays. -/
theorem probe (ans : Except QuicheError Nat) {p : PeerStream} {tr : List Event}
    (hp : p.pendingSendTerminal = (firstStop id tr).map SendEnd.stopped) :
    (World.PeerStream.mergeStop p (World.stoppedOf ans)).pendingSendTerminal =
      (firstStop id (.streamCapacity id ans :: tr)).map SendEnd.stopped := by
  rw [firstStop_capacity, ← hp]
  unfold World.PeerStream.mergeStop
  cases hx : p.pendingSendTerminal <;> simp [hx]

theorem mergePending (h : Carried id v) (ans : Except QuicheError Nat) {p : PeerStream}
    (hp : v.pend = some p) :
    Carried id { v with
      pend := some (World.PeerStream.mergeStop p (World.stoppedOf ans))
      hist := .streamCapacity id ans :: v.hist } := by
  obtain ⟨hcode, hseen⟩ := h.pend p hp
  have hadm : v.admission = none := h.excl (Option.isSome_iff_exists.mpr ⟨p, hp⟩)
  refine ⟨fun _ => hadm, fun q hq => ?_, fun q hq => ?_, fun hx => ?_, fun hx => ?_, fun hx => ?_⟩
  · cases hq
    exact ⟨probe ans hcode, hseen⟩
  · rw [hadm] at hq
    cases hq
  · exact absurd hx (Nat.ne_of_gt hseen)
  · exact stops_capacity id ans (h.first hx)
  · exact Handed.Shut.mono (h.again hx) (List.subset_cons_self _ _)

theorem mergeParked (h : Carried id v) (ans : Except QuicheError Nat) {p : PeerStream}
    (ha : v.admission = some (.parked p)) :
    Carried id { v with
      admission := some (.parked (World.PeerStream.mergeStop p (World.stoppedOf ans)))
      hist := .streamCapacity id ans :: v.hist } := by
  obtain ⟨hcode, hseen⟩ := h.parked p ha
  have hpend : v.pend = none := by
    cases hx : v.pend with
    | none => rfl
    | some q =>
      have hn := h.excl (Option.isSome_iff_exists.mpr ⟨q, hx⟩)
      rw [ha] at hn
      cases hn
  refine ⟨fun hx => ?_, fun q hq => ?_, fun q hq => ?_, fun hx => ?_, fun hx => ?_, fun hx => ?_⟩
  · rw [hpend] at hx
    cases hx
  · rw [hpend] at hq
    cases hq
  · cases hq
    exact ⟨probe ans hcode, hseen⟩
  · exact absurd hx (Nat.ne_of_gt hseen)
  · exact stops_capacity id ans (h.first hx)
  · exact Handed.Shut.mono (h.again hx) (List.subset_cons_self _ _)

/-- The readable scan announces the stream. -/
theorem readable (h : Carried id v) (ha : v.admission = none)
    (hshut : 0 < announcements id v.hist → Shut id v.hist) :
    Carried id { v with
      pend := some (.new id), pendQ := bump (isBidi id) v.pendQ
      hist := .readableNext id false :: v.hist } := by
  refine ⟨fun _ => ha, fun q hq => ?_, fun q hq => ?_, fun hx => ?_, fun hx => ?_, fun hx => ?_⟩
  · cases hq
    exact ⟨by simp [firstStop, PeerStream.new], by simp [announcements]⟩
  · rw [ha] at hq
    cases hq
  · simp [announcements] at hx
  · have hzero : announcements id v.hist = 0 := by
      simpa [announcements] using hx
    simp [firstStop, stops, h.unseen hzero]
  · have hpos : 0 < announcements id v.hist := by
      simpa [announcements] using hx
    exact Handed.Shut.mono (hshut hpos) (List.subset_cons_self _ _)

/-- The writable scan announces the stream and probes it. -/
theorem writable (h : Carried id v) (ans : Except QuicheError Nat) (ha : v.admission = none)
    (hshut : 0 < announcements id v.hist → Shut id v.hist) :
    Carried id { v with
      pend := some { PeerStream.new id with pendingSendTerminal := World.stoppedOf ans }
      pendQ := bump true v.pendQ
      hist := .streamCapacity id ans :: .writableNext id false :: v.hist } := by
  refine ⟨fun _ => ha, fun q hq => ?_, fun q hq => ?_, fun hx => ?_, fun hx => ?_, fun hx => ?_⟩
  · cases hq
    refine ⟨?_, by simp [announcements]⟩
    rw [firstStop_capacity]
    simp [firstStop]
  · rw [ha] at hq
    cases hq
  · simp [announcements] at hx
  · have hzero : announcements id v.hist = 0 := by
      simpa [announcements] using hx
    refine stops_capacity id ans ?_
    simp [firstStop, stops, h.unseen hzero]
  · have hpos : 0 < announcements id v.hist := by
      simpa [announcements] using hx
    exact Handed.Shut.mono (hshut hpos) fun e he =>
      List.mem_cons_of_mem _ (List.mem_cons_of_mem _ he)

/-- The stream is taken and put back. -/
theorem repark (h : Carried id v) {v1 : Life} {b : Bool} {p : PeerStream}
    (ht : Life.Take v b p v1) :
    Carried id { v1 with admission := some (.parked p), parkQ := bump b v1.parkQ } := by
  have hnone : v1.pend = none ∧ (p.pendingSendTerminal =
      (firstStop id v.hist).map SendEnd.stopped ∧ 0 < announcements id v.hist) := by
    cases ht with
    | pending hq ha hr hp => exact ⟨rfl, h.pend p hp⟩
    | parked hq ha =>
      refine ⟨?_, h.parked p ha⟩
      cases hx : v.pend with
      | none => rfl
      | some q =>
        have hn := h.excl (Option.isSome_iff_exists.mpr ⟨q, hx⟩)
        rw [ha] at hn
        cases hn
  obtain ⟨hpend, hcode⟩ := hnone
  rw [← ht.hist] at hcode
  have hh := ht.hist
  refine ⟨fun hx => ?_, fun q hq => ?_, fun q hq => ?_, fun hx => ?_, fun hx => ?_, fun hx => ?_⟩
  · dsimp only at hx
    rw [hpend] at hx
    cases hx
  · dsimp only at hq
    rw [hpend] at hq
    cases hq
  · cases hq
    exact hcode
  · dsimp only at hx ⊢
    rw [hh] at hx ⊢
    exact h.unseen hx
  · dsimp only at hx ⊢
    rw [hh] at hx ⊢
    exact h.first hx
  · dsimp only at hx ⊢
    rw [hh] at hx ⊢
    exact h.again hx

/-- A stream that leaves for good. -/
theorem taken (h : Carried id v) {b : Bool} {p : PeerStream} (ht : Life.Take v b p v') :
    Carried id v' := by
  cases ht with
  | pending hq ha hr hp => exact h.keep (.refl _ _) nofun (fun _ hx => hx) fun hx => hx
  | parked hq ha => exact h.keep (.refl _ _) (fun _ hx => hx) nofun fun _ => rfl

theorem init (id : Nat) : Carried id .fresh :=
  ⟨nofun, nofun, nofun, fun _ => rfl, fun _ => rfl, nofun⟩

/-- **Every move of a peer stream that was not handed over keeps its code.** -/
theorem move {ok : Bytes → Nat → Prop} (h : Carried id v) (hh : Handed srv id v)
    (hpeer : serverInitiated id ≠ srv) (hm : Life.Move srv id ok v v')
    (hover : .handOver id ∉ v'.hist) : Carried id v' := by
  -- it has no halves, so nothing happens to it but admission
  have hunk : ¬ Known id v.hist := fun hk => hover (hm.suffix.subset (hh.known hpeer hk))
  have hrecv : v.recv = none := by
    by_contra hn
    exact hunk (hh.recv (Option.isSome_iff_ne_none.mpr hn))
  have hsend : v.send = none := by
    by_contra hn
    exact hunk (hh.send (Option.isSome_iff_ne_none.mpr hn))
  have hcmds : v.cmds = [] := by
    by_contra hn
    exact hunk (hh.cmds hn)
  -- a stream that was announced and is neither waiting nor handed over was shut down
  have hshut (ha : v.admission = none) (hp : v.pend = none) :
      0 < announcements id v.hist → Shut id v.hist := by
    intro hpos
    rcases hh.fate hpeer (discovered_of_announcements hpos) with hx | hx | hx | hx
    · simp [hp] at hx
    · simp [ha, isParked] at hx
    · exact absurd (hm.suffix.subset hx) hover
    · exact hx
  cases hm with
  | other tr hg => exact h.hist (hg.mono stopFree_of_foreign) rfl rfl
  | front cs tr hf => exact h.hist (hf.grows.mono stopFree_of_isFront) rfl rfl
  | turn hn => exact h.hist (.one trivial) rfl rfl
  | readable hr ha hp => exact h.readable ha (hshut ha hp)
  | writable ans hs hb ha hp => exact h.writable ans ha (hshut ha hp)
  | mergePending ans p hs hp => exact h.mergePending ans hp
  | mergeParked ans p hs ha => exact h.mergeParked ans ha
  | stale b hq hs =>
    exact h.keep (.refl _ _) (fun _ hx => by cases hx) (fun _ hx => hx) fun hx => hx
  | repark v1 b p ht => exact h.repark ht
  | tear v1 b p ht =>
    refine (h.taken ht).hist ?_ rfl rfl
    dsimp only
    split
    · exact .cons trivial (.one trivial)
    · exact .one trivial
  | admitBidi | admitUni => exact absurd List.mem_cons_self hover
  | clean tr hg park pend hn hpark hpend hs =>
    refine h.keep (hg.mono (of_passing stopFree_of_foreign fun _ => trivial)) (fun p hx => ?_)
      (fun p hx => ?_) fun hx => ?_
    · dsimp only at hx
      split at hx
      · cases hx
      · exact hx
    · dsimp only at hx
      split at hx
      · cases hx
      · exact hx
    · dsimp only
      rw [hx]
      split <;> rfl
  | settle =>
    have he : v.settle id = v := by
      unfold Life.settle
      rw [if_neg]
      intro hd
      obtain ⟨sd, rd, hreg⟩ := Handed.registered_of_allDone hd
      exact hunk (hh.reg sd rd hreg)
    rw [he]
    exact h
  | openBidi _ _ hl | openUni _ hl | undeliver _ _ _ _ hl => exact absurd hl hpeer
  | recvEnd _ _ hr | abandon _ hr => simp [hrecv] at hr
  | applyResume _ hc | applySend _ _ _ _ _ hc | applyFinish _ _ _ hc | applyReset _ _ _ hc
  | applyStop _ _ hc => simp [hcmds] at hc
  | resetEntry _ _ _ hs | capacity _ hs | sendErr _ _ _ _ hs | flush _ _ _ _ hs
  | flushFin _ _ _ _ _ hs | emptyHeld _ _ hs | emptyFin _ _ _ _ hs | loneFin _ _ _ _ hs
  | hold _ _ _ _ _ hs | offer _ _ _ _ _ _ hs | accept _ _ _ _ _ _ hs | skipWrite _ _ _ _ _ hs
  | sendEnd _ _ _ hs | resetTurn _ _ hs => simp [hsend] at hs
  | _ => exact h.hist (.refl _ _) rfl rfl

end Carried

/-! ## 3. The hand-over -/

namespace World

variable {σ : Type} {T : QuicConn σ}

theorem sendHalves_dropSendEntry (w : World σ) (id : Nat) :
    (w.dropSendEntry id).sh.sendHalves = w.sh.sendHalves := by
  unfold dropSendEntry
  split
  · rfl
  · rename_i s hs
    obtain ⟨n, hn⟩ := foldl_cancelOp { w with reg.send := w.reg.send.erase id } s.sendOps
    rw [hn]
    rfl

/-- The half `build_send` makes: its stream, and the retained terminal as its status. -/
theorem core_buildSend (w : World σ) (id : Nat) (retained : Option SendEnd) :
    ((w.buildSend id retained).2.sh.sendHalves (w.buildSend id retained).1).core =
      (id, retained) := by
  cases retained with
  | some e =>
    have hd : (default : SendHalf).status = none := rfl
    simp only [buildSend, setSendCell, emit, Face.emit, Function.update_self, hd]
    simp [modSend, Face.modSend, SendHalf.core]
  | none =>
    simp only [buildSend, insertSend]
    change ((World.dropSendEntry _ id).sh.sendHalves w.sh.nextSend).core = (id, none)
    rw [sendHalves_dropSendEntry]
    simp [emit, Face.emit, SendHalf.core]
    rfl

/-- What the acceptor is given with a peer bidi stream for which `stop` was reported: `c` is its
send half. -/
structure StopKept (id : Nat) (stop : Option Nat) (w : World σ) (c : Nat) : Prop where
  half : (w.sh.sendHalves c).id = id
  /-- The status cell holds the code, or is empty. -/
  status : (w.sh.sendHalves c).status = stop.map SendEnd.stopped
  /-- The send direction is recorded as done when there is a code. -/
  done : w.reg.admission.lookup id = some (.registered stop.isSome false)
  /-- There is no live entry then; otherwise there is one, over the half's own cell. -/
  entry : w.reg.send.lookup id = if stop.isSome then none else some (.new c)
  /-- The stream object made of the half reports the code at its first `poll_ready`. -/
  ready : ∀ code, stop = some code → ∀ rxOpen cap resident script,
    (SendSession.fromHandoff (w.sh.sendHalves c).status rxOpen cap resident script).pollReady.1 =
      some (.error (.streamTerminated code))

theorem pollReady_fromHandoff (e : SendEnd) (rxOpen : Bool) (cap : Option Nat) (resident : Nat)
    (script : List (List WorkerAct)) :
    (SendSession.fromHandoff (some e) rxOpen cap resident script).pollReady.1 =
      some (.error e.toH3) := by
  have hs : SendSession.Sees (SendSession.fromHandoff (some e) rxOpen cap resident script) e :=
    .inr ⟨rfl, rfl⟩
  have ht := SendSession.terminalNow_of_sees hs
  unfold SendSession.pollReady
  rw [show (SendSession.fromHandoff (some e) rxOpen cap resident script).sendGen = none from rfl]
  dsimp only
  rw [ht]

/-- Registration, given what the `PeerStream` carries. -/
theorem registerBidi_kept (w : World σ) {peer : PeerStream} {stop : Option Nat}
    (hr : peer.pendingRecvTerminal = none)
    (hstop : peer.pendingSendTerminal = stop.map SendEnd.stopped)
    (hs : w.reg.send.lookup peer.id = none) :
    ∃ h c, (w.registerBidi peer).sh.acceptBidi.getLast? = some (h, c) ∧
      StopKept peer.id stop (w.registerBidi peer) c := by
  have hlife := life_buildPeerBidi w hr
  have hcore : ((w.buildPeerBidi peer).2.interleave.sh.sendHalves (w.buildPeerBidi peer).1.2).core =
      (peer.id, peer.pendingSendTerminal) :=
    ((w.buildPeerBidi peer).2.interleave_rel.sendCore _).trans
      (core_buildSend (w.buildRecv peer.id peer.pendingRecvTerminal).2 peer.id
        peer.pendingSendTerminal)
  have hstatus : ((w.registerBidi peer).sh.sendHalves (w.buildPeerBidi peer).1.2).status =
      stop.map SendEnd.stopped := (congrArg Prod.snd hcore).trans hstop
  have hc : (w.buildPeerBidi peer).1.2 = w.sh.nextSend := by
    have h1 : (w.buildRecv peer.id none).2.sh.nextSend = w.sh.nextSend := by
      simp only [buildRecv, insertRecv, dropRecvEntry]
      split <;> rfl
    simp only [buildPeerBidi, hr]
    rw [← h1]
    cases peer.pendingSendTerminal <;> rfl
  refine ⟨(w.buildPeerBidi peer).1.1, (w.buildPeerBidi peer).1.2, ?_, ?_⟩
  · simp [registerBidi, pushAcceptBidi, emit, Face.emit]
  · refine ⟨congrArg Prod.fst hcore, hstatus, ?_, ?_, fun code hcode rxOpen cap resident script =>
      ?_⟩
    · refine (congrArg Life.admission hlife).trans ?_
      rw [hstop, Option.isSome_map]
    · refine (congrArg Life.send hlife).trans ?_
      rw [hstop, hc]
      cases stop with
      | none => rfl
      | some code =>
        change ((w.life peer.id).closeRecv peer.id).send = none
        unfold Life.closeRecv
        split <;> exact hs
    · rw [hstatus, hcode]
      exact pollReady_fromHandoff (.stopped code) rxOpen cap resident script

/-- **A STOP_SENDING seen before admission is never lost.**  A peer bidi stream leaves the queue
it waits in, pending or parked, and is handed over for the first time; it got there by any
sequence of steps.  The code it is handed over with is the first one a probe reported since it
was announced, which is the first one ever, unless the driver has shut the stream down before (a
dropped connection does this to the streams that wait) and the transport announced it again. -/
theorem stop_before_admission_kept (T : QuicConn σ) (isServer : Bool) (bidiCap uniCap depth : Nat)
    (cap : Option Nat) (c : σ) (script : List (List FrontAct)) {w : World σ} {b : Bool} {id : Nat}
    {peer : PeerStream} {r : Registry}
    (hw : Steps T (withBuffers isServer bidiCap uniCap depth cap c script) w)
    (hb : isBidi id = true) (hpeer : serverInitiated id ≠ isServer)
    (ht : Take w.reg b id peer r) (hnew : .handOver id ∉ w.trace) :
    (∃ h c, (({ w with reg := r } : World σ).registerBidi peer).sh.acceptBidi.getLast? =
      some (h, c) ∧
      StopKept id (firstStop id w.trace) (({ w with reg := r } : World σ).registerBidi peer) c) ∧
    (¬ Shut id w.trace → firstStop id w.trace = (stops id w.trace).head?) := by
  have hsound := sound_steps hw (sound_withBuffers isServer bidiCap uniCap depth cap c script)
  obtain ⟨hid, hrecv⟩ := ht.peerOk hsound.peers
  obtain ⟨hh, hcarry⟩ := life_run (P := fun _ _ => True)
    (I := fun i v => Handed isServer i v ∧
      (serverInitiated i ≠ isServer → .handOver i ∉ v.hist → Carried i v)) isServer bidiCap uniCap
    depth cap c script (fun i => ⟨.init isServer i, fun _ _ => .init i⟩)
    (fun i v v' hm _ h => ⟨h.1.move hm, fun hp ho =>
      (h.2 hp fun hmem => ho (hm.suffix.subset hmem)).move h.1 hp hm ho⟩)
    hw (always_iff.mpr fun _ _ _ _ => trivial) id
  have hcar : Carried id (w.life id) := hcarry hpeer hnew
  refine ⟨?_, fun hn => hcar.first (Nat.le_of_not_lt fun hx => hn (hcar.again hx))⟩
  have hsend : w.reg.send.lookup id = none := by
    by_contra hn
    exact hnew (hh.known hpeer (hh.send (Option.isSome_iff_ne_none.mpr hn)))
  have hsame : r.send = w.reg.send := by
    cases ht <;> cases b <;> rfl
  have hcode : peer.pendingSendTerminal = (firstStop id w.trace).map SendEnd.stopped := by
    cases ht with
    | pending hq ha hr hp => exact (hcar.pend peer hp).1
    | parked hq ha => exact (hcar.parked peer ha).1
  subst hid
  exact registerBidi_kept { w with reg := r } hrecv hcode (hsame ▸ hsend)

/-- A server that hears of stream 0 by the writable scan, with a STOP_SENDING. -/
def stoppedEarly : World MockConn :=
  (withBuffers true 4 4 8 none {} []).run mockConn
    [.transport { writableNext := [0], capacity := fun _ => .error (.streamStopped 5) },
      .processWrites]

def stoppedPeer : PeerStream := { PeerStream.new 0 with pendingSendTerminal := some (.stopped 5) }

/-- The stream is taken off the pending queue, -/
def stoppedTaken : Registry :=
  { setPendingOf stoppedEarly.reg true [] with
    pendingAdmit := (setPendingOf stoppedEarly.reg true []).pendingAdmit.erase 0 }

/-- and handed over. -/
def stoppedOver : World MockConn :=
  ({ stoppedEarly with reg := stoppedTaken } : World MockConn).registerBidi stoppedPeer

theorem stoppedEarly_kept : firstStop 0 stoppedEarly.trace = some 5 ∧
    ∃ h c, stoppedOver.sh.acceptBidi.getLast? = some (h, c) ∧
      StopKept 0 (firstStop 0 stoppedEarly.trace) stoppedOver c := by
  have hw : Steps mockConn (withBuffers true 4 4 8 none {} []) stoppedEarly := run_steps _ _
  have ht : Take stoppedEarly.reg true 0 stoppedPeer stoppedTaken :=
    .pending (by decide +kernel) (by decide +kernel) (by decide +kernel) (by decide +kernel)
  exact ⟨by decide +kernel, (stop_before_admission_kept mockConn true 4 4 8 none {} [] hw
    (by decide) (by decide) ht (by decide +kernel)).1⟩

end World

end QuicheH3
