/-
# An open nobody waits for

When the requester of a stream is gone by the time its halves are built, the worker drops the
handoff and cleans up: the entries of the stream are removed and its directions are shut down.
The handoff's own guards act on the drop as well.  They submit `Finish` and `StopSending` for the
stream, and the worker applies these like any others, later: `enqueue_send_op` finds no entry for
the `Finish` and makes one, and the turn of this entry offers an empty FIN on a stream that was
shut down.

So whether the cleanup lasts is decided by what happens afterwards, and this is all of it
(`undelivered_stays_closed_iff`): the stream stays away exactly as long as no command of its send
half is applied, no scan reports it, and its id is not opened again.
-/
import QuicheH3.Life.Fate
import QuicheH3.Driver.Refine
import QuicheH3.Mock

namespace QuicheH3

open Lib

/-! ## 1. Events -/

/-- A command of the send half of stream `id`. -/
def DriverCommand.sends (id : Nat) : DriverCommand → Prop
  | .send i _ _ _ | .finish i _ | .reset i _ => i = id
  | _ => False

/-- What makes the worker think that stream `id` exists. -/
def Event.revives (id : Nat) : Event → Prop
  | .applied cmd => cmd.sends id
  | .readableNext i false | .writableNext i false | .streamPriority i true => i = id
  | _ => False

/-- An entry for stream `id` enters a registry. -/
def Event.registers (id : Nat) : Event → Prop
  | .readableNext i false | .writableNext i false | .recvOpen i _ | .sendOpen i _ => i = id
  | _ => False

/-- `stream_send` is called for stream `id`. -/
def Event.offersOn (id : Nat) : Event → Prop
  | .streamSend i _ _ _ => i = id
  | _ => False

/-- Nothing of this happens. -/
structure Event.Still (id : Nat) (e : Event) : Prop where
  revives : ¬ e.revives id
  registers : ¬ e.registers id
  offers : ¬ e.offersOn id

theorem DriverCommand.streamId_of_sends {id : Nat} {cmd : DriverCommand} (h : cmd.sends id) :
    cmd.streamId = some id := by
  cases cmd with
  | send | finish | reset => exact congrArg some h
  | _ => exact h.elim

theorem still_of_foreign {id : Nat} {tr : List Event} (e : Event) (h : e.foreign id tr) :
    e.Still id := by
  cases e with
  | applied cmd => exact ⟨fun hs => h (DriverCommand.streamId_of_sends hs), not_false, not_false⟩
  | readableNext _ t | writableNext _ t =>
    cases t with
    | true => exact ⟨not_false, not_false, not_false⟩
    | false => exact ⟨h.resolve_left (by simp), h.resolve_left (by simp), not_false⟩
  | streamPriority i ok =>
    cases ok with
    | true => exact ⟨h.resolve_left (by simp), not_false, not_false⟩
    | false => exact ⟨not_false, not_false, not_false⟩
  | streamSend i data fin ans => exact ⟨not_false, not_false, h⟩
  | recvOpen | sendOpen => exact ⟨not_false, h, not_false⟩
  | _ => exact ⟨not_false, not_false, not_false⟩

theorem still_of_isFront {id : Nat} (e : Event) (h : e.isFront) : e.Still id := by
  cases e with
  | submit _ | sendRefused _ _ | openRefused _ | recvDropped _ | sendDropped _ =>
    exact ⟨not_false, not_false, not_false⟩
  | _ => exact h.elim

theorem discovered_of_untracked {id : Nat} {e : Event} {tr : List Event} (h : id ∈ e.untracked)
    (hm : e ∈ tr) : Discovered id tr := by
  cases e with
  | readableNext i t =>
    cases t with
    | true => cases h
    | false =>
      cases h
      exact .inl hm
  | writableNext i t =>
    cases t with
    | true => cases h
    | false =>
      cases h
      exact .inr hm
  | _ => cases h

theorem freshFor_of_not_discovered {srv : Bool} {id : Nat} {tr : List Event}
    (h : ¬ Discovered id tr) : Always (FreshFor srv id) tr := by
  rw [always_iff]
  rintro post e pre rfl hu
  exact absurd (discovered_of_untracked hu (List.mem_append_right _ List.mem_cons_self)) h

/-! ## 2. The machine of the stream -/

/-- No registry knows the stream; a uni stream never had a receive half here. -/
structure Bare (id : Nat) (v : Life) : Prop where
  recv : isBidi id = true → v.recv = none
  send : v.send = none
  admission : v.admission = none
  pend : v.pend = none

/-- A local stream that no scan has reported is in no admission container. -/
theorem Slot.bare {srv : Bool} {id : Nat} {v : Life} (h : Slot srv id v)
    (hl : serverInitiated id = srv) (hr : isBidi id = true → v.recv = none)
    (hs : v.send = none) : Bare id v := by
  refine ⟨hr, hs, ?_, ?_⟩
  · cases ha : v.admission with
    | none => rfl
    | some a =>
      cases a with
      | parked p =>
        have hu := h.parked (by rw [ha]; rfl)
        exact absurd hl hu.peer
      | registered sd rd => exact absurd hl (h.reg sd rd ha).1
  · cases hp : v.pend with
    | none => rfl
    | some p =>
      have hu := (h.pend (by rw [hp]; rfl)).1
      exact absurd hl hu.peer

/-- There is nothing to admit. -/
theorem Bare.not_take {id : Nat} {v v' : Life} {b : Bool} {p : PeerStream} (hb : Bare id v)
    (ht : Life.Take v b p v') : False := by
  cases ht with
  | pending hq ha hr hp => simp [hb.pend] at hp
  | parked hq ha => simp [hb.admission] at ha

/-- Since the history was `mark` either nothing of the stream came up, or it came back. -/
inductive Since (id : Nat) (mark : List Event) (v : Life) : Prop
  | away (hb : Bare id v) (hg : Grows (Event.Still id) mark v.hist)
  | back (new : List Event) (hn : v.hist = new ++ mark) (hr : ∃ e ∈ new, e.revives id)
      (hm : ∃ e ∈ new, e.registers id)

namespace Since

variable {srv : Bool} {id : Nat} {ok : Bytes → Nat → Prop} {mark : List Event} {v v' : Life}

/-- The history goes on. -/
theorem back_suffix (new tr : List Event) (hn : tr = new ++ mark) (hr : ∃ e ∈ new, e.revives id)
    (hm : ∃ e ∈ new, e.registers id) (hs : tr <:+ v'.hist) : Since id mark v' := by
  obtain ⟨more, hmore⟩ := hs
  obtain ⟨e, he, hre⟩ := hr
  obtain ⟨e', he', hre'⟩ := hm
  refine .back (more ++ new) ?_ ⟨e, List.mem_append_right _ he, hre⟩
    ⟨e', List.mem_append_right _ he', hre'⟩
  rw [← hmore, hn, List.append_assoc]

/-- The stream comes back: both events are among the new ones. -/
theorem returns (hg : Grows (Event.Still id) mark v.hist) (evs : List Event)
    (hr : ∃ e ∈ evs, e.revives id) (hm : ∃ e ∈ evs, e.registers id)
    (hs : evs ++ v.hist <:+ v'.hist) : Since id mark v' := by
  obtain ⟨old, hold, -⟩ := hg
  obtain ⟨e, he, hre⟩ := hr
  obtain ⟨e', he', hre'⟩ := hm
  refine back_suffix (evs ++ old) (evs ++ v.hist) ?_
    ⟨e, List.mem_append_left _ he, hre⟩ ⟨e', List.mem_append_left _ he', hre'⟩ hs
  rw [hold, List.append_assoc]

/-- The stream stays away. -/
theorem stays (hg : Grows (Event.Still id) mark v.hist) (hb : Bare id v')
    (hg' : Grows (Event.Still id) v.hist v'.hist) : Since id mark v' := .away hb (hg.trans hg')

/-- A command of the send half finds no entry and makes one. -/
theorem ensures (hg : Grows (Event.Still id) mark v.hist) (hb : Bare id v) (cmd : DriverCommand)
    (hc : cmd.sends id) (rest : List DriverCommand) (c : Nat)
    (hs : ((v.pop cmd rest).ensure id c).hist <:+ v'.hist) : Since id mark v' := by
  have he : ((v.pop cmd rest).ensure id c).hist = [.sendOpen id c, .applied cmd] ++ v.hist := by
    unfold Life.ensure
    rw [show (v.pop cmd rest).send = none from hb.send]
    rfl
  exact returns hg _ ⟨.applied cmd, by simp, hc⟩ ⟨.sendOpen id c, by simp, rfl⟩ (he ▸ hs)

/-- The id is opened again. -/
theorem opens (hg : Grows (Event.Still id) mark v.hist) (u : Life) (c : Nat)
    (hu : .streamPriority id true :: v.hist <:+ u.hist)
    (hs : (u.openSend id c none).hist <:+ v'.hist) : Since id mark v' := by
  obtain ⟨more, hmore⟩ := hu.trans
    ((Life.emit_suffix u (.handle id c)).trans (Life.closeSend_suffix (u.emit (.handle id c)) id))
  have he : (u.openSend id c none).hist =
      (.sendOpen id c :: more ++ [.streamPriority id true]) ++ v.hist := by
    change .sendOpen id c :: ((u.emit (.handle id c)).closeSend id).hist = _
    rw [← hmore]
    simp
  exact returns hg _ ⟨.streamPriority id true, by simp, rfl⟩ ⟨.sendOpen id c, by simp, rfl⟩
    (he ▸ hs)

/-- The end of a receive half registers nothing. -/
theorem recvDone (hg : Grows (Event.Still id) mark v.hist) (hb : Bare id v) :
    Since id mark (v.recvDone id) := by
  have he : v.recvDone id = { (v.closeRecv id).emit (.recvDone id) with
      readable := false, resume := false, admission := none } := by
    cases hr : v.recv <;>
      simp [Life.recvDone, Life.settle, Life.reclaim, Life.closeRecv, Life.emit, allDone, markRecv,
        hr, hb.send, hb.admission]
  rw [he]
  cases hr : v.recv with
  | none =>
    simp only [Life.closeRecv, hr]
    exact stays hg ⟨fun _ => hr, hb.send, rfl, hb.pend⟩
      (.one ⟨not_false, not_false, not_false⟩)
  | some h =>
    simp only [Life.closeRecv, hr]
    exact stays hg ⟨fun _ => rfl, hb.send, rfl, hb.pend⟩
      (.cons ⟨not_false, not_false, not_false⟩ (.one ⟨not_false, not_false, not_false⟩))

theorem move (h : Since id mark v) (hm : Life.Move srv id ok v v') : Since id mark v' := by
  cases h with
  | back new hn hr hmade => exact back_suffix new v.hist hn hr hmade hm.suffix
  | away hb hg =>
    cases hm with
    | other tr hf =>
      exact stays hg ⟨hb.recv, hb.send, hb.admission, hb.pend⟩ (hf.mono still_of_foreign)
    | front cs tr hf =>
      exact stays hg ⟨hb.recv, hb.send, hb.admission, hb.pend⟩ (hf.grows.mono still_of_isFront)
    | turn | applyResume =>
      exact stays hg ⟨hb.recv, hb.send, hb.admission, hb.pend⟩
        (.one ⟨not_false, not_false, not_false⟩)
    | readable hr ha hp =>
      exact returns hg [.readableNext id false] ⟨_, List.mem_singleton_self _, rfl⟩
        ⟨_, List.mem_singleton_self _, rfl⟩ List.suffix_rfl
    | writable ans hs hbidi ha hp =>
      exact returns hg [.streamCapacity id ans, .writableNext id false]
        ⟨.writableNext id false, by simp, rfl⟩ ⟨.writableNext id false, by simp, rfl⟩
        List.suffix_rfl
    | mergePending ans p hs hp => simp [hb.pend] at hp
    | mergeParked ans p hs ha => simp [hb.admission] at ha
    | stale b hq hs => exact stays hg ⟨hb.recv, hb.send, hb.admission, rfl⟩ (.refl _ _)
    | repark _ _ _ ht | tear _ _ _ ht | admitBidi _ _ _ _ _ _ _ ht | admitUni _ _ _ _ _ _ ht =>
      exact (hb.not_take ht).elim
    | clean tr hf park pend hn hpark hpend hs =>
      refine stays hg ⟨hb.recv, hb.send, ?_, ?_⟩
        (hf.mono (of_passing still_of_foreign fun _ => ⟨not_false, not_false, not_false⟩))
      · simp [hb.admission]
      · simp [hb.pend]
    | settle =>
      have he : v.settle id = v := by
        simp [Life.settle, hb.admission, allDone]
      rw [he]
      exact .away hb hg
    | openBidi h c hl hbidi hc =>
      exact opens hg _ c (Life.openRecv_suffix (v.emit (.streamPriority id true)) id h)
        List.suffix_rfl
    | openUni c hl hbidi hc =>
      exact opens hg (v.emit (.streamPriority id true)) c List.suffix_rfl List.suffix_rfl
    | undeliver h c cs tr hl hc v2 hv hf hd hs =>
      have hend : v2.hist <:+ ((v2.submit cs tr).undeliver id (isBidi id)).hist :=
        hf.grows.suffix.trans (Life.undeliver_suffix (v2.submit cs tr) id (isBidi id))
      split at hv
      · exact opens hg _ c (Life.openRecv_suffix (v.emit (.streamPriority id true)) id h)
          (hv ▸ hend)
      · exact opens hg (v.emit (.streamPriority id true)) c List.suffix_rfl (hv ▸ hend)
    | recvEnd h tr hr hf hs =>
      exact recvDone (v := { v with hist := tr }) (hg.trans (hf.mono still_of_foreign))
        ⟨hb.recv, hb.send, hb.admission, hb.pend⟩
    | abandon h hr hd =>
      exact recvDone (v := v.emit _) (hg.cons ⟨not_false, not_false, not_false⟩)
        ⟨hb.recv, hb.send, hb.admission, hb.pend⟩
    | applySend buf t p rest c hc hn =>
      exact ensures hg hb (.send id buf t p) rfl rest c (Life.ensure_suffix_enqueue ..)
    | applyFinish t rest c hc hn =>
      exact ensures hg hb (.finish id t) rfl rest c (Life.ensure_suffix_enqueue ..)
    | applyReset code rest c hc hn =>
      exact ensures hg hb (.reset id code) rfl rest c List.suffix_rfl
    | applyStop code rest hc =>
      exact recvDone (v := (v.pop (.stopSending id code) rest).emit _)
        ((hg.cons ⟨not_false, not_false, not_false⟩).cons ⟨not_false, not_false, not_false⟩)
        ⟨hb.recv, hb.send, hb.admission, hb.pend⟩
    | resetEntry _ _ _ hs | capacity _ hs | sendErr _ _ _ _ hs | flush _ _ _ _ hs
    | flushFin _ _ _ _ _ hs | emptyHeld _ _ hs | emptyFin _ _ _ _ hs | loneFin _ _ _ _ hs
    | hold _ _ _ _ _ hs | offer _ _ _ _ _ _ hs | accept _ _ _ _ _ _ hs | skipWrite _ _ _ _ _ hs
    | sendEnd _ _ _ hs | resetTurn _ _ hs => simp [hb.send] at hs
    | _ => exact stays hg ⟨hb.recv, hb.send, hb.admission, hb.pend⟩ (.refl _ _)

end Since

/-! ## 3. Every run -/

namespace World

variable {σ : Type} {T : QuicConn σ}

/-- The transport opens the next stream of class `b`, and its requester is gone when the halves
are to be delivered. -/
def Undelivered (T : QuicConn σ) (w : World σ) (b : Bool) (r : Nat) : Prop :=
  (w.streamPriority T (w.nextIdOf b) 127 true).1 = true ∧
  ((((w.streamPriority T (w.nextIdOf b) 127 true).2.advanceNextId b).buildOpen b
    (w.nextIdOf b)).2.interleave).sh.replies r ≠ .waiting

/-- No registry knows the stream, and in the history `new` none was told of it and nothing was
offered on it. -/
structure StaysClosed (id : Nat) (new : List Event) (w : World σ) : Prop where
  recv : isBidi id = true → w.reg.recv.lookup id = none
  send : w.reg.send.lookup id = none
  admission : w.reg.admission.lookup id = none
  pendingAdmit : w.reg.pendingAdmit.lookup id = none
  registers : ∀ e ∈ new, ¬ e.registers id
  offers : ∀ e ∈ new, ¬ e.offersOn id

theorem send_dropSendEntry (w : World σ) (id : Nat) :
    (w.dropSendEntry id).reg.send.lookup id = none := by
  refine (congrArg Life.send (life_dropSendEntry w id)).trans ?_
  unfold Life.closeSend
  split
  · assumption
  · rfl

theorem entries_dropRecvEntry (w : World σ) (id : Nat) :
    (w.dropRecvEntry id).reg.recv.lookup id = none ∧
    (w.dropRecvEntry id).reg.send.lookup id = w.reg.send.lookup id := by
  have hlife := life_dropRecvEntry w id
  have hclose : ((w.life id).closeRecv id).recv = none ∧
      ((w.life id).closeRecv id).send = (w.life id).send := by
    unfold Life.closeRecv
    split
    · rename_i hr
      exact ⟨hr, rfl⟩
    · exact ⟨rfl, rfl⟩
  exact ⟨(congrArg Life.recv hlife).trans hclose.1, (congrArg Life.send hlife).trans hclose.2⟩

/-- After the cleanup the entries are gone. -/
theorem cleanup_entries (w : World σ) (id : Nat) (b : Bool) :
    (w.cleanupUndeliverableOpen T id b).reg.send.lookup id = none ∧
    (b = true → (w.cleanupUndeliverableOpen T id b).reg.recv.lookup id = none) := by
  have hs := send_dropSendEntry w id
  cases b with
  | false => exact ⟨hs, nofun⟩
  | true =>
    obtain ⟨hr, hs'⟩ := entries_dropRecvEntry
      ((w.dropSendEntry id).streamShutdown T id .write h3RequestCancelled) id
    exact ⟨hs'.trans hs, fun _ => hr⟩

theorem materialize_entries (w : World σ) (b : Bool) (r : Nat) (hu : w.Undelivered T b r) :
    (w.materialize T b r).reg.send.lookup (w.nextIdOf b) = none ∧
    (b = true → (w.materialize T b r).reg.recv.lookup (w.nextIdOf b) = none) := by
  obtain ⟨hok, hgone⟩ := hu
  unfold materialize
  dsimp only
  split
  · rename_i w1 hp
    rw [hp] at hok
    cases hok
  · rename_i w1 hp
    rw [hp] at hgone
    unfold deliver
    rw [if_neg hgone]
    exact cleanup_entries _ _ b

/-- **An undeliverable open stays cleaned up** exactly as long as nothing brings the stream back.
The commands its dropped handoff has submitted are among those that do. -/
theorem undelivered_stays_closed_iff (T : QuicConn σ) (isServer : Bool)
    (bidiCap uniCap depth : Nat) (cap : Option Nat) (c : σ) (script : List (List FrontAct))
    {w w' : World σ} {b : Bool} {r : Nat} {rest : List Nat} {new : List Event}
    (hw : Steps T (withBuffers isServer bidiCap uniCap depth cap c script) w)
    (hq : w.openOf b = r :: rest) (hu : (w.setOpenOf b rest).Undelivered T b r)
    (hd : ¬ Discovered (w.nextIdOf b) ((w.setOpenOf b rest).materialize T b r).trace)
    (hw' : Steps T ((w.setOpenOf b rest).materialize T b r) w')
    (hnew : w'.trace = new ++ ((w.setOpenOf b rest).materialize T b r).trace) :
    StaysClosed (w.nextIdOf b) new w' ↔ ∀ e ∈ new, ¬ e.revives (w.nextIdOf b) := by
  have hu1 := hw.trans (materialize_steps hq)
  have hsound := sound_steps hu1 (sound_withBuffers isServer bidiCap uniCap depth cap c script)
  have hcls := (sound_steps hw
    (sound_withBuffers isServer bidiCap uniCap depth cap c script)).counters.cls b
  have hid : (w.setOpenOf b rest).nextIdOf b = w.nextIdOf b := by cases b <;> rfl
  -- the stream is local and was never reported, so no admission container has it
  have hslot : Slot isServer (w.nextIdOf b)
      (((w.setOpenOf b rest).materialize T b r).life (w.nextIdOf b)) := by
    refine life_run (P := FreshFor isServer (w.nextIdOf b))
      (I := fun i v => i = w.nextIdOf b → Slot isServer i v) isServer bidiCap uniCap depth cap c
      script (fun _ _ => .init) (fun i v v' hm hP h hi => ?_) hu1 ?_ _ rfl
    · subst hi
      exact (h rfl).move hm hP
    · exact freshFor_of_not_discovered hd
  have hbare : Bare (w.nextIdOf b)
      (((w.setOpenOf b rest).materialize T b r).life (w.nextIdOf b)) := by
    have hent := materialize_entries (T := T) (w.setOpenOf b rest) b r hu
    rw [hid] at hent
    have hlocal : serverInitiated (w.nextIdOf b) = isServer := hcls.2.trans (isServer_steps hw)
    exact hslot.bare hlocal (fun hbidi => hent.2 (hcls.1.symm.trans hbidi)) hent.1
  have hsince := Life.Moves.induct (P := fun _ _ => True)
    (I := Since (w.nextIdOf b) ((w.setOpenOf b rest).materialize T b r).trace)
    (fun v v' hm _ h => h.move hm) (life_steps hw' hsound (w.nextIdOf b)) ?_
    (.away hbare (.refl _ _))
  · cases hsince with
    | away hb hg =>
      obtain ⟨evs, hevs, hstill⟩ := hg
      have hsame : evs = new := List.append_cancel_right (hevs.symm.trans hnew)
      subst hsame
      exact ⟨fun _ e he => (hstill e he).revives, fun _ =>
        ⟨hb.recv, hb.send, hb.admission, hb.pend, fun e he => (hstill e he).registers,
          fun e he => (hstill e he).offers⟩⟩
    | back evs hevs hr hm =>
      have hsame : evs = new := List.append_cancel_right (hevs.symm.trans hnew)
      subst hsame
      obtain ⟨e, he, hre⟩ := hr
      obtain ⟨e', he', hre'⟩ := hm
      exact ⟨fun h => absurd hre' (h.registers e' he'), fun h => absurd hre (h e he)⟩
  · exact always_iff.mpr fun _ _ _ _ => trivial

/-- A client whose request waits for credit, which it gets; the requester gives up while the halves
are built. -/
def lateCancel : World MockConn :=
  (withBuffers false 4 4 8 none {} (List.replicate 6 [] ++ [[.dropReply 0]])).run mockConn
    [.front .openBidi, .processWrites, .transport { streamsLeftBidi := 4 }]

/-- The worker has cleaned up; in its next callback it admits a stream of the peer and reads from
it. -/
def lateCancelAgain : World MockConn :=
  ((lateCancel.setOpenOf true []).materialize mockConn true 0).run mockConn
    [.transport { readableNext := [1]
                  recvScript := fun i => if i = 1 then [.ok ([7], false)] else [] }, .processReads]

/-- What that callback records. -/
def lateCancelEvents : List Event :=
  [.place 1 [7], .streamRecv 1 (.ok ([7], false)), .reserve 1, .drain 1, .handOver 1,
    .sendOpen 1 1, .handle 1 1, .recvOpen 1 1, .readableNext 1 false]

theorem lateCancel_stays_closed : StaysClosed 0 lateCancelEvents lateCancelAgain := by
  have hid : lateCancel.nextIdOf true = 0 := by decide +kernel
  have hw : Steps mockConn (withBuffers false 4 4 8 none {}
    (List.replicate 6 [] ++ [[.dropReply 0]])) lateCancel := run_steps _ _
  have hq : lateCancel.openOf true = [0] := by decide +kernel
  have hu : (lateCancel.setOpenOf true []).Undelivered mockConn true 0 := by
    constructor <;> decide +kernel
  have hd : ¬ Discovered (lateCancel.nextIdOf true)
      ((lateCancel.setOpenOf true []).materialize mockConn true 0).trace := by
    decide +kernel
  have hw' : Steps mockConn ((lateCancel.setOpenOf true []).materialize mockConn true 0)
    lateCancelAgain := run_steps _ _
  have hnew : lateCancelAgain.trace = lateCancelEvents ++
      ((lateCancel.setOpenOf true []).materialize mockConn true 0).trace := by
    decide +kernel
  have h := undelivered_stays_closed_iff mockConn false 4 4 8 none {}
    (List.replicate 6 [] ++ [[.dropReply 0]]) hw hq hu hd hw' hnew
  rw [hid] at h
  exact h.mpr (by simp [lateCancelEvents, Event.revives])

/-- The same in one run: the cleanup is followed by the `Finish` of the dropped handoff. -/
def lateFinish : World MockConn :=
  (withBuffers false 4 4 8 none { streamsLeftBidi := 4 }
    (List.replicate 6 [] ++ [[.dropReply 0]])).run mockConn
    [.front .openBidi, .processWrites, .processWrites]

/-- Since the stream was shut down it has a new send entry, and an empty FIN was offered on it. -/
theorem lateFinish_comes_back :
    .streamShutdown 0 .write h3RequestCancelled ∈ lateFinish.trace ∧
    (lateFinish.trace.takeWhile (· ≠ .streamShutdown 0 .write h3RequestCancelled)).filter
      (fun e => e = .sendOpen 0 1 ∨ e = .streamSend 0 [] true (.ok 0)) =
      [.streamSend 0 [] true (.ok 0), .sendOpen 0 1] := by
  constructor <;> decide +kernel

end World

end QuicheH3
