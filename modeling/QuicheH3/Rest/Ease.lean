/-
# What a blocked transport leaves the worker to do

A transport is STUCK on a set of its states when it has nothing to read, reports no stream,
grants no stream credit and takes no byte, and when no call leads out of the set.  Over such a
transport the stages can only take work away: nothing is discovered, nothing is read, no write
is held, and the queues, cursors and operation lists do not grow.  `Eases` is that relation.

The relation also says what becomes of a HELD WRITE WITH NOTHING BEHIND IT, an entry that counts
as quiescent.  No such entry comes about, and one that is there stays as it is: its turn offers
the bytes, the transport refuses them, and the stream is parked.  Two things can still take the
entry away, and both are known beforehand: the stream waits to be admitted as a peer stream, and
its admission registers a new send half over the old one; or its send side was finished before
the write came, and the end of its receive side reclaims the entry.  `Blockade.loose` names the
streams either can happen to.

Whatever forces another iteration has been paid for: a stage sets `needs_iteration` only after
it took something off the load.  So the load bounds the number of iterations.
-/
import QuicheH3.Driver.Pump
import QuicheH3.Send.Held
import QuicheH3.Budget.Conserved

namespace QuicheH3

open Lib

/-! ## 1. The transport -/

/-- Nothing to read, empty cursors, no stream credit, no send capacity, and it stays so.  What
an empty `stream_send` (a lone FIN) or a `stream_shutdown` answers is left open. -/
structure QuicConn.Stuck {σ : Type} (T : QuicConn σ) (B : σ → Prop) : Prop where
  recv : ∀ c id, B c → (T.streamRecv c id).1 = .error .done ∧ B (T.streamRecv c id).2
  readable : ∀ c id, B c → T.streamReadable c id = false
  readableNext : ∀ c, B c → (T.streamReadableNext c).1 = none ∧ B (T.streamReadableNext c).2
  writableNext : ∀ c, B c → (T.streamWritableNext c).1 = none ∧ B (T.streamWritableNext c).2
  creditBidi : ∀ c, B c → T.peerStreamsLeftBidi c = 0
  creditUni : ∀ c, B c → T.peerStreamsLeftUni c = 0
  capacity : ∀ c id, B c → (T.streamCapacity c id).1 = .ok 0 ∧ B (T.streamCapacity c id).2
  send : ∀ c id data fin, B c → data ≠ [] → (T.streamSend c id data fin).1 = .error .done
  sent : ∀ c id data fin, B c → B (T.streamSend c id data fin).2
  writable : ∀ c id n, B c →
    (T.streamWritable c id n).1 = .ok false ∧ B (T.streamWritable c id n).2
  shutdown : ∀ c id dir code, B c → B (T.streamShutdown c id dir code).2

/-- What a blocked worker is measured against. -/
structure Blockade (σ : Type) where
  /-- The states in which the transport is stuck. -/
  stuck : σ → Prop
  /-- The streams whose send entry may still be taken away. -/
  loose : Nat → Prop

namespace World

variable {σ : Type} {T : QuicConn σ} {B : Blockade σ} {w w' w'' : World σ}

/-! ## 2. The load -/

/-- The operations queued over all streams. -/
def opsQueued (r : Registry) : Nat := Multiset.card (opsIn r.send)

/-- What the registries hold of work: entries of the cursors and queues, queued operations. -/
def regLoad (r : Registry) : Nat :=
  r.pendingResume.queue.length + r.pendingReadable.queue.length + r.pendingAdmitBidi.length +
    r.pendingAdmitUni.length + r.runnableSend.queue.length + opsQueued r

/-- The work at hand.  A command becomes at most two pieces of work once it is applied. -/
def load (w : World σ) : Nat :=
  3 * w.inbox.length + w.openBidi.length + w.openUni.length + regLoad w.reg

/-- The stream waits to be admitted: its record is pending, or parked behind a full accept
queue. -/
def Unadmitted (r : Registry) (id : Nat) : Prop :=
  ∃ k p, p.id = id ∧ (r.pendingAdmit.lookup k = some p ∨ r.admission.lookup k = some (.parked p))

/-- No registry holds more work.  A write held with nothing behind it was so before, and stays so
unless its stream is one of `P`. -/
structure Lighter (P : Nat → Prop) (r r' : Registry) : Prop where
  resume : r'.pendingResume.queue.length ≤ r.pendingResume.queue.length
  readable : r'.pendingReadable.queue.length ≤ r.pendingReadable.queue.length
  bidi : r'.pendingAdmitBidi.length ≤ r.pendingAdmitBidi.length
  uni : r'.pendingAdmitUni.length ≤ r.pendingAdmitUni.length
  runnable : r'.runnableSend.queue.length ≤ r.runnableSend.queue.length
  ops : opsQueued r' ≤ opsQueued r
  held : ∀ i x, r'.send.lookup i = some x → StreamSendState.quiescentHeld x = true →
    r.send.lookup i = some x
  kept : ∀ i x, r.send.lookup i = some x → StreamSendState.quiescentHeld x = true →
    r'.send.lookup i = some x ∨ P i
  waits : (∀ i, Unadmitted r i → P i) → ∀ i, Unadmitted r' i → P i

namespace Lighter

variable {P : Nat → Prop} {r r' r'' : Registry} {id : Nat} {s s' : StreamSendState}

theorem refl (r : Registry) : Lighter P r r :=
  ⟨le_rfl, le_rfl, le_rfl, le_rfl, le_rfl, le_rfl, fun _ _ h _ => h, fun _ _ h _ => .inl h,
    fun h => h⟩

theorem trans (h : Lighter P r r') (h' : Lighter P r' r'') : Lighter P r r'' :=
  ⟨h'.resume.trans h.resume, h'.readable.trans h.readable, h'.bidi.trans h.bidi,
    h'.uni.trans h.uni, h'.runnable.trans h.runnable, h'.ops.trans h.ops,
    fun i x hx hq => h.held i x (h'.held i x hx hq) hq,
    fun i x hx hq => (h.kept i x hx hq).elim (fun hx' => h'.kept i x hx' hq) .inr,
    fun hp => h'.waits (h.waits hp)⟩

theorem regLoad_le (h : Lighter P r r') : regLoad r' ≤ regLoad r := by
  have h1 := h.resume
  have h2 := h.readable
  have h3 := h.bidi
  have h4 := h.uni
  have h5 := h.runnable
  have h6 := h.ops
  unfold regLoad
  omega

/-- Only the entry of one stream changes, from and to one that is not quiescent. -/
theorem sendMap {m : Map StreamSendState} (hm : ∀ i, i ≠ id → m.lookup i = r.send.lookup i)
    (ho : Multiset.card (opsIn m) ≤ opsQueued r)
    (hq : ∀ x, m.lookup id = some x → StreamSendState.quiescentHeld x = false)
    (hk : ∀ x, r.send.lookup id = some x → StreamSendState.quiescentHeld x = true → P id) :
    Lighter P r { r with send := m } :=
  { refl r with
    ops := ho
    held := fun i x hx hxq => by
      by_cases hi : i = id
      · subst hi
        rw [hq x hx] at hxq
        cases hxq
      · exact (hm i hi).symm.trans hx
    kept := fun i x hx hxq => by
      by_cases hi : i = id
      · subst hi
        exact .inr (hk x hx hxq)
      · exact .inl ((hm i hi).trans hx) }

theorem card_opsIn_erase (m : Map StreamSendState) (id : Nat) :
    Multiset.card (opsIn (m.erase id)) ≤ Multiset.card (opsIn m) := by
  cases hs : m.lookup id with
  | none => rw [opsIn_erase_of_none hs]
  | some s =>
    rw [opsIn_of_lookup hs, Multiset.card_add]
    exact Nat.le_add_left _ _

theorem card_opsOf (ops : List SendOp) : Multiset.card (opsOf ops) = ops.length := by
  simp [opsOf]

/-- What replacing an entry does to the number of operations. -/
theorem card_opsIn_put {m : Map StreamSendState} (hs : m.lookup id = some s)
    (s' : StreamSendState) :
    Multiset.card (opsIn (m.insert id s')) + s.sendOps.length =
      Multiset.card (opsIn m) + s'.sendOps.length := by
  rw [opsIn_insert, opsIn_of_lookup hs, Multiset.card_add, Multiset.card_add, card_opsOf,
    card_opsOf]
  omega

theorem putSend (hs : r.send.lookup id = some s) (hl : s'.sendOps.length ≤ s.sendOps.length)
    (hq : StreamSendState.quiescentHeld s = false)
    (hq' : StreamSendState.quiescentHeld s' = false) :
    Lighter P r { r with send := r.send.insert id s' } := by
  refine sendMap (fun i (hi : i ≠ id) => AList.lookup_insert_ne hi) ?_ (fun x hx => ?_)
    fun x hx hxq => ?_
  · have := card_opsIn_put hs s'
    unfold opsQueued
    omega
  · rw [AList.lookup_insert] at hx
    exact Option.some.inj hx ▸ hq'
  · rw [hs] at hx
    rw [← Option.some.inj hx, hq] at hxq
    cases hxq

theorem eraseSend (hk : ∀ x, r.send.lookup id = some x →
    StreamSendState.quiescentHeld x = true → P id) :
    Lighter P r { r with send := r.send.erase id } :=
  sendMap (fun _ hi => AList.lookup_erase_ne hi) (card_opsIn_erase _ _)
    (fun x hx => by rw [AList.lookup_erase] at hx; cases hx) hk

theorem newSend (hn : r.send.lookup id = none) (c : Nat) :
    Lighter P r { r with send := r.send.insert id (.new c) } := by
  refine sendMap (fun i (hi : i ≠ id) => AList.lookup_insert_ne hi) ?_ (fun x hx => ?_)
    fun x hx => by rw [hn] at hx; cases hx
  · rw [opsIn_insert, Multiset.card_add, card_opsOf]
    exact (Nat.zero_add _).trans_le (card_opsIn_erase _ _)
  · rw [AList.lookup_insert] at hx
    exact Option.some.inj hx ▸ rfl

/-- Records of waiting streams go, or come only for a stream of `P`. -/
theorem records {m : Map PeerStream} {m' : Map AdmitState}
    (hm : ∀ k p, m.lookup k = some p → r.pendingAdmit.lookup k = some p)
    (hm' : ∀ k p, m'.lookup k = some (.parked p) →
      r.admission.lookup k = some (.parked p) ∨ P p.id) :
    Lighter P r { r with pendingAdmit := m, admission := m' } :=
  { refl r with
    waits := by
      rintro hw i ⟨k, p, rfl, h | h⟩
      · exact hw _ ⟨k, p, rfl, .inl (hm k p h)⟩
      · exact (hm' k p h).elim (fun h => hw _ ⟨k, p, rfl, .inr h⟩) fun h => h }

theorem of_lookup_erase {β : Type} {m : Map β} {k : Nat} {x : β}
    (h : (m.erase id).lookup k = some x) : m.lookup k = some x := by
  by_cases hk : k = id
  · subst hk
    rw [AList.lookup_erase] at h
    cases h
  · rwa [AList.lookup_erase_ne hk] at h

theorem eraseAdmission (r : Registry) (id : Nat) :
    Lighter P r { r with admission := r.admission.erase id } :=
  records (fun _ _ h => h) fun _ _ h => .inl (of_lookup_erase h)

theorem erasePending (r : Registry) (id : Nat) :
    Lighter P r { r with pendingAdmit := r.pendingAdmit.erase id } :=
  records (fun _ _ h => of_lookup_erase h) fun _ _ h => .inl h

theorem putAdmission (r : Registry) (id : Nat) {a : AdmitState}
    (ha : ∀ p, a = .parked p → P p.id) :
    Lighter P r { r with admission := r.admission.insert id a } := by
  refine records (fun _ _ h => h) fun k p h => ?_
  by_cases hk : k = id
  · subst hk
    rw [AList.lookup_insert] at h
    exact .inr (ha p (Option.some.inj h))
  · rw [AList.lookup_insert_ne hk] at h
    exact .inl h

theorem dropRecvMemberships (r : Registry) (id : Nat) :
    Lighter P r (r.dropRecvMemberships id) :=
  { refl r with
    resume := OnceQueue.length_drop_le _ _
    readable := OnceQueue.length_drop_le _ _ }

theorem dropSendMembership (r : Registry) (id : Nat) : Lighter P r (r.dropSendMembership id) :=
  { refl r with runnable := OnceQueue.length_drop_le _ _ }

theorem setRecvDone (r : Registry) (id : Nat) : Lighter P r (r.setRecvDone id) := by
  unfold Registry.setRecvDone
  split
  · exact putAdmission r id nofun
  · exact refl r

theorem setSendDone (r : Registry) (id : Nat) : Lighter P r (r.setSendDone id) := by
  unfold Registry.setSendDone
  split
  · exact putAdmission r id nofun
  · exact refl r

end Lighter

/-! ## 3. The relation -/

/-- What a quiescent entry is, and which entries and waiting streams are loose. -/
structure Fit (P : Nat → Prop) (r : Registry) : Prop where
  whole : ∀ id s, r.send.lookup id = some s → StreamSendState.quiescentHeld s = true →
    s.pendingReset = none ∧ ∀ buf, s.held = some buf → buf.hasRemaining = true
  finished : ∀ id s, r.send.lookup id = some s → StreamSendState.quiescentHeld s = true →
    s.finished = true → P id
  waits : ∀ id, Unadmitted r id → P id

theorem Fit.lighter {P : Nat → Prop} {r r' : Registry} (h : Fit P r) (hl : Lighter P r r') :
    Fit P r' where
  whole id s hs hq := h.whole id s (hl.held id s hs hq) hq
  finished id s hs hq := h.finished id s (hl.held id s hs hq) hq
  waits := hl.waits h.waits

/-- The transport is stuck and the other tasks are silent. -/
structure Ready (B : Blockade σ) (w : World σ) : Prop where
  conn : B.stuck w.ctl.qconn
  script : w.ctl.script = []
  reg : Fit B.loose w.reg

/-- What the decision to close is made of. -/
def closing (c : Ctl σ) : Option (Nat × Bytes) × Bool × Bool :=
  (c.pendingClose, c.lastHandleTeardown, c.gracefulCloseIssued)

/-- No close comes about, no command is sent and no handle is lost. -/
structure Steady (B : Blockade σ) (w w' : World σ) : Prop where
  ready : Ready B w'
  closing : closing w'.ctl = closing w.ctl
  budget : w'.ctl.readBudget = w.ctl.readBudget
  reads : w'.ctl.readsRanThisIter = w.ctl.readsRanThisIter
  cmdRx : w'.sh.cmdRx = w.sh.cmdRx
  senders : w.sh.senders ≤ w'.sh.senders

/-- Work is only taken away, and another iteration is asked for only after that. -/
structure Eases (B : Blockade σ) (w w' : World σ) : Prop extends Steady B w w' where
  inbox : w'.inbox = w.inbox
  lighter : Lighter B.loose w.reg w'.reg
  opens : ∀ b, (w'.openOf b).length ≤ (w.openOf b).length
  bits : ∀ b, acceptResumeOf w'.sh b = true → acceptResumeOf w.sh b = true
  needs : w'.ctl.needsIteration = true → w.ctl.needsIteration = true ∨ load w' < load w

/-- The relation of the stages: they ease a world over a stuck transport. -/
def Ease (B : Blockade σ) (w w' : World σ) : Prop := Ready B w → Eases B w w'

theorem Steady.trans (h : Steady B w w') (h' : Steady B w' w'') : Steady B w w'' :=
  ⟨h'.ready, h'.closing.trans h.closing, h'.budget.trans h.budget, h'.reads.trans h.reads,
    h'.cmdRx.trans h.cmdRx, h.senders.trans h'.senders⟩

theorem Eases.load_le (h : Eases B w w') : load w' ≤ load w := by
  have h1 := h.lighter.regLoad_le
  have h2 : w'.openBidi.length ≤ w.openBidi.length := h.opens true
  have h3 : w'.openUni.length ≤ w.openUni.length := h.opens false
  unfold load
  rw [h.inbox]
  omega

theorem Eases.trans (h : Eases B w w') (h' : Eases B w' w'') : Eases B w w'' where
  toSteady := h.toSteady.trans h'.toSteady
  inbox := h'.inbox.trans h.inbox
  lighter := h.lighter.trans h'.lighter
  opens b := (h'.opens b).trans (h.opens b)
  bits b hb := h.bits b (h'.bits b hb)
  needs hn := by
    have hle := h.load_le
    have hle' := h'.load_le
    rcases h'.needs hn with hn | hlt
    · rcases h.needs hn with hn | hlt
      · exact .inl hn
      · exact .inr (by omega)
    · exact .inr (by omega)

/-- Another iteration is asked for, and something was taken off the load before. -/
theorem Eases.iterate {w0 : World σ} (h : Eases B w0 w)
    (hlt : load w < load w0) : Eases B w0 { w with ctl.needsIteration := true } :=
  { h with ready := ⟨h.ready.conn, h.ready.script, h.ready.reg⟩, needs := fun _ => .inr hlt }

namespace Ease

theorem refl (w : World σ) : Ease B w w := fun h =>
  { ready := h, closing := rfl, budget := rfl, reads := rfl, inbox := rfl, cmdRx := rfl
    senders := le_rfl, lighter := .refl _, opens := fun _ => le_rfl, bits := fun _ hb => hb
    needs := .inl }

theorem trans (h : Ease B w w') (h' : Ease B w' w'') : Ease B w w'' := fun hr =>
  (h hr).trans (h' (h hr).ready)

/-- Only what both tasks see changes. -/
theorem face (w : World σ) (f : Face) (hc : f.sh.cmdRx = w.sh.cmdRx)
    (hs : w.sh.senders ≤ f.sh.senders)
    (hb : ∀ b, acceptResumeOf f.sh b = true → acceptResumeOf w.sh b = true) :
    Ease B w { w with toFace := f } := fun h =>
  { refl w h with
    ready := ⟨h.conn, h.script, h.reg⟩, cmdRx := hc, senders := hs, bits := hb
    opens := fun _ => le_rfl }

/-- Only the registries change. -/
theorem reg (w : World σ) {r : Registry} (hl : Lighter B.loose w.reg r) :
    Ease B w { w with reg := r } := fun h =>
  { refl w h with
    ready := ⟨h.conn, h.script, h.reg.lighter hl⟩, lighter := hl, opens := fun _ => le_rfl
    needs := .inl }

/-- A call to the transport. -/
theorem call (w : World σ) {c : σ} (hc : B.stuck w.ctl.qconn → B.stuck c) :
    Ease B w { w with ctl.qconn := c } := fun h =>
  { refl w h with ready := ⟨hc h.conn, h.script, h.reg⟩, opens := fun _ => le_rfl }

theorem emit (w : World σ) (e : Event) : Ease B w (w.emit e) :=
  face w _ rfl le_rfl fun _ hb => hb

theorem modRecv (w : World σ) (h : Nat) (g : RecvHalf → RecvHalf) : Ease B w (w.modRecv h g) :=
  face w _ rfl le_rfl fun _ hb => hb

end Ease

/-- With nothing scripted the other tasks do nothing. -/
theorem interleave_silent (h : w.ctl.script = []) : w.interleave = w := by
  unfold interleave
  rw [h]
  change ({ w with ctl := { w.ctl with script := [] } } : World σ) = w
  rw [← h]

namespace Ease

theorem interleave (w : World σ) : Ease B w w.interleave := fun h => by
  rw [interleave_silent h.script]
  exact refl w h

/-! ## 4. Cells, operations and entries -/

theorem cells : CellFrame (Ease (σ := σ) B) where
  refl := refl
  trans := trans
  sendEvent w e _ := emit w e
  sendHalves w _ _ _ _ _ hse := face w { w.toFace with sh := _ } rfl hse fun _ hb => hb

theorem reserve : ReserveFrame (Ease (σ := σ) B) where
  toComposes := cells.toComposes
  interleave := interleave
  emit w e _ := emit w e
  modRecv w h g _ := modRecv w h g

theorem recvs : RecvFrame (Ease (σ := σ) B) where
  toHalfFrame := reserve.toHalfFrame
  newRecv w _ := face w { w.toFace with sh := _ } rfl (Nat.le_succ _) fun _ hb => hb
  recvMap w _ := reg w { Lighter.refl w.reg with }

theorem eraseAdmission (w : World σ) (id : Nat) :
    Ease B w { w with reg.admission := w.reg.admission.erase id } := reg w (.eraseAdmission _ id)

theorem putSend (w : World σ) {id : Nat} {s : StreamSendState}
    (hs : w.reg.send.lookup id = some s) (s' : StreamSendState)
    (hl : s'.sendOps.length ≤ s.sendOps.length) (hq : StreamSendState.quiescentHeld s = false)
    (hq' : StreamSendState.quiescentHeld s' = false) :
    Ease B w (w.putSend id s') := reg w (.putSend hs hl hq hq')

theorem dropSendEntry (w : World σ) (id : Nat) (hk : ∀ x, w.reg.send.lookup id = some x →
    StreamSendState.quiescentHeld x = true → B.loose id) : Ease B w (w.dropSendEntry id) := by
  unfold World.dropSendEntry
  split
  · exact refl w
  · have h1 : Ease B w { w with reg.send := w.reg.send.erase id } := reg w (.eraseSend hk)
    exact (h1.trans (cells.foldl _ cells.cancelOp _ _)).trans (emit _ _)

theorem insertSend (w : World σ) (id c : Nat) (hk : ∀ x, w.reg.send.lookup id = some x →
    StreamSendState.quiescentHeld x = true → B.loose id) : Ease B w (w.insertSend id c) :=
  ((dropSendEntry w id hk).trans (reg _ (.newSend (dropSendEntry_lookup w id) c))).trans (emit _ _)

theorem ensureSend (w : World σ) (id : Nat) : Ease B w (w.ensureSend id) := by
  unfold World.ensureSend
  split
  · exact refl w
  · rename_i hn
    refine Ease.trans ?_ (insertSend _ id _ fun x hx => ?_)
    · exact face w { w.toFace with sh := _ } rfl le_rfl fun _ hb => hb
    · cases hn.symm.trans hx

/-! ## 5. Ending a direction -/

theorem terminalTransition (w : World σ) (id : Nat) : Ease B w (w.terminalTransition id) := by
  unfold World.terminalTransition
  split
  · refine ((eraseAdmission w id).trans (recvs.dropRecvEntry _ id)).trans (reg _ ?_)
    exact (Lighter.dropRecvMemberships _ id).trans (.dropSendMembership _ id)
  · exact refl w

/-- What is reclaimed is finished, and a finished entry that holds a write is loose. -/
theorem reclaimFinishedSend (w : World σ) (id : Nat) : Ease B w (w.reclaimFinishedSend id) := by
  intro hr
  unfold World.reclaimFinishedSend
  split
  · rename_i s hs
    split
    · rename_i hfin
      refine ((dropSendEntry w id fun x hx hq => ?_).trans (eraseAdmission _ id)) hr
      rw [hs] at hx
      cases hx
      exact hr.reg.finished id s hs hq hfin.1
    · exact refl w hr
  · exact refl w hr

theorem markRecvDone (w : World σ) (id : Nat) : Ease B w (w.markRecvDone id) := by
  unfold World.markRecvDone
  have h1 := ((recvs (B := B)).dropRecvEntry w id).trans (emit _ (.recvDone id))
  refine Ease.trans ?_ ((terminalTransition _ id).trans (reclaimFinishedSend _ id))
  exact h1.trans (reg _ ((Lighter.dropRecvMemberships _ id).trans (.setRecvDone _ id)))

/-- Stream `id` holds no write with nothing behind it. -/
def Occupied (w : World σ) (id : Nat) : Prop :=
  ∀ s, w.reg.send.lookup id = some s → StreamSendState.quiescentHeld s = false

theorem Occupied.of_lookup {id : Nat} {s : StreamSendState}
    (hs : w.reg.send.lookup id = some s) (hq : StreamSendState.quiescentHeld s = false) :
    Occupied w id := fun x hx => by
  rw [hs] at hx
  exact Option.some.inj hx ▸ hq

theorem markSendDone (w : World σ) (id : Nat) (ho : Occupied w id) :
    Ease B w (w.markSendDone id) := by
  have hrest (w : World σ) : Ease B w (World.terminalTransition { w.emit (.sendDone id) with
      reg := (w.reg.dropSendMembership id).setSendDone id } id) :=
    ((emit w (.sendDone id)).trans
      (reg _ ((Lighter.dropSendMembership _ id).trans (.setSendDone _ id)))).trans
        (terminalTransition _ id)
  unfold World.markSendDone
  cases hs : w.reg.send.lookup id with
  | none => exact hrest w
  | some s =>
    exact (putSend w hs { s with finished := true } le_rfl (ho s hs) (ho s hs)).trans (hrest _)

theorem sendTerminalTransition (w : World σ) (id : Nat) (e : SendEnd) (ho : Occupied w id) :
    Ease B w (w.sendTerminalTransition id e) := by
  unfold World.sendTerminalTransition
  split
  · exact refl w
  · rename_i s hs
    have h1 := (cells (B := B)).setSendCell w s.status e
    have hs1 : (w.setSendCell s.status e).reg.send.lookup id = some s := by
      rw [setSendCell_send]
      exact hs
    have h2 := h1.trans (putSend _ hs1 { s with
      terminal := some (s.terminal.getD e), held := none, sendOps := [] } (Nat.zero_le _)
      (ho s hs) rfl)
    refine (h2.trans (cells.completeOps _ _ _)).trans (markSendDone _ id ?_)
    refine .of_lookup (s := { s with
      terminal := some (s.terminal.getD e), held := none, sendOps := [] }) ?_ rfl
    rw [completeOps_send]
    exact AList.lookup_insert _

/-! ## 6. Calls and the byte channel -/

theorem streamShutdown (hT : T.Stuck B.stuck) (w : World σ) (id : Nat) (dir : Shutdown)
    (code : Nat) :
    Ease B w (w.streamShutdown T id dir code) :=
  (call w (hT.shutdown _ id dir code)).trans (emit _ _)

theorem shutdownPeerDirections (hT : T.Stuck B.stuck) (w : World σ) (id : Nat) (bidi : Bool) :
    Ease B w (w.shutdownPeerDirections T id bidi) :=
  cells.shutdownPeerDirections (fun w => streamShutdown hT w id) w bidi

end Ease

end World

end QuicheH3
