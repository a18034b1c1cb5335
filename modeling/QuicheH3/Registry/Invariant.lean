/-
# The registries agree

The worker keeps a stream in up to thirteen containers: three cursor queues with their sets, the
map of discovered streams with its two queues, the admission map with the two park queues, and the
maps of receive and send entries.  What they owe each other is `RegistryInvariant`.

The cursor queues and the sticky terminals keep their part for every transport.  The admission
containers need a transport that does not report a stream whose direction has ended
(`LiveReport`): then no stream is taken for a new one twice, which is all that `Slot` asks.

With a transport that reports a stream it still tracks, ended or not, a stream that has been
forgotten is discovered again and admitted a second time (`lateStop_admitted_twice`);
`admission_exact` is what holds as long as that does not happen.
-/
import QuicheH3.Life.Ledger
import QuicheH3.Life.Sticky
import QuicheH3.Registry.Cursors
import QuicheH3.Mock

namespace QuicheH3

open Lib

/-! ## 1. Living streams -/

/-- All that is kept of a stream while only living streams are reported. -/
structure Booked (srv : Bool) (id : Nat) (v : Life) : Prop where
  slot : Slot srv id v
  ledger : Ledger id v
  fresh : Always (FreshFor srv id) v.hist
  own : Opened id v.hist → serverInitiated id = srv

theorem freshFor_of_routine {srv : Bool} {id : Nat} (e : Event) (pre : List Event)
    (h : e.routine id) : FreshFor srv id e pre := by
  intro hu
  cases e with
  | readableNext _ t | writableNext _ t =>
    cases t with
    | false =>
      cases hu
      exact (h.resolve_left nofun rfl).elim
    | true => cases hu
  | _ => cases hu

namespace Booked

variable {srv : Bool} {id : Nat} {ok : Bytes → Nat → Prop} {v v' : Life}

/-- A stream that a living transport reports and no registry knows is a new one: what has begun
and not ended is in the ledger. -/
theorem fresh_read (h : Booked srv id v) (hr : v.recv = none) (ha : v.admission = none)
    (hp : v.pend = none) {t : Bool} (hl : LiveReport srv (.readableNext id t) v.hist) :
    serverInitiated id ≠ srv ∧ ¬ Discovered id v.hist := by
  rcases hl.1 id rfl with ⟨hpeer, hns⟩ | ⟨hst, hdir, hne⟩
  · exact ⟨hpeer, fun hd => hns hd.seen⟩
  · rcases hst with ⟨hpeer, -⟩ | ho
    · refine ⟨hpeer, fun hd => ?_⟩
      have hk := h.ledger.peerRecv hd hne
      simp [hr, ha, hp] at hk
    · have hb : isBidi id = true := hdir.resolve_left fun hn => hn (h.own ho)
      have hk := h.ledger.ownRecv ho hb hne
      simp [hr] at hk

theorem fresh_write (h : Booked srv id v) (hs : v.send = none) (hb : isBidi id = true)
    (ha : v.admission = none) (hp : v.pend = none) {t : Bool}
    (hl : LiveReport srv (.writableNext id t) v.hist) :
    serverInitiated id ≠ srv ∧ ¬ Discovered id v.hist := by
  rcases hl.2 id rfl with ⟨hpeer, hns⟩ | ⟨hst, hne⟩
  · exact ⟨hpeer, fun hd => hns hd.seen⟩
  · rcases hst with ⟨hpeer, -⟩ | ho
    · refine ⟨hpeer, fun hd => ?_⟩
      have hk := h.ledger.peerSend hd hb hne
      simp [hs, ha, hp] at hk
    · have hk := h.ledger.ownSend ho hne
      simp [hs] at hk

theorem fresh_move (h : Booked srv id v) (hm : Life.Move srv id ok v v')
    (hP : Always (LiveReport srv) v'.hist) : Always (FreshFor srv id) v'.hist := by
  cases hm.news with
  | none hg => exact hg.always (fun e pre => freshFor_of_routine e pre) h.fresh
  | read hr ha hp hh =>
    rw [hh] at hP ⊢
    exact ⟨fun _ => h.fresh_read hr ha hp hP.1, h.fresh⟩
  | write ans hs hb ha hp hh =>
    rw [hh] at hP ⊢
    exact ⟨(fun hx => by cases hx), fun _ => h.fresh_write hs hb ha hp hP.2.1, h.fresh⟩
  | opens hl hg =>
    refine hg.always (fun e pre => freshFor_of_routine e pre) ⟨fun hx => ?_, h.fresh⟩
    cases hx

theorem own_move (h : Booked srv id v) (hm : Life.Move srv id ok v v')
    (ho : Opened id v'.hist) : serverInitiated id = srv := by
  cases hm.news with
  | none hg => exact h.own (opened_of_routine hg ho)
  | read _ _ _ hh | write _ _ _ _ _ hh =>
    rw [hh] at ho
    exact h.own (by simpa [Opened] using ho)
  | opens hl hg => exact hl

/-- **Every move keeps the books**, while only living streams are reported. -/
theorem move (h : Booked srv id v) (hm : Life.Move srv id ok v v')
    (hP : Always (LiveReport srv) v'.hist) : Booked srv id v' := by
  have hf := h.fresh_move hm hP
  have hs := h.slot.move hm hf
  exact ⟨hs, h.ledger.move hm h.slot hs (peer_of_discovered hf) h.own, hf, h.own_move hm⟩

theorem init : Booked srv id .fresh := ⟨Slot.init, Ledger.init, trivial, fun ho => by cases ho⟩

end Booked

/-! ## 2. The invariant -/

/-- The admission containers agree with each other and with the receive entries. -/
structure Registry.Placed (r : Registry) : Prop where
  pendingIds : ∀ b id, id ∈ World.pendingOf r b ↔ isBidi id = b ∧ id ∈ r.pendingAdmit.keys
  pendingOnce : ∀ b, (World.pendingOf r b).Nodup
  pendingNew : ∀ id ∈ r.pendingAdmit.keys, id ∉ r.admission.keys ∧ id ∉ r.recv.keys
  parkedIds : ∀ b id, id ∈ World.parkedOf r b ↔
    isBidi id = b ∧ ∃ p, r.admission.lookup id = some (.parked p)
  parkedOnce : ∀ b, (World.parkedOf r b).Nodup
  registered : ∀ id sd rd, r.admission.lookup id = some (.registered sd rd) →
    (rd = false ↔ id ∈ r.recv.keys)

namespace World

variable {σ : Type} {T : QuicConn σ} {w w' w'' : World σ}

/-- The sticky terminal of every entry is what its status cell holds. -/
def Stuck (w : World σ) : Prop :=
  ∀ id s, w.reg.send.lookup id = some s → s.terminal = (w.sh.sendHalves s.status).status

/-- What the containers of the registries owe each other. -/
structure RegistryInvariant (w : World σ) : Prop where
  cursors : w.reg.Synced
  placed : w.reg.Placed
  sticky : w.Stuck

/-! ## 3. Every run -/

/-- The containers of the admission, seen through the streams. -/
theorem placed_of_slots {srv : Bool} (h : ∀ id, Slot srv id (w.life id)) : w.reg.Placed where
  pendingIds b id := by
    have hq : (pendingOf w.reg b).count id =
        if b = isBidi id ∧ (w.reg.pendingAdmit.lookup id).isSome then 1 else 0 := (h id).pendQ b
    rw [← List.count_pos_iff, hq, ← AList.mem_keys, ← AList.lookup_isSome]
    split
    · rename_i hx
      exact iff_of_true Nat.one_pos ⟨hx.1.symm, hx.2⟩
    · rename_i hx
      exact iff_of_false (Nat.lt_irrefl 0) fun hy => hx ⟨hy.1.symm, hy.2⟩
  pendingOnce b := by
    refine List.nodup_iff_count_le_one.mpr fun id => ?_
    have hq : (pendingOf w.reg b).count id =
        if b = isBidi id ∧ (w.reg.pendingAdmit.lookup id).isSome then 1 else 0 := (h id).pendQ b
    rw [hq]
    split <;> omega
  pendingNew id hid := by
    rw [← AList.mem_keys, ← AList.lookup_isSome] at hid
    obtain ⟨hu, ha⟩ := (h id).pend hid
    have ha : w.reg.admission.lookup id = none := ha
    have hr : w.reg.recv.lookup id = none := hu.recv
    rw [← AList.mem_keys, ← AList.mem_keys, ← AList.lookup_eq_none, ← AList.lookup_eq_none]
    exact ⟨ha, hr⟩
  parkedIds b id := by
    have hq : (parkedOf w.reg b).count id =
        if b = isBidi id ∧ isParked (w.reg.admission.lookup id) = true then 1 else 0 :=
      (h id).parkQ b
    have hp : isParked (w.reg.admission.lookup id) = true ↔
        ∃ p, w.reg.admission.lookup id = some (.parked p) := by
      cases w.reg.admission.lookup id with
      | none => simp [isParked]
      | some a => cases a <;> simp [isParked]
    rw [← List.count_pos_iff, hq, ← hp]
    split
    · rename_i hx
      exact iff_of_true Nat.one_pos ⟨hx.1.symm, hx.2⟩
    · rename_i hx
      exact iff_of_false (Nat.lt_irrefl 0) fun hy => hx ⟨hy.1.symm, hy.2⟩
  parkedOnce b := by
    refine List.nodup_iff_count_le_one.mpr fun id => ?_
    have hq : (parkedOf w.reg b).count id =
        if b = isBidi id ∧ isParked (w.reg.admission.lookup id) = true then 1 else 0 :=
      (h id).parkQ b
    rw [hq]
    split <;> omega
  registered id sd rd ha := by
    rw [← AList.mem_keys, ← AList.lookup_isSome]
    exact ((h id).reg sd rd ha).2.2

theorem stuck_of_paired (h : ∀ id, Paired id (w.life id)) (ho : FaceOrigin w.toFace) :
    w.Stuck := by
  intro id s hs
  have hst := (h id).stuck s hs
  refine Option.ext fun e => ?_
  rw [hst e, ho.cell]
  rfl

/-- An entry and its cell hold the same terminal, whatever the transport reports. -/
theorem stuck_steps (isServer : Bool) (bidiCap uniCap depth : Nat) (cap : Option Nat) (c : σ)
    (script : List (List FrontAct))
    (hs : Steps T (withBuffers isServer bidiCap uniCap depth cap c script) w) : w.Stuck := by
  refine stuck_of_paired (fun id => ?_)
    (sound_steps hs (sound_withBuffers isServer bidiCap uniCap depth cap c script)).origin.face
  exact life_run (P := fun _ _ => True) (I := Paired) isServer bidiCap uniCap depth cap c script
    (fun _ => Paired.init) (fun _ _ _ hm _ h => h.move hm) hs
    (always_iff.mpr fun _ _ _ _ => trivial) id

/-- The registries agree in every state a run goes through. -/
theorem registryInvariant_steps (isServer : Bool) (bidiCap uniCap depth : Nat) (cap : Option Nat)
    (c : σ) (script : List (List FrontAct))
    (hs : Steps T (withBuffers isServer bidiCap uniCap depth cap c script) w)
    (hlive : Always (LiveReport isServer) w.trace) : w.RegistryInvariant where
  cursors := synced_steps hs
    ⟨OnceQueue.synced_empty, OnceQueue.synced_empty, OnceQueue.synced_empty⟩
  placed := placed_of_slots fun id => (life_run (P := LiveReport isServer)
    (I := Booked isServer) isServer bidiCap uniCap depth cap c script (fun _ => Booked.init)
    (fun _ _ _ hm hP h => h.move hm hP) hs hlive id).slot
  sticky := stuck_steps isServer bidiCap uniCap depth cap c script hs

/-! ## 4. The close -/

/-- No two entries share a cell: each cell is one of its entry's stream. -/
def Owned (w : World σ) : Prop :=
  ∀ id s, w.reg.send.lookup id = some s → (w.sh.sendHalves s.status).id = id

/-- What the parts of `on_conn_close` keep of the registries. -/
structure Closing (w w' : World σ) : Prop where
  reg : w'.reg = { w.reg with send := w'.reg.send }
  stuck : Owned w → Stuck w → Owned w' ∧ Stuck w'

namespace Closing

/-- The registries and the cells stay. -/
theorem same (hr : w'.reg = w.reg)
    (hc : ∀ c, (w'.sh.sendHalves c).core = (w.sh.sendHalves c).core) : Closing w w' where
  reg := by rw [hr]
  stuck ho hs := by
    have hid (c : Nat) : (w'.sh.sendHalves c).id = (w.sh.sendHalves c).id :=
      congrArg Prod.fst (hc c)
    have hst (c : Nat) : (w'.sh.sendHalves c).status = (w.sh.sendHalves c).status :=
      congrArg Prod.snd (hc c)
    refine ⟨fun id s hx => ?_, fun id s hx => ?_⟩
    · rw [hid]
      exact ho id s (hr ▸ hx)
    · rw [hst]
      exact hs id s (hr ▸ hx)

theorem refl (w : World σ) : Closing w w := same rfl fun _ => rfl

theorem trans (h : Closing w w') (h' : Closing w' w'') : Closing w w'' where
  reg := by
    rw [h'.reg, h.reg]
  stuck ho hs := by
    obtain ⟨ho', hs'⟩ := h.stuck ho hs
    exact h'.stuck ho' hs'

theorem foldl {α : Type} (g : World σ → α → World σ) (hg : ∀ w x, Closing w (g w x)) :
    ∀ (l : List α) (w : World σ), Closing w (l.foldl g w)
  | [], w => refl w
  | x :: l, w => (hg w x).trans (foldl g hg l (g w x))

theorem interleave (w : World σ) : Closing w w.interleave :=
  same rfl (Face.fronts_rel (w.ctl.script.headD []) w.toFace).sendCore

theorem front (w : World σ) (a : FrontAct) : Closing w (w.front a) :=
  same rfl (Face.front_rel (f := w.toFace) a).sendCore

theorem completeOp (w : World σ) (op : SendOp) (res : Except SendEnd Unit) :
    Closing w (w.completeOp op res) := by
  cases op <;> exact same rfl fun _ => rfl

theorem publishRecv (w : World σ) (id : Nat) (e : RecvEnd) :
    Closing w (w.publishRecvTerminal id e) := by
  unfold publishRecvTerminal setRecvCell
  split
  · split <;> exact same rfl fun _ => rfl
  · exact refl w

theorem replyErr (w : World σ) (r : Nat) (t : ConnTerminal) : Closing w (w.replyErr r t) := by
  refine (interleave w).trans ?_
  unfold World.replyErr
  dsimp only
  split
  · exact same rfl fun _ => rfl
  · exact refl _

/-- The terminal goes to the entry where it goes to the cell. -/
theorem putEntry (w : World σ) (t : ConnTerminal) {id : Nat} {s : StreamSendState}
    (hs : w.reg.send.lookup id = some s) :
    Closing w ((w.setSendCell s.status (.conn t)).putSend id
      { s with terminal := some (s.terminal.getD (.conn t)), held := none, sendOps := [] }) := by
  have hreg : (w.setSendCell s.status (.conn t)).reg = w.reg := by
    unfold setSendCell
    split <;> rfl
  have hids (c : Nat) : ((w.setSendCell s.status (.conn t)).sh.sendHalves c).id =
      (w.sh.sendHalves c).id := by
    unfold setSendCell
    split
    · rfl
    · by_cases hc : c = s.status
      · subst hc
        simp [emit, modSend, Face.emit, Face.modSend]
      · simp [emit, modSend, Face.emit, Face.modSend, hc]
  have hown : ((w.setSendCell s.status (.conn t)).sh.sendHalves s.status).status =
      some ((w.sh.sendHalves s.status).status.getD (.conn t)) := by
    unfold setSendCell
    split
    · rename_i e he
      rw [he]
      rfl
    · rename_i he
      simp [emit, modSend, Face.emit, Face.modSend, he]
  have hother (c : Nat) (hc : c ≠ s.status) :
      ((w.setSendCell s.status (.conn t)).sh.sendHalves c).status =
        (w.sh.sendHalves c).status := by
    unfold setSendCell
    split
    · rfl
    · simp [emit, modSend, Face.emit, Face.modSend, hc]
  -- the entry put is over its own cell, every other one is over another
  have hlook (i : Nat) (x : StreamSendState)
      (hx : ((w.setSendCell s.status (.conn t)).putSend id { s with
        terminal := some (s.terminal.getD (.conn t)), held := none, sendOps := [] }).reg.send.lookup
          i = some x) :
      (i = id ∧ x.status = s.status ∧ x.terminal = some (s.terminal.getD (.conn t))) ∨
        (i ≠ id ∧ w.reg.send.lookup i = some x) := by
    by_cases hi : i = id
    · subst hi
      simp only [putSend, AList.lookup_insert, Option.some.injEq] at hx
      subst hx
      exact .inl ⟨rfl, rfl, rfl⟩
    · simp only [putSend, AList.lookup_insert_ne hi, hreg] at hx
      exact .inr ⟨hi, hx⟩
  refine ⟨by simp only [putSend, hreg], fun ho hst => ⟨fun i x hx => ?_, fun i x hx => ?_⟩⟩
  · change ((w.setSendCell s.status (.conn t)).sh.sendHalves x.status).id = i
    rw [hids]
    rcases hlook i x hx with ⟨rfl, h1, -⟩ | ⟨-, h1⟩
    · exact h1 ▸ ho i s hs
    · exact ho i x h1
  · change x.terminal = ((w.setSendCell s.status (.conn t)).sh.sendHalves x.status).status
    rcases hlook i x hx with ⟨rfl, h1, h2⟩ | ⟨hi, h1⟩
    · rw [h1, h2, hown, hst i s hs]
    · rw [hother x.status fun hc => hi ?_]
      · exact hst i x h1
      · rw [← ho i x h1, hc, ho id s hs]

theorem closeEntry (t : ConnTerminal) (x : World σ × List SendOp) (id : Nat) :
    Closing x.1 (closeSendEntry t x id).1 := by
  refine (interleave x.1).trans ?_
  unfold closeSendEntry
  dsimp only
  split
  · exact refl _
  · rename_i s hs
    exact putEntry _ t hs

theorem closeEntries (t : ConnTerminal) : ∀ (ids : List Nat) (x : World σ × List SendOp),
    Closing x.1 (ids.foldl (closeSendEntry t) x).1
  | [], x => refl x.1
  | id :: ids, x => (closeEntry t x id).trans (closeEntries t ids _)

theorem publishConnTerminal (w : World σ) (t : ConnTerminal) :
    Closing w (w.publishConnTerminal t) := by
  have h1 (w : World σ) : Closing w { w with sh.connTerminal := cellSet w.sh.connTerminal t } :=
    same rfl fun _ => rfl
  have h2 (w : World σ) : Closing w
      { w with sh.acceptTerminalBidi := cellSet w.sh.acceptTerminalBidi t } := same rfl fun _ => rfl
  have h3 (w : World σ) : Closing w
      { w with sh.acceptTerminalUni := cellSet w.sh.acceptTerminalUni t } := same rfl fun _ => rfl
  refine (interleave w).trans ((h1 _).trans ((interleave _).trans ?_))
  exact (h2 _).trans ((interleave _).trans (h3 _))

theorem completeCommand (t : ConnTerminal) (w : World σ) (cmd : DriverCommand) :
    Closing w (completeCommandOnClose t w cmd) := by
  cases cmd with
  | send id buf done permit => exact completeOp w (.write buf done permit) (.error (.conn t))
  | finish id done => exact completeOp w (.finish done) (.error (.conn t))
  | openBidi r | openUni r => exact replyErr w r t
  | _ => exact refl w

theorem doOnConnClose (T : QuicConn σ) (w : World σ) : Closing w (w.doOnConnClose T) := by
  have hrecvs (w : World σ) (t : ConnTerminal) : Closing w (w.publishRecvs t) :=
    foldl _ (fun w id => (interleave w).trans (publishRecv _ id _)) _ w
  have hsends (w : World σ) (t : ConnTerminal) : Closing w (w.publishSends t) :=
    (closeEntries t w.reg.send.keys (w, [])).trans (foldl _ (fun w op => completeOp w op _) _ _)
  have hingress (w : World σ) (t : ConnTerminal) : Closing w (w.closeIngress t) := by
    have h1 (w : World σ) :
        Closing w { w with inbox := [], sh.cmdRx := [], sh.cmdRxClosed := true } :=
      same rfl fun _ => rfl
    exact (interleave w).trans ((h1 _).trans (foldl _ (completeCommand t) _ _))
  have hopens (w : World σ) (t : ConnTerminal) : Closing w (w.failOpens t) := by
    have h1 : Closing w { w with openBidi := [], openUni := [] } := same rfl fun _ => rfl
    exact h1.trans (foldl _ (fun w r => replyErr w r t) _ _)
  exact ((((publishConnTerminal w _).trans (hrecvs _ _)).trans (hsends _ _)).trans
    (hingress _ _)).trans (hopens _ _)

/-- The close and what the front end does after it leave the registries agreed. -/
theorem registryInvariant (h : Closing w w') (ho : Owned w) (hw : w.RegistryInvariant) :
    w'.RegistryInvariant where
  cursors := by
    rw [h.reg]
    exact ⟨hw.cursors.runnable, hw.cursors.readable, hw.cursors.resume⟩
  placed := by
    rw [h.reg]
    exact ⟨hw.placed.pendingIds, hw.placed.pendingOnce, hw.placed.pendingNew,
      hw.placed.parkedIds, hw.placed.parkedOnce, hw.placed.registered⟩
  sticky := (h.stuck ho hw.sticky).2

end Closing

theorem owned_of_origin (h : Origin w) : Owned w := fun id s hs =>
  (h.face.sendMade id s.status (.inr (h.entry id s hs).cell)).2

/-- **The registry invariant**: whatever the front end does and whenever, as long as the cursors
report only peer streams they have not reported before and streams whose direction concerned has
not ended (`LiveReport`), the containers of the registries agree in every state of every run, and
still do when the connection was closed at any point of it. -/
theorem registry_invariant (T : QuicConn σ) (isServer : Bool) (bidiCap uniCap depth : Nat)
    (cap : Option Nat) (c : σ) (script : List (List FrontAct)) (ticks : List (Tick σ))
    (w : World σ) (hw : w = (withBuffers isServer bidiCap uniCap depth cap c script).run T ticks)
    (hlive : Always (LiveReport isServer) w.trace) (rest : List FrontAct) :
    w.RegistryInvariant ∧ (rest.foldl front (w.doOnConnClose T)).RegistryInvariant := by
  have hs : Steps T (withBuffers isServer bidiCap uniCap depth cap c script) w := by
    rw [hw]
    exact run_steps ticks _
  have hinv := registryInvariant_steps isServer bidiCap uniCap depth cap c script hs hlive
  have hor := sound_steps hs (sound_withBuffers isServer bidiCap uniCap depth cap c script)
  refine ⟨hinv, ?_⟩
  have hclose := (Closing.doOnConnClose T w).trans (.foldl front .front rest _)
  exact hclose.registryInvariant (owned_of_origin hor.origin) hinv


/-- A server has room for one accepted stream: two are discovered, and the first goes on. -/
def crowded : World MockConn :=
  (withBuffers true 1 4 8 none {} []).run mockConn
    [.transport { readableNext := [0, 4], recvScript := fun _ => [.ok ([7], false)] },
      .processReads, .processWrites,
      .transport { readableNext := [0], writableNext := [0],
                   recvScript := fun _ => [.ok ([8], true)] }, .processReads, .processWrites]

/-- Stream 4 is parked, stream 0 has ended its receive direction, and everything agrees. -/
theorem crowded_registries : crowded.reg.parkedBidi = [4] ∧
    crowded.reg.admission.lookup 0 = some (.registered false true) ∧
    crowded.RegistryInvariant ∧ (crowded.doOnConnClose mockConn).RegistryInvariant :=
  ⟨by decide +kernel, by decide +kernel, registry_invariant mockConn true 1 4 8 none {} [] _
    crowded rfl (by decide +kernel) []⟩

/-! ## 5. Admission -/

/-- **Admission is exact** while no stream is taken for a new one that is not: in every run whose
reports of unknown ids are each about a peer stream, and the first such report of it, only peer
streams are handed to the front end, each once. -/
theorem admission_exact (T : QuicConn σ) (isServer : Bool) (bidiCap uniCap depth : Nat)
    (cap : Option Nat) (c : σ) (script : List (List FrontAct)) (ticks : List (Tick σ))
    (w : World σ) (hw : w = (withBuffers isServer bidiCap uniCap depth cap c script).run T ticks)
    (hfresh : Always (FreshReport isServer) w.trace) (id : Nat) :
    (.handOver id ∈ w.trace → serverInitiated id ≠ isServer) ∧
      w.trace.count (.handOver id) ≤ 1 := by
  have hs : Steps T (withBuffers isServer bidiCap uniCap depth cap c script) w := by
    rw [hw]
    exact run_steps ticks _
  have hslot := life_run (P := FreshReport isServer) (I := Slot isServer) isServer bidiCap uniCap
    depth cap c script (fun _ => Slot.init)
    (fun id _ _ hm hP h => h.move hm (hP.mono fun e pre hr hu => hr id hu)) hs hfresh id
  have hok : Always (fun e pre => e = .handOver id → serverInitiated id ≠ isServer ∧
    .handOver id ∉ pre) w.trace := hslot.ok
  refine ⟨fun hm => ?_, ?_⟩
  · obtain ⟨post, pre, htr⟩ := List.append_of_mem hm
    rw [htr] at hok
    exact (hok.at rfl).1
  · exact Always.count_le_one (hok.mono fun _ _ h hx => (h hx).2)

/-- In a crowd too: stream 0 is handed over, stream 4 waits. -/
theorem crowded_admission : .handOver 0 ∈ crowded.trace ∧ .handOver 4 ∉ crowded.trace ∧
    (.handOver 0 ∈ crowded.trace → serverInitiated 0 ≠ true) ∧
      crowded.trace.count (.handOver 0) ≤ 1 :=
  ⟨by decide +kernel, by decide +kernel,
    admission_exact mockConn true 1 4 8 none {} [] _ crowded rfl (by decide +kernel) 0⟩

/-- The peer's stream 0 ends in both directions and is forgotten; the transport still tracks it,
and reports a late `STOP_SENDING`. -/
def lateStop : World MockConn :=
  (withBuffers true 4 4 8 none {} []).run mockConn
    [.transport { readableNext := [0], recvScript := fun _ => [.ok ([7], true)] }, .processReads,
      .front .acceptBidi, .front (.sendFinish 0), .processWrites,
      .transport { writableNext := [0], capacity := fun _ => .error (.streamStopped 5) },
      .processWrites, .processWrites]

/-- The stop is taken for the first sign of a new peer stream, which is handed over. -/
theorem lateStop_admitted_twice : lateStop.trace.count (.handOver 0) = 2 := by decide +kernel

end World

end QuicheH3
