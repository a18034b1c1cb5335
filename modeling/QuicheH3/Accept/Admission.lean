/-
# The admission loop

`phase2_admission` serves two queues under one budget: it alternates between the classes while
both are ready, stops serving a class at the first id that meets a full or closed accept queue,
and runs the drain of every stream it registers.  Two skips of the loop cost no budget.

In a state whose registries agree neither skip happens, so every iteration is a `Turn`: the head
of a pending queue leaves it with its record, and `admit_one` registers it, refuses it or tears it
down.  `Pass` is the loop as a sequence of such turns, without fuel.  What matters of the loop
(a bound, order, at most one refusal a class, fairness) is read off `Pass` by induction; what
the inner drain does is irrelevant to it, for the drain concerns the stream admitted and no other
(`Apart`).
-/
import QuicheH3.Accept.Doors
import QuicheH3.Driver.Pump
import QuicheH3.Registry.Invariant

namespace QuicheH3

open Lib

/-- Every event but a hand-over. -/
def Event.offHandOver : Event → Prop
  | .handOver _ => False
  | _ => True

/-- The stream an event hands over. -/
def Event.handOverOf : Event → Option Nat
  | .handOver id => some id
  | _ => none

/-- The streams handed over by these events, oldest first. -/
def handOversOf (evs : List Event) : List Nat := picked Event.handOverOf evs

theorem handOversOf_offHandOver {evs : List Event} (h : ∀ e ∈ evs, e.offHandOver) :
    handOversOf evs = [] := by
  refine picked_eq_nil fun e he => ?_
  have hoff := h e he
  cases e <;> first | rfl | exact hoff.elim

namespace World

variable {σ : Type} {T : QuicConn σ} {w w' w'' : World σ} {id : Nat}

/-! ## 1. What concerns one stream only -/

/-- The waiting streams are as before, and so is every registration but that of `id`. -/
structure Apart (id : Nat) (w w' : World σ) : Prop where
  records : w'.reg.pendingAdmit = w.reg.pendingAdmit
  pending : ∀ b, pendingOf w'.reg b = pendingOf w.reg b
  parked : ∀ b, parkedOf w'.reg b = parkedOf w.reg b
  admission : ∀ i, i ≠ id → w'.reg.admission.lookup i = w.reg.admission.lookup i
  recv : ∀ i, i ≠ id → w'.reg.recv.lookup i = w.reg.recv.lookup i
  grows : Grows Event.offHandOver w.trace w'.trace

namespace Apart

theorem trans (h : Apart id w w') (h' : Apart id w' w'') : Apart id w w'' where
  records := h'.records.trans h.records
  pending b := (h'.pending b).trans (h.pending b)
  parked b := (h'.parked b).trans (h.parked b)
  admission i hi := (h'.admission i hi).trans (h.admission i hi)
  recv i hi := (h'.recv i hi).trans (h.recv i hi)
  grows := h.grows.trans h'.grows

/-- The registries are as before. -/
theorem face (hr : w'.reg = w.reg) (hg : Grows Event.offHandOver w.trace w'.trace) :
    Apart id w w' where
  records := by rw [hr]
  pending _ := by rw [hr]
  parked _ := by rw [hr]
  admission _ _ := by rw [hr]
  recv _ _ := by rw [hr]
  grows := hg

theorem refl (w : World σ) : Apart id w w := face rfl (.refl _ _)

theorem emit (w : World σ) (e : Event) (he : e.offHandOver) : Apart id w (w.emit e) :=
  face rfl (.one he)

/-- The cursors and the send registry do not matter here. -/
theorem aside (ha : w'.reg.admission = w.reg.admission) (hr : w'.reg.recv = w.reg.recv)
    (hp : w'.reg.pendingAdmit = w.reg.pendingAdmit)
    (hq : ∀ b, pendingOf w'.reg b = pendingOf w.reg b)
    (hk : ∀ b, parkedOf w'.reg b = parkedOf w.reg b)
    (hg : Grows Event.offHandOver w.trace w'.trace) : Apart id w w' where
  records := hp
  pending := hq
  parked := hk
  admission _ _ := by rw [ha]
  recv _ _ := by rw [hr]
  grows := hg

theorem sendSide (h : SendSide w w') : Apart id w w' := by
  refine aside h.admission h.recv h.pendingAdmit ?_ ?_ (h.grows.mono fun e he => ?_)
  · intro b
    rw [h.eq]
    rfl
  · intro b
    rw [h.eq]
    rfl
  · cases e <;> first | exact he.elim | trivial

theorem recvSide (h : RecvSide w w')
    (hr : ∀ i, i ≠ id → w'.reg.recv.lookup i = w.reg.recv.lookup i) : Apart id w w' where
  records := h.pendingAdmit
  pending b := by
    rw [h.eq]
    rfl
  parked b := by
    rw [h.eq]
    rfl
  admission _ _ := by rw [h.admission]
  recv := hr
  grows := h.grows.mono fun e he => by cases e <;> first | exact he.elim | trivial

theorem interleave (w : World σ) : Apart id w w.interleave := by
  refine face rfl ((Face.fronts_rel (w.ctl.script.headD []) w.toFace).grows.mono fun e he => ?_)
  cases e <;> first | exact he.elim | trivial

/-! ## 2. The registration and its drain -/

theorem reserve : ReserveFrame (Apart (σ := σ) id) where
  refl := refl
  trans := trans
  interleave := interleave
  emit w e he := emit w e (by cases e <;> first | exact he.elim | trivial)
  modRecv _ _ _ _ := face rfl (.refl _ _)

theorem dropRecvEntry (w : World σ) (id : Nat) : Apart id w (w.dropRecvEntry id) := by
  refine recvSide (recvSides.dropRecvEntry w id) fun i hi => ?_
  unfold World.dropRecvEntry
  split
  · rfl
  · exact AList.lookup_erase_ne hi

theorem insertRecv (w : World σ) (id h : Nat) : Apart id w (w.insertRecv id h) := by
  refine recvSide (recvSides.insertRecv w id h) fun i hi => ?_
  refine Eq.trans ?_ ((dropRecvEntry w id).recv i hi)
  exact AList.lookup_insert_ne hi

theorem buildRecv (w : World σ) (id : Nat) (retained : Option RecvEnd) :
    Apart id w (w.buildRecv id retained).2 := by
  cases retained with
  | some e =>
    refine trans ?_ (reserve.setRecvCell _ _ e)
    exact face rfl (.refl _ _)
  | none =>
    refine trans ?_ (insertRecv _ id _)
    exact face rfl (.refl _ _)

theorem setAdmission (w : World σ) (id : Nat) (a : AdmitState) :
    Apart id w { w with reg.admission := w.reg.admission.insert id a } where
  records := rfl
  pending _ := rfl
  parked _ := rfl
  admission _ hi := AList.lookup_insert_ne hi
  recv _ _ := rfl
  grows := .refl _ _

theorem eraseAdmission (w : World σ) (id : Nat) :
    Apart id w { w with reg.admission := w.reg.admission.erase id } where
  records := rfl
  pending _ := rfl
  parked _ := rfl
  admission _ hi := AList.lookup_erase_ne hi
  recv _ _ := rfl
  grows := .refl _ _

theorem shutdownPeerDirections (w : World σ) (i : Nat) (bidi : Bool) :
    Apart id w (w.shutdownPeerDirections T i bidi) :=
  reserve.shutdownPeerDirections (fun _ _ _ => face rfl (.one trivial)) w bidi

/-- The drain of a stream concerns no other. -/
theorem pump (id : Nat) : PumpFrame (Apart (σ := σ) id) id :=
  { reserve with
    eraseAdmit := fun w => eraseAdmission w id
    markAdmit := fun w _ _ => setAdmission w id _
    dropRecv := fun w => dropRecvEntry w id
    dropSend := fun w => sendSide (sendSides.dropSendEntry w id)
    recvCursors := fun _ => aside rfl rfl rfl (fun _ => rfl) (fun _ => rfl) (.refl _ _)
    sendCursor := fun w => sendSide (sendSide_runnable w _)
    recvDone := fun w => emit w _ trivial
    sendDone := fun w => emit w _ trivial
    finished := fun w _ _ => sendSide (sendSides.putSend w id _)
    call := fun _ _ e he => face rfl (.one (by cases e <;> first | exact he.elim | trivial))
    place := fun _ _ _ _ => face rfl (.one trivial)
    requeueAndIterate := fun _ => aside rfl rfl rfl (fun _ => rfl) (fun _ => rfl) (.refl _ _) }

end Apart

/-! ## 3. A turn of the loop -/

/-- What became of an id the loop examined. -/
inductive Verdict
  | registered
  | full
  | tornDown
  deriving DecidableEq

/-- Whether the class is served no more in this pump. -/
def Verdict.blocks : Verdict → Bool
  | .registered => false
  | _ => true

/-- An id the loop examined. -/
structure Exam where
  bidi : Bool
  id : Nat
  verdict : Verdict
  deriving DecidableEq

/-- The waiting streams, as the loop finds them: each in the queue of its class, once, with its
record, and nowhere else. -/
structure Waiting (r : Registry) : Prop where
  ofClass : ∀ b, ∀ id ∈ pendingOf r b, isBidi id = b
  once : ∀ b, (pendingOf r b).Nodup
  record : ∀ b, ∀ id ∈ pendingOf r b, ∃ peer, r.pendingAdmit.lookup id = some peer ∧ peer.id = id
  fresh : ∀ b, ∀ id ∈ pendingOf r b, r.admission.lookup id = none ∧ r.recv.lookup id = none

theorem waiting_of_placed {r : Registry} (h : r.Placed)
    (hk : ∀ id peer, r.pendingAdmit.lookup id = some peer → peer.id = id) : Waiting r where
  ofClass b id hid := ((h.pendingIds b id).mp hid).1
  once := h.pendingOnce
  record b id hid := by
    have hkey := ((h.pendingIds b id).mp hid).2
    obtain ⟨peer, hp⟩ := Option.isSome_iff_exists.mp (AList.lookup_isSome.mpr
      (AList.mem_keys.mpr hkey))
    exact ⟨peer, hp, hk id peer hp⟩
  fresh b id hid := by
    obtain ⟨ha, hr⟩ := h.pendingNew id ((h.pendingIds b id).mp hid).2
    exact ⟨AList.lookup_eq_none.mpr (fun hm => ha (AList.mem_keys.mp hm)),
      AList.lookup_eq_none.mpr (fun hm => hr (AList.mem_keys.mp hm))⟩

/-- The head of the pending queue of a class has left it, with its record. -/
structure Taken (b : Bool) (id : Nat) (peer : PeerStream) (w v : World σ) : Prop where
  peer : w.reg.pendingAdmit.lookup id = some peer
  queue : ∃ rest, pendingOf w.reg b = id :: rest ∧
    v = { w with reg := { setPendingOf w.reg b rest with
      pendingAdmit := (setPendingOf w.reg b rest).pendingAdmit.erase id } }

/-- Register a peer stream of class `b` and hand it over. -/
def register (w : World σ) (b : Bool) (peer : PeerStream) : World σ :=
  if b then w.registerBidi peer else w.registerUni peer

/-- One turn of the loop: the head of the queue of class `b` is examined.  The accept queue is
looked at once the other tasks had their chance to run. -/
inductive Turn (T : QuicConn σ) (b : Bool) (id : Nat) (w : World σ) : Verdict → World σ → Prop
  | registered {peer : PeerStream} {v : World σ} (ht : Taken b id peer w v)
      (ho : (v.interleave.sh.door b).isOpen = true)
      (hr : (v.interleave.sh.door b).waiting < (v.interleave.sh.door b).cap)
      (hs : v.interleave.interleave.sh.senders ≠ 0) :
      Turn T b id w .registered ((v.interleave.interleave.register b peer).admitFinish T id)
  | full {peer : PeerStream} {v : World σ} (ht : Taken b id peer w v)
      (ho : (v.interleave.sh.door b).isOpen = true)
      (hf : (v.interleave.sh.door b).cap ≤ (v.interleave.sh.door b).waiting) :
      Turn T b id w .full (v.interleave.parkPeer b false id peer)
  | shut {peer : PeerStream} {v : World σ} (ht : Taken b id peer w v)
      (ho : (v.interleave.sh.door b).isOpen = false) :
      Turn T b id w .tornDown (v.interleave.shutdownPeerDirections T id b)
  | orphan {peer : PeerStream} {v : World σ} (ht : Taken b id peer w v)
      (ho : (v.interleave.sh.door b).isOpen = true)
      (hr : (v.interleave.sh.door b).waiting < (v.interleave.sh.door b).cap)
      (hs : v.interleave.interleave.sh.senders = 0) :
      Turn T b id w .tornDown (v.interleave.interleave.shutdownPeerDirections T id b)

/-- What a turn leaves behind, whatever its verdict. -/
structure Examined (b : Bool) (id : Nat) (v : Verdict) (w w' : World σ) : Prop where
  queue : pendingOf w.reg b = id :: pendingOf w'.reg b
  other : pendingOf w'.reg (!b) = pendingOf w.reg (!b)
  records : w'.reg.pendingAdmit = w.reg.pendingAdmit.erase id
  parked : ∀ c, parkedOf w'.reg c =
    parkedOf w.reg c ++ if c = b ∧ v = .full then [id] else []
  admission : ∀ i, i ≠ id → w'.reg.admission.lookup i = w.reg.admission.lookup i
  recv : ∀ i, i ≠ id → w'.reg.recv.lookup i = w.reg.recv.lookup i
  handed : ∃ evs, w'.trace = evs ++ w.trace ∧
    handOversOf evs = if v = .registered then [id] else []

namespace Taken

variable {b : Bool} {peer : PeerStream} {v : World σ}

variable (ht : Taken b id peer w v)

include ht

theorem pendingOf_self : pendingOf w.reg b = id :: pendingOf v.reg b := by
  obtain ⟨rest, hq, rfl⟩ := ht.queue
  rw [hq]
  cases b <;> rfl

theorem pendingOf_other : pendingOf v.reg (!b) = pendingOf w.reg (!b) := by
  obtain ⟨rest, hq, rfl⟩ := ht.queue
  cases b <;> rfl

theorem records : v.reg.pendingAdmit = w.reg.pendingAdmit.erase id := by
  obtain ⟨rest, hq, rfl⟩ := ht.queue
  cases b <;> rfl

theorem parkedOf_same (c : Bool) : parkedOf v.reg c = parkedOf w.reg c := by
  obtain ⟨rest, hq, rfl⟩ := ht.queue
  cases b <;> cases c <;> rfl

theorem admission : v.reg.admission = w.reg.admission := by
  obtain ⟨rest, hq, rfl⟩ := ht.queue
  cases b <;> rfl

theorem recv : v.reg.recv = w.reg.recv := by
  obtain ⟨rest, hq, rfl⟩ := ht.queue
  cases b <;> rfl

theorem trace : v.trace = w.trace := by
  obtain ⟨rest, hq, rfl⟩ := ht.queue
  rfl

/-- A turn that registers nothing and parks nothing. -/
theorem examined (ha : Apart id v w') : Examined b id .tornDown w w' where
  queue := by rw [ha.pending, ht.pendingOf_self]
  other := by rw [ha.pending, ht.pendingOf_other]
  records := ha.records.trans ht.records
  parked c := by
    rw [ha.parked, ht.parkedOf_same, if_neg (by simp), List.append_nil]
  admission i hi := by rw [ha.admission i hi, ht.admission]
  recv i hi := by rw [ha.recv i hi, ht.recv]
  handed := by
    obtain ⟨evs, htr, hev⟩ := ha.grows
    exact ⟨evs, by rw [htr, ht.trace], handOversOf_offHandOver hev⟩

/-- The stream met a full queue and is parked. -/
theorem parkPeer (ha : Apart id v w') : Examined b id .full w (w'.parkPeer b false id peer) where
  queue := by
    rw [ht.pendingOf_self, ← ha.pending]
    cases b <;> rfl
  other := by
    rw [← ht.pendingOf_other, ← ha.pending]
    cases b <;> rfl
  records := by
    rw [← ht.records, ← ha.records]
    cases b <;> rfl
  parked c := by
    rw [← ht.parkedOf_same, ← ha.parked]
    cases b <;> cases c <;> simp [World.parkPeer, setParkedOf, parkedOf]
  admission i hi := by
    rw [← ht.admission, ← ha.admission i hi]
    cases b <;> exact AList.lookup_insert_ne hi
  recv i hi := by
    rw [← ht.recv, ← ha.recv i hi]
    cases b <;> rfl
  handed := by
    obtain ⟨evs, htr, hev⟩ := ha.grows
    exact ⟨evs, htr.trans (by rw [ht.trace]), handOversOf_offHandOver hev⟩

end Taken

/-- Registration hands the stream over, and concerns no other. -/
theorem register_apart (w : World σ) (b : Bool) (peer : PeerStream) (hid : peer.id = id) :
    ∃ v, Apart id w v ∧ (w.register b peer).reg = v.reg ∧
      (w.register b peer).trace = .handOver id :: v.trace := by
  subst hid
  cases b with
  | true =>
    have h1 := (Apart.buildRecv w peer.id peer.pendingRecvTerminal).trans
      (.sendSide (sendSides.buildSend _ peer.id peer.pendingSendTerminal))
    have h2 := h1.trans (.setAdmission _ peer.id
      (.registered peer.pendingSendTerminal.isSome peer.pendingRecvTerminal.isSome))
    exact ⟨_, h2.trans (.interleave _), rfl, rfl⟩
  | false =>
    have h1 := (Apart.buildRecv w peer.id peer.pendingRecvTerminal).trans
      (.setAdmission _ peer.id (.registered true peer.pendingRecvTerminal.isSome))
    exact ⟨_, h1.trans (.interleave _), rfl, rfl⟩

theorem Taken.registered {b : Bool} {peer : PeerStream} {v : World σ} (ht : Taken b id peer w v)
    (ha : Apart id v w') (hid : peer.id = id) :
    Examined b id .registered w ((w'.register b peer).admitFinish T id) := by
  obtain ⟨u, hu, hreg, htr⟩ := register_apart w' b peer hid
  have hpre := ha.trans hu
  have hpost := (Apart.pump id).admitFinish (T := T) (w'.register b peer)
  refine ⟨?_, ?_, ?_, ?_, ?_, ?_, ?_⟩
  · rw [hpost.pending, hreg, hpre.pending, ht.pendingOf_self]
  · rw [hpost.pending, hreg, hpre.pending, ht.pendingOf_other]
  · rw [hpost.records, hreg, hpre.records, ht.records]
  · intro c
    rw [hpost.parked, hreg, hpre.parked, ht.parkedOf_same, if_neg (by simp), List.append_nil]
  · intro i hi
    rw [hpost.admission i hi, hreg, hpre.admission i hi, ht.admission]
  · intro i hi
    rw [hpost.recv i hi, hreg, hpre.recv i hi, ht.recv]
  · obtain ⟨evs, h1, hev⟩ := hpre.grows
    obtain ⟨evs', h2, hev'⟩ := hpost.grows
    refine ⟨evs' ++ .handOver id :: evs, ?_, ?_⟩
    · rw [h2, htr, h1, ht.trace, List.append_assoc, List.cons_append]
    · rw [← List.singleton_append, ← List.append_assoc]
      unfold handOversOf
      rw [picked_append, picked_append]
      change handOversOf evs ++ ([id] ++ handOversOf evs') = [id]
      rw [handOversOf_offHandOver hev, handOversOf_offHandOver hev']
      rfl

/-- What every turn does. -/
theorem Turn.examined {b : Bool} {v : Verdict} (h : Turn T b id w v w') (hw : Waiting w.reg) :
    Examined b id v w w' := by
  cases h with
  | registered ht ho hr hs =>
    refine ht.registered (.trans (.interleave _) (.interleave _)) ?_
    obtain ⟨rest, hq, -⟩ := ht.queue
    obtain ⟨peer, hp, hid⟩ := hw.record b id (by rw [hq]; exact List.mem_cons_self)
    rw [ht.peer] at hp
    cases hp
    exact hid
  | full ht ho hf => exact ht.parkPeer (.interleave _)
  | shut ht ho => exact ht.examined (.trans (.interleave _) (.shutdownPeerDirections _ id b))
  | orphan ht ho hr hs =>
    exact ht.examined (.trans (.interleave _) (.trans (.interleave _)
      (.shutdownPeerDirections _ id b)))

namespace Examined

variable {b : Bool} {v : Verdict}

theorem pending_sub (h : Examined b id v w w') (c : Bool) :
    (pendingOf w'.reg c).Sublist (pendingOf w.reg c) := by
  by_cases hc : c = b
  · subst hc
    rw [h.queue]
    exact List.sublist_cons_self _ _
  · have hn : c = !b := by
      cases b <;> cases c <;> simp_all
    rw [hn, h.other]

/-- The examined id waits no more. -/
theorem not_pending (h : Examined b id v w w') (hw : Waiting w.reg) (c : Bool) :
    id ∉ pendingOf w'.reg c := by
  intro hm
  have hb := hw.ofClass b id (by rw [h.queue]; exact List.mem_cons_self)
  have hc := hw.ofClass c id ((h.pending_sub c).subset hm)
  have hbc : c = b := hc.symm.trans hb
  subst hbc
  have hnd := hw.once c
  rw [h.queue, List.nodup_cons] at hnd
  exact hnd.1 hm

/-- **A turn leaves the others waiting as they were.** -/
theorem waiting (h : Examined b id v w w') (hw : Waiting w.reg) : Waiting w'.reg where
  ofClass c i hi := hw.ofClass c i ((h.pending_sub c).subset hi)
  once c := (hw.once c).sublist (h.pending_sub c)
  record c i hi := by
    have hne : i ≠ id := fun he => h.not_pending hw c (he ▸ hi)
    rw [h.records, AList.lookup_erase_ne hne]
    exact hw.record c i ((h.pending_sub c).subset hi)
  fresh c i hi := by
    have hne : i ≠ id := fun he => h.not_pending hw c (he ▸ hi)
    rw [h.admission i hne, h.recv i hne]
    exact hw.fresh c i ((h.pending_sub c).subset hi)

end Examined

/-! ## 4. The loop, turn by turn -/

/-- Class `c` can be served: it is not blocked in this pump, and a stream of it waits. -/
def Servable (shut : Bool → Bool) (w : World σ) (c : Bool) : Prop :=
  shut c = false ∧ pendingOf w.reg c ≠ []

/-- The classes blocked after a turn of class `b`. -/
def blockedAfter (shut : Bool → Bool) (b : Bool) (v : Verdict) (c : Bool) : Bool :=
  shut c || (c == b && v.blocks)

/-- The loop as a sequence of turns, without fuel.  `prefer` is the class served when both can
be; the class served last is not preferred. -/
inductive Pass (T : QuicConn σ) :
    Nat → (Bool → Bool) → Bool → World σ → List Exam → World σ → Prop
  | spent (shut : Bool → Bool) (prefer : Bool) (w : World σ) : Pass T 0 shut prefer w [] w
  | idle {budget : Nat} {shut : Bool → Bool} {prefer : Bool} {w : World σ}
      (h : ∀ c, ¬ Servable shut w c) : Pass T budget shut prefer w [] w
  | turn {budget : Nat} {shut : Bool → Bool} {prefer b : Bool} {id : Nat} {v : Verdict}
      {w w1 w' : World σ} {xs : List Exam} (hb : Servable shut w b)
      (hp : Servable shut w (!b) → b = prefer) (ht : Turn T b id w v w1)
      (hrest : Pass T budget (blockedAfter shut b v) (!b) w1 xs w') :
      Pass T (budget + 1) shut prefer w (⟨b, id, v⟩ :: xs) w'

/-- The two flags of the loop, by class. -/
def shutOf (bidiBlocked uniBlocked : Bool) (c : Bool) : Bool :=
  if c then bidiBlocked else uniBlocked

theorem shutOf_blockedAfter (bb ub b : Bool) (v : Verdict) :
    shutOf (bb || (b && v.blocks)) (ub || (!b && v.blocks)) = blockedAfter (shutOf bb ub) b v := by
  funext c
  cases b <;> cases c <;> simp [shutOf, blockedAfter]

/-- `admit_one` on the head of a queue, as one turn. -/
theorem admitOne_turn {b : Bool} {peer : PeerStream} {v : World σ} (ht : Taken b id peer w v)
    (hid : peer.id = id) (hb : isBidi id = b) :
    (∃ w1, v.admitOne T peer = (.registered, w1) ∧ Turn T b id w .registered w1) ∨
    (∃ w1, v.admitOne T peer = (.full peer, w1) ∧
      Turn T b id w .full (w1.parkPeer b false id peer)) ∨
    (∃ w1, v.admitOne T peer = (.tornDown, w1) ∧ Turn T b id w .tornDown w1) := by
  subst hid hb
  unfold admitOne
  dsimp only
  generalize hb : isBidi peer.id = b at ht ⊢
  cases b with
  | true =>
    rw [if_pos rfl]
    split
    · rename_i ho
      exact .inr (.inr ⟨_, rfl, .shut ht ho⟩)
    · rename_i ho
      have ho : v.interleave.sh.acceptBidiOpen = true := Bool.eq_true_of_not_eq_false ho
      split
      · rename_i hf
        exact .inr (.inl ⟨_, rfl, .full ht ho hf⟩)
      · rename_i hr
        split
        · rename_i hs
          exact .inr (.inr ⟨_, rfl, .orphan ht ho (Nat.lt_of_not_le hr) hs⟩)
        · rename_i hs
          exact .inl ⟨_, rfl, .registered ht ho (Nat.lt_of_not_le hr) hs⟩
  | false =>
    rw [if_neg Bool.false_ne_true]
    split
    · rename_i ho
      exact .inr (.inr ⟨_, rfl, .shut ht ho⟩)
    · rename_i ho
      have ho : v.interleave.sh.acceptUniOpen = true := Bool.eq_true_of_not_eq_false ho
      split
      · rename_i hf
        exact .inr (.inl ⟨_, rfl, .full ht ho hf⟩)
      · rename_i hr
        split
        · rename_i hs
          exact .inr (.inr ⟨_, rfl, .orphan ht ho (Nat.lt_of_not_le hr) hs⟩)
        · rename_i hs
          exact .inl ⟨_, rfl, .registered ht ho (Nat.lt_of_not_le hr) hs⟩

/-- The readiness tests of the loop. -/
theorem servable_iff (bb ub c : Bool) (w : World σ) : Servable (shutOf bb ub) w c ↔
      (!shutOf bb ub c && !(pendingOf w.reg c).isEmpty) = true := by
  simp [Servable, List.isEmpty_eq_false_iff]

/-- The class the loop serves: the preferred one if both can be served. -/
def classServed (bb ub p : Bool) (w : World σ) : Bool :=
  if (!bb && !w.reg.pendingAdmitBidi.isEmpty) && (!ub && !w.reg.pendingAdmitUni.isEmpty) then p
  else !bb && !w.reg.pendingAdmitBidi.isEmpty

theorem servable_classServed {bb ub p : Bool} {c : Bool} (hc : Servable (shutOf bb ub) w c) :
    Servable (shutOf bb ub) w (classServed bb ub p w) ∧
      (Servable (shutOf bb ub) w (!classServed bb ub p w) → classServed bb ub p w = p) := by
  have ht := servable_iff bb ub true w
  have hf := servable_iff bb ub false w
  change _ ↔ (!bb && !w.reg.pendingAdmitBidi.isEmpty) = true at ht
  change _ ↔ (!ub && !w.reg.pendingAdmitUni.isEmpty) = true at hf
  unfold classServed
  cases h1 : (!bb && !w.reg.pendingAdmitBidi.isEmpty) <;>
    cases h2 : (!ub && !w.reg.pendingAdmitUni.isEmpty) <;> rw [h1] at ht <;> rw [h2] at hf
  · cases c <;> simp_all
  · simp_all
  · simp_all
  · cases p <;> simp_all

/-- An iteration with something to serve, up to the answer of `admit_one`. -/
theorem phase2Loop_admit {b : Bool} {rest : List Nat} {peer : PeerStream} (fuel budget : Nat)
    (bb ub p : Bool) (hs : Servable (shutOf bb ub) w b) (hb : classServed bb ub p w = b)
    (hq : pendingOf w.reg b = id :: rest) (ha : w.reg.admission.lookup id = none)
    (hr : w.reg.recv.lookup id = none) (hp : w.reg.pendingAdmit.lookup id = some peer) :
    phase2Loop T (fuel + 1) (budget + 1) bb ub p w =
      match ({ w with reg := { setPendingOf w.reg b rest with
        pendingAdmit := (setPendingOf w.reg b rest).pendingAdmit.erase id } }).admitOne T peer with
      | (.registered, w) => phase2Loop T fuel budget bb ub (!b) w
      | (.full peer, w) =>
        phase2Loop T fuel budget (bb || b) (ub || !b) (!b) (w.parkPeer b false id peer)
      | (.tornDown, w) => phase2Loop T fuel budget (bb || b) (ub || !b) (!b) w := by
  have hready : ((!bb && !w.reg.pendingAdmitBidi.isEmpty) ||
      (!ub && !w.reg.pendingAdmitUni.isEmpty)) = true := by
    have h1 := (servable_iff bb ub b w).mp hs
    cases b with
    | true => exact Bool.or_eq_true_iff.mpr (.inl h1)
    | false => exact Bool.or_eq_true_iff.mpr (.inr h1)
  have ha' : (setPendingOf w.reg b rest).admission.lookup id = none := by cases b <;> exact ha
  have hr' : (setPendingOf w.reg b rest).recv.lookup id = none := by cases b <;> exact hr
  have hp' : (setPendingOf w.reg b rest).pendingAdmit.lookup id = some peer := by
    cases b <;> exact hp
  rw [phase2Loop, if_neg (Nat.succ_ne_zero budget)]
  dsimp only
  rw [if_pos hready]
  unfold classServed at hb
  rw [hb, hq]
  dsimp only
  rw [ha', hr', hp', if_neg (by simp)]
  rfl

/-- **One iteration of the loop.**  In a state whose registries agree it is a turn, or there is
nothing to serve; it does not depend on the fuel left. -/
theorem phase2Loop_turn (hw : Waiting w.reg) (budget : Nat) (bb ub p : Bool) :
    ((∀ c, ¬ Servable (shutOf bb ub) w c) ∧
      ∀ fuel, phase2Loop T fuel (budget + 1) bb ub p w = w) ∨
    ∃ b id v w1, Servable (shutOf bb ub) w b ∧ (Servable (shutOf bb ub) w (!b) → b = p) ∧
      Turn T b id w v w1 ∧ ∀ fuel, phase2Loop T (fuel + 1) (budget + 1) bb ub p w =
        phase2Loop T fuel budget (bb || (b && v.blocks)) (ub || (!b && v.blocks)) (!b) w1 := by
  by_cases hany : ∃ c, Servable (shutOf bb ub) w c
  · obtain ⟨c, hc⟩ := hany
    obtain ⟨hs, hother⟩ := servable_classServed (p := p) hc
    generalize hb : classServed bb ub p w = b at hs hother
    obtain ⟨id, rest, hq⟩ := List.exists_cons_of_ne_nil hs.2
    have hm : id ∈ pendingOf w.reg b := by
      rw [hq]
      exact List.mem_cons_self
    obtain ⟨peer, hp, hid⟩ := hw.record b id hm
    obtain ⟨ha, hr⟩ := hw.fresh b id hm
    have hstep (fuel : Nat) := phase2Loop_admit (T := T) fuel budget bb ub p hs hb hq ha hr hp
    have ht : Taken b id peer w { w with reg := { setPendingOf w.reg b rest with
        pendingAdmit := (setPendingOf w.reg b rest).pendingAdmit.erase id } } := ⟨hp, rest, hq, rfl⟩
    refine .inr ⟨b, id, ?_⟩
    obtain ⟨w1, hx, hturn⟩ | ⟨w1, hx, hturn⟩ | ⟨w1, hx, hturn⟩ :=
      admitOne_turn (T := T) ht hid (hw.ofClass b id hm)
    · refine ⟨.registered, w1, hs, hother, hturn, fun fuel => ?_⟩
      rw [hstep fuel, hx]
      simp [Verdict.blocks]
    · refine ⟨.full, _, hs, hother, hturn, fun fuel => ?_⟩
      rw [hstep fuel, hx]
      simp [Verdict.blocks]
    · refine ⟨.tornDown, w1, hs, hother, hturn, fun fuel => ?_⟩
      rw [hstep fuel, hx]
      simp [Verdict.blocks]
  · have hnone (c : Bool) : ¬ Servable (shutOf bb ub) w c := fun h => hany ⟨c, h⟩
    refine .inl ⟨hnone, fun fuel => ?_⟩
    have ht := mt (servable_iff bb ub true w).mpr (hnone true)
    have hf := mt (servable_iff bb ub false w).mpr (hnone false)
    cases fuel with
    | zero => rfl
    | succ fuel =>
      rw [phase2Loop, if_neg (Nat.succ_ne_zero budget)]
      dsimp only
      refine if_neg fun hor => ?_
      rcases Bool.or_eq_true_iff.mp hor with h | h
      · exact ht h
      · exact hf h

/-- How many streams wait. -/
def waitingCount (w : World σ) : Nat := w.reg.pendingAdmitBidi.length + w.reg.pendingAdmitUni.length

theorem Examined.waitingCount {b : Bool} {v : Verdict} (h : Examined b id v w w') :
    w.waitingCount = w'.waitingCount + 1 := by
  have h1 := congrArg List.length h.queue
  have h2 := congrArg List.length h.other
  rw [List.length_cons] at h1
  unfold World.waitingCount
  cases b with
  | true =>
    change w.reg.pendingAdmitBidi.length = w'.reg.pendingAdmitBidi.length + 1 at h1
    change w'.reg.pendingAdmitUni.length = w.reg.pendingAdmitUni.length at h2
    omega
  | false =>
    change w.reg.pendingAdmitUni.length = w'.reg.pendingAdmitUni.length + 1 at h1
    change w'.reg.pendingAdmitBidi.length = w.reg.pendingAdmitBidi.length at h2
    omega

/-- **The loop is a pass**, and fuel for the budget or for the streams waiting is enough. -/
theorem phase2Loop_pass : ∀ (budget : Nat) (bb ub p : Bool) (w : World σ), Waiting w.reg →
    ∃ xs w', Pass T budget (shutOf bb ub) p w xs w' ∧
      ∀ fuel, budget ≤ fuel ∨ w.waitingCount ≤ fuel → phase2Loop T fuel budget bb ub p w = w'
  | 0, bb, ub, p, w, _ => by
    refine ⟨[], w, .spent _ p w, fun fuel _ => ?_⟩
    cases fuel <;> rfl
  | budget + 1, bb, ub, p, w, hw => by
    obtain ⟨hnone, hloop⟩ | ⟨b, id, v, w1, hs, hother, hturn, hloop⟩ :=
      phase2Loop_turn (T := T) hw budget bb ub p
    · exact ⟨[], w, .idle hnone, fun fuel _ => hloop fuel⟩
    · have hex := hturn.examined hw
      obtain ⟨xs, w', hpass, hrest⟩ := phase2Loop_pass budget (bb || (b && v.blocks))
        (ub || (!b && v.blocks)) (!b) w1 (hex.waiting hw)
      rw [shutOf_blockedAfter] at hpass
      refine ⟨_, w', .turn hs hother hturn hpass, fun fuel hfuel => ?_⟩
      have hcount := hex.waitingCount
      cases fuel with
      | zero => omega
      | succ fuel =>
        rw [hloop fuel]
        exact hrest fuel (by omega)

/-! ## 5. What a pass does -/

/-- The ids examined of a class, in order. -/
def takenOf (b : Bool) (xs : List Exam) : List Nat := (xs.filter (·.bidi == b)).map (·.id)

/-- The ids of a class that met a full queue. -/
def fullOf (b : Bool) (xs : List Exam) : List Nat :=
  (xs.filter fun x => x.bidi == b && x.verdict == .full).map (·.id)

/-- The ids registered, in order. -/
def registeredIn (xs : List Exam) : List Nat :=
  (xs.filter (·.verdict == .registered)).map (·.id)

theorem takenOf_cons (b : Bool) (x : Exam) (xs : List Exam) :
    takenOf b (x :: xs) = (if x.bidi = b then [x.id] else []) ++ takenOf b xs := by
  unfold takenOf
  by_cases hx : x.bidi = b <;> simp [hx]

theorem fullOf_cons (b : Bool) (x : Exam) (xs : List Exam) : fullOf b (x :: xs) =
      (if b = x.bidi ∧ x.verdict = .full then [x.id] else []) ++ fullOf b xs := by
  unfold fullOf
  by_cases hx : x.bidi = b
  · by_cases hv : x.verdict = .full <;> simp [hx, hv]
  · simp [hx, Ne.symm hx]

theorem registeredIn_cons (x : Exam) (xs : List Exam) : registeredIn (x :: xs) =
      (if x.verdict = .registered then [x.id] else []) ++ registeredIn xs := by
  unfold registeredIn
  by_cases hv : x.verdict = .registered <;> simp [hv]

theorem mem_takenOf {x : Exam} {xs : List Exam} (h : x ∈ xs) : x.id ∈ takenOf x.bidi xs :=
  List.mem_map_of_mem (List.mem_filter.mpr ⟨h, by simp⟩)

/-- After these turns the class can still be served: none of it was refused, and one waits. -/
def StillReady (w : World σ) (xs : List Exam) (b : Bool) : Prop :=
  (∀ x ∈ xs, x.bidi = b → x.verdict = .registered) ∧
    (takenOf b xs).length < (pendingOf w.reg b).length

theorem Examined.pendingOf_eq {b : Bool} {v : Verdict} (h : Examined b id v w w') (c : Bool) :
    pendingOf w.reg c = (if b = c then [id] else []) ++ pendingOf w'.reg c := by
  by_cases hc : b = c
  · subst hc
    rw [if_pos rfl, h.queue, List.singleton_append]
  · have hn : c = !b := by
      cases b <;> cases c <;> simp_all
    rw [if_neg hc, List.nil_append, hn, h.other]

/-- Readiness, one turn further. -/
theorem Examined.stillReady {b c : Bool} {v : Verdict} {xs : List Exam} (h : Examined b id v w w') :
    StillReady w (⟨b, id, v⟩ :: xs) c ↔ (b = c → v = .registered) ∧ StillReady w' xs c := by
  have hlen : (takenOf c (⟨b, id, v⟩ :: xs)).length < (pendingOf w.reg c).length ↔
      (takenOf c xs).length < (pendingOf w'.reg c).length := by
    rw [takenOf_cons, h.pendingOf_eq c, List.length_append, List.length_append]
    exact Nat.add_lt_add_iff_left
  unfold StillReady
  rw [hlen, List.forall_mem_cons, and_assoc]

/-- A stream that met a full queue is parked with its record. -/
theorem Turn.parked_full {b : Bool} (h : Turn T b id w .full w') :
    ∃ peer, w.reg.pendingAdmit.lookup id = some peer ∧
      w'.reg.admission.lookup id = some (.parked peer) := by
  cases h with
  | full ht ho hf =>
    refine ⟨_, ht.peer, ?_⟩
    cases b <;> exact AList.lookup_insert _

/-- A stream torn down is registered nowhere. -/
theorem Turn.gone_tornDown {b : Bool} (h : Turn T b id w .tornDown w')
    (hf : w.reg.admission.lookup id = none ∧ w.reg.recv.lookup id = none) :
    w'.reg.admission.lookup id = none ∧ w'.reg.recv.lookup id = none := by
  have hreg (v : World σ) : (v.shutdownPeerDirections T id b).reg = v.reg := by
    cases b <;> rfl
  cases h with
  | shut ht | orphan ht =>
    rw [hreg]
    exact ⟨ht.admission ▸ hf.1, ht.recv ▸ hf.2⟩

namespace Pass

variable {budget : Nat} {shut : Bool → Bool} {prefer : Bool} {xs : List Exam}

variable (h : Pass T budget shut prefer w xs w')

include h

theorem length_le : xs.length ≤ budget := by
  induction h with
  | spent => exact Nat.le_refl 0
  | idle => exact Nat.zero_le _
  | turn _ _ _ _ ih => exact Nat.succ_le_succ ih

/-- The examined ids left the queues from the front, and the rest stays as it was. -/
theorem order (hw : Waiting w.reg) (c : Bool) :
    pendingOf w.reg c = takenOf c xs ++ pendingOf w'.reg c := by
  induction h with
  | spent => rfl
  | idle => rfl
  | turn _ _ ht _ ih =>
    have hex := ht.examined hw
    rw [takenOf_cons, List.append_assoc, ← ih (hex.waiting hw)]
    exact hex.pendingOf_eq c

/-- A blocked class is not examined. -/
theorem none_of_shut {c : Bool} (hc : shut c = true) : xs.filter (·.bidi == c) = [] := by
  induction h with
  | spent => rfl
  | idle => rfl
  | @turn _ shut _ b _ v _ _ _ _ hb _ _ _ ih =>
    have hne : b ≠ c := by
      rintro rfl
      rw [hb.1] at hc
      cases hc
    rw [List.filter_cons_of_neg (by simpa using hne)]
    exact ih (by rw [blockedAfter, hc, Bool.true_or])

/-- All ids examined of a class are registered, but for the last, which may be refused. -/
theorem refused (c : Bool) : ∃ admitted refused, xs.filter (·.bidi == c) = admitted ++ refused ∧
      (∀ x ∈ admitted, x.verdict = .registered) ∧ refused.length ≤ 1 ∧
      ∀ x ∈ refused, x.verdict ≠ .registered := by
  induction h with
  | spent | idle => exact ⟨[], [], rfl, by simp, Nat.zero_le 1, by simp⟩
  | @turn _ shut _ b id v _ _ _ xs hb _ _ hrest ih =>
    by_cases hc : b = c
    · subst hc
      rw [List.filter_cons_of_pos (by simp)]
      by_cases hv : v = .registered
      · obtain ⟨adm, ref, hx, hadm, hlen, href⟩ := ih
        refine ⟨⟨b, id, v⟩ :: adm, ref, by rw [hx, List.cons_append], ?_, hlen, href⟩
        exact List.forall_mem_cons.mpr ⟨hv, hadm⟩
      · -- a refusal blocks the class, so nothing of it follows
        have hblock : blockedAfter shut b v b = true := by
          cases v <;> simp_all [blockedAfter, Verdict.blocks]
        rw [hrest.none_of_shut hblock]
        exact ⟨[], [⟨b, id, v⟩], rfl, by simp, Nat.le_refl 1, by simpa using hv⟩
    · rw [List.filter_cons_of_neg (by simpa using hc)]
      exact ih

/-- Who met a full queue is parked, at the tail and in order. -/
theorem parked (hw : Waiting w.reg) (c : Bool) :
    parkedOf w'.reg c = parkedOf w.reg c ++ fullOf c xs := by
  induction h with
  | spent | idle => exact (List.append_nil _).symm
  | turn _ _ ht _ ih =>
    have hex := ht.examined hw
    rw [ih (hex.waiting hw), hex.parked c, fullOf_cons, List.append_assoc]

/-- Who is registered is handed over, in order. -/
theorem handed (hw : Waiting w.reg) :
    ∃ evs, w'.trace = evs ++ w.trace ∧ handOversOf evs = registeredIn xs := by
  induction h with
  | spent | idle => exact ⟨[], rfl, rfl⟩
  | turn _ _ ht _ ih =>
    have hex := ht.examined hw
    obtain ⟨evs, htr, hev⟩ := hex.handed
    obtain ⟨evs', htr', hev'⟩ := ih (hex.waiting hw)
    refine ⟨evs' ++ evs, by rw [htr', htr, List.append_assoc], ?_⟩
    rw [registeredIn_cons, ← hev', ← hev]
    exact picked_append _ evs evs'

/-- Who is not examined is left as it was. -/
theorem aside (hw : Waiting w.reg) {i : Nat} (hi : ∀ x ∈ xs, x.id ≠ i) :
    w'.reg.pendingAdmit.lookup i = w.reg.pendingAdmit.lookup i ∧
      w'.reg.admission.lookup i = w.reg.admission.lookup i ∧
      w'.reg.recv.lookup i = w.reg.recv.lookup i := by
  induction h with
  | spent | idle => exact ⟨rfl, rfl, rfl⟩
  | turn _ _ ht _ ih =>
    have hex := ht.examined hw
    obtain ⟨hne, hrest⟩ := List.forall_mem_cons.mp hi
    obtain ⟨hp, ha, hr⟩ := ih (hex.waiting hw) hrest
    have hne : i ≠ _ := Ne.symm hne
    rw [hp, ha, hr, hex.records, AList.lookup_erase_ne hne, hex.admission i hne, hex.recv i hne]
    exact ⟨rfl, rfl, rfl⟩

/-- What was examined waits no more; what was refused is parked with its record, or gone. -/
theorem fate (hw : Waiting w.reg) : ∀ x ∈ xs, w'.reg.pendingAdmit.lookup x.id = none ∧
      (x.verdict = .full → ∃ peer, w.reg.pendingAdmit.lookup x.id = some peer ∧
        w'.reg.admission.lookup x.id = some (.parked peer)) ∧
      (x.verdict = .tornDown →
        w'.reg.admission.lookup x.id = none ∧ w'.reg.recv.lookup x.id = none) := by
  induction h with
  | spent => simp
  | idle => simp
  | @turn _ _ _ b id v w w1 _ xs _ _ ht hrest ih =>
    have hex := ht.examined hw
    have hw1 := hex.waiting hw
    -- no later turn is about the id of this one
    have hlater : ∀ x ∈ xs, x.id ≠ id := by
      intro x hx he
      refine hex.not_pending hw x.bidi ?_
      rw [← he, hrest.order hw1 x.bidi]
      exact List.mem_append_left _ (mem_takenOf hx)
    refine List.forall_mem_cons.mpr ⟨?_, fun x hx => ?_⟩
    · obtain ⟨hp, ha, hr⟩ := hrest.aside hw1 hlater
      dsimp only
      rw [hp, ha, hr, hex.records, AList.lookup_erase]
      refine ⟨rfl, ?_, ?_⟩
      · rintro rfl
        exact ht.parked_full
      · rintro rfl
        exact ht.gone_tornDown (hw.fresh b id (by rw [hex.queue]; exact List.mem_cons_self))
    · obtain ⟨h1, h2, h3⟩ := ih hw1 x hx
      refine ⟨h1, fun hv => ?_, h3⟩
      obtain ⟨peer, hp, ha⟩ := h2 hv
      rw [hex.records, AList.lookup_erase_ne (hlater x hx)] at hp
      exact ⟨peer, hp, ha⟩

omit h in
theorem ready_after {b : Bool} {v : Verdict} (hex : Examined b id v w w') {c : Bool}
    (hc : shut c = false)
    (hr : StillReady w (⟨b, id, v⟩ :: xs) c) :
    blockedAfter shut b v c = false ∧ StillReady w' xs c := by
  obtain ⟨hv, hr⟩ := hex.stillReady.mp hr
  refine ⟨?_, hr⟩
  by_cases hcb : b = c
  · rw [hv hcb]
    simp [blockedAfter, Verdict.blocks, hc]
  · simp [blockedAfter, hc, Ne.symm hcb]

/-- A class that can still be served is served, whatever became of the other: the pass ends with
the budget, or with nothing left to serve. -/
theorem complete (hw : Waiting w.reg)
    (hlt : xs.length < budget) (c : Bool) (hc : shut c = false) : ¬ StillReady w xs c := by
  induction h with
  | spent => exact absurd hlt (Nat.lt_irrefl 0)
  | idle hnone =>
    intro hr
    exact hnone c ⟨hc, List.ne_nil_of_length_pos hr.2⟩
  | turn _ _ ht _ ih =>
    intro hr
    have hex := ht.examined hw
    obtain ⟨hc', hr'⟩ := ready_after hex hc hr
    exact ih (hex.waiting hw) (Nat.lt_of_succ_lt_succ hlt) hc' hr'

/-- While both classes can be served they take turns, the preferred one first. -/
theorem fair (hw : Waiting w.reg) {pre post : List Exam} {x : Exam} (hx : xs = pre ++ x :: post)
    (hs : ∀ c, shut c = false) (hr : ∀ c, StillReady w pre c) :
    (takenOf (!prefer) (pre ++ [x])).length ≤ (takenOf prefer (pre ++ [x])).length ∧
      (takenOf prefer (pre ++ [x])).length ≤ (takenOf (!prefer) (pre ++ [x])).length + 1 := by
  induction h generalizing pre with
  | spent => simp at hx
  | idle => simp at hx
  | @turn _ shut prefer b id v w w1 _ xs _ hp ht hrest ih =>
    have hex := ht.examined hw
    -- both can be served, so this turn is the preferred class's
    have hb : b = prefer := by
      refine hp ⟨hs _, ?_⟩
      exact List.ne_nil_of_length_pos (Nat.lt_of_le_of_lt (Nat.zero_le _) (hr (!b)).2)
    subst hb
    cases pre with
    | nil =>
      obtain ⟨rfl, -⟩ := List.cons.inj hx
      simp [takenOf]
    | cons y pre =>
      rw [List.cons_append] at hx
      obtain ⟨rfl, htail⟩ := List.cons.inj hx
      have hnext (c : Bool) := ready_after hex (hs c) (hr c)
      obtain ⟨h1, h2⟩ := ih (hex.waiting hw) htail (fun c => (hnext c).1)
        (fun c => (hnext c).2)
      rw [Bool.not_not] at h1 h2
      rw [List.cons_append, takenOf_cons, takenOf_cons]
      simp only [if_true, List.singleton_append, List.length_cons, Bool.eq_not_self, if_false,
        List.nil_append]
      omega

end Pass

/-! ## 6. The admission loop -/

/-- What `phase2_admission` makes of `w`: it examined `xs` and left `w'`. -/
structure AdmissionPass (T : QuicConn σ) (w : World σ) (xs : List Exam) (w' : World σ) : Prop where
  /-- Turn by turn. -/
  pass : Pass T admitBudget (fun _ => false) true w xs w'
  bound : xs.length ≤ admitBudget
  /-- `ADMIT_BUDGET` iterations are enough: the loop returns, whatever fuel it has on top. -/
  returns : ∀ fuel, admitBudget ≤ fuel → phase2Loop T fuel admitBudget false false true w = w'
  /-- Of each class a stretch of the queue was taken from its front, and the rest is unchanged. -/
  order : ∀ b, pendingOf w.reg b = takenOf b xs ++ pendingOf w'.reg b
  /-- Of each class all were admitted, but for at most one, which is the last. -/
  refused : ∀ b, ∃ admitted refused, xs.filter (·.bidi == b) = admitted ++ refused ∧
    (∀ x ∈ admitted, x.verdict = .registered) ∧ refused.length ≤ 1 ∧
    ∀ x ∈ refused, x.verdict ≠ .registered
  /-- The admitted ones were handed over, in order. -/
  handed : ∃ evs, w'.trace = evs ++ w.trace ∧ handOversOf evs = registeredIn xs
  /-- The one that met a full queue is parked behind those parked before. -/
  parked : ∀ b, parkedOf w'.reg b = parkedOf w.reg b ++ fullOf b xs
  /-- An examined stream waits no more; refused, it is parked with its record, or gone. -/
  fate : ∀ x ∈ xs, w'.reg.pendingAdmit.lookup x.id = none ∧
    (x.verdict = .full → ∃ peer, w.reg.pendingAdmit.lookup x.id = some peer ∧
      w'.reg.admission.lookup x.id = some (.parked peer)) ∧
    (x.verdict = .tornDown →
      w'.reg.admission.lookup x.id = none ∧ w'.reg.recv.lookup x.id = none)
  /-- The records of all others are unchanged. -/
  rest : ∀ i, (∀ x ∈ xs, x.id ≠ i) →
    w'.reg.pendingAdmit.lookup i = w.reg.pendingAdmit.lookup i
  /-- The loop ends with its budget or with no class to serve: a blocked class does not stop the
  other. -/
  complete : xs.length < admitBudget → ∀ b, ¬ StillReady w xs b
  /-- While both classes stay ready, the numbers taken of each differ by at most one. -/
  fair : ∀ pre x post, xs = pre ++ x :: post → (∀ b, StillReady w pre b) →
    (takenOf false (pre ++ [x])).length ≤ (takenOf true (pre ++ [x])).length ∧
      (takenOf true (pre ++ [x])).length ≤ (takenOf false (pre ++ [x])).length + 1

/-- **The admission loop is bounded, fair and order-preserving**, in every state whose registries
agree and whose waiting records are stored under their own ids (`PeersOk`, which every run keeps),
for every transport, every content and capacity of the accept queues, and whatever the other tasks
do meanwhile. -/
theorem admission_loop (T : QuicConn σ) (w : World σ) (hinv : w.RegistryInvariant)
    (hkeyed : ∀ id peer, w.reg.pendingAdmit.lookup id = some peer → peer.id = id) :
    ∃ xs, AdmissionPass T w xs (w.phase2Admission T) := by
  have hw := waiting_of_placed hinv.placed hkeyed
  obtain ⟨xs, w', hpass, hloop⟩ := phase2Loop_pass (T := T) admitBudget false false true w hw
  have hshut : shutOf false false = fun _ => false := by
    funext c
    cases c <;> rfl
  rw [hshut] at hpass
  have he : w.phase2Admission T = w' := hloop _ (.inr (Nat.le_refl _))
  rw [he]
  exact ⟨xs, {
    pass := hpass
    bound := hpass.length_le
    returns := fun fuel hfuel => hloop fuel (.inl hfuel)
    order := hpass.order hw
    refused := hpass.refused
    handed := hpass.handed hw
    parked := hpass.parked hw
    fate := hpass.fate hw
    rest := fun i hi => (hpass.aside hw hi).1
    complete := fun hlt b => hpass.complete hw hlt b rfl
    fair := fun _ _ _ hx hr => hpass.fair hw hx (fun _ => rfl) hr }⟩

/-- A server with room for one accepted stream of each class has discovered three bidi streams and
two uni streams. -/
def fiveWaiting : World MockConn :=
  (withBuffers true 1 1 8 none { readableNext := [0, 4, 2, 8, 6] } []).intakeReadable mockConn

/-- One stream of each class is handed over, the next of each is parked, and the third bidi stream
still waits. -/
theorem fiveWaiting_admission :
    fiveWaiting.reg.pendingAdmitBidi = [0, 4, 8] ∧ fiveWaiting.reg.pendingAdmitUni = [2, 6] ∧
      (fiveWaiting.phase2Admission mockConn).reg.pendingAdmitBidi = [8] ∧
      (fiveWaiting.phase2Admission mockConn).reg.parkedBidi = [4] ∧
      ∃ xs, AdmissionPass mockConn fiveWaiting xs (fiveWaiting.phase2Admission mockConn) := by
  have hs : Steps mockConn (withBuffers true 1 1 8 none { readableNext := [0, 4, 2, 8, 6] } [])
      fiveWaiting := intakeLoop_steps discoveryBudget _
  have hinv : fiveWaiting.RegistryInvariant :=
    registryInvariant_steps true 1 1 8 none _ [] hs (by decide +kernel)
  have hpeers := peersOk_steps hs (peersOk_withBuffers ..)
  exact ⟨by decide +kernel, by decide +kernel, by decide +kernel, by decide +kernel,
    admission_loop mockConn fiveWaiting hinv fun id peer hp => (hpeers.pending id peer hp).1⟩

end World

end QuicheH3
