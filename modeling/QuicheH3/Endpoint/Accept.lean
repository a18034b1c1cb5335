/-
# The accept loop (`listener.rs`)

`accept` starts handshakes and yields the connections whose handshake succeeded.  Each turn of its
loop arms the wake-up of `close`, reads `closing`, and polls three guarded arms in order: that
wake-up, the set of handshakes in flight, and the listener.  `closing` is read in three places, at
the top, after a handshake has succeeded, and inside `try_register`, and `close` may take the lock
between any two steps of the loop.

A step of the loop ends where it has touched something shared.  A connection is registered and its
worker started in one step, and the start counts from the registration: `try_register` decides
under the lock whether there will be a worker, which is the linearization point the source names.
A `close` on another thread can take the lock before `iqc.start` has returned; it then finds the
registration and sends it a `Close`, so it comes after the start here as well.  A handshake is
known by the number of its start; registration ids are the endpoint's and may wrap.

Contents
* §1  the loop and what happens around it
* §2  what is recorded, and the rules
* §3  one step, every run
-/
import Mathlib.Data.List.Perm.Basic
import QuicheH3.Endpoint.Fence
import QuicheH3.Lib.Trace

namespace QuicheH3

open Lib

/-! ## 1. The loop -/

/-- An item of the listener: a connection, with the command channel its driver will have, or a
packet that was rejected. -/
inductive Incoming
  | connection (chan : Nat)
  | error
  deriving DecidableEq

/-- Where `accept` is; `closing` is what the top of the loop read. -/
inductive AcceptorPc
  | top
  | armed
  | pollWake (closing : Bool)
  | pollHandshakes (closing : Bool)
  | pollListener (closing : Bool)
  | parked (closing : Bool)
  -- a handshake has succeeded
  | holding (id : Nat) (closing : Bool)
  | yielding (id : Nat)
  deriving DecidableEq

/-- The handshake that has left the set and is not yet recorded as gone. -/
def AcceptorPc.held : AcceptorPc → List Nat
  | .holding id _ | .yielding id => [id]
  | _ => []

/-- What the accept loop did. -/
inductive AcceptEvent
  | read (closing : Bool)
  | registered (id : Nat)
  | started (id : Nat)
  | completed (id : Nat) (ok : Bool)
  | yielded (id : Nat)
  | droppedConn (id : Nat)
  | failed (id : Nat)
  | listenerEnded
  | returnedNone
  | closed
  deriving DecidableEq

/-- `H3QuicheAcceptor` with the endpoint and the listener.  A handshake in flight carries its
result once it has completed; `notified` is the armed wake-up; `starts` counts the workers started,
for the record only. -/
structure Acceptor extends EndpointState where
  maxInFlight : Nat
  incoming : List Incoming
  ended : Bool
  incomingDone : Bool
  handshakes : List (Nat × Option Bool)
  starts : Nat
  notified : Bool
  pc : AcceptorPc
  trace : List AcceptEvent

namespace Acceptor

def init (maxInFlight : Nat) : Acceptor :=
  { EndpointState.new with
    maxInFlight := maxInFlight
    incoming := []
    ended := false
    incomingDone := false
    handshakes := []
    starts := 0
    notified := false
    pc := .top
    trace := [] }

def emit (s : Acceptor) (e : AcceptEvent) : Acceptor := { s with trace := e :: s.trace }

def goto (s : Acceptor) (pc : AcceptorPc) : Acceptor := { s with pc := pc }

/-- A handshake that has completed, with its result: `pick` if it is one, else the first. -/
def finished (s : Acceptor) (pick : Nat) : Option (Nat × Bool) :=
  let done := s.handshakes.filterMap fun x => x.2.map fun ok => (x.1, ok)
  match done.find? fun x => x.1 == pick with
  | some x => some x
  | none => done.head?

/-- The future of a handshake has its result. -/
def settle (id : Nat) (ok : Bool) (x : Nat × Option Bool) : Nat × Option Bool :=
  if x.1 = id then (id, some ok) else x

/-- A handshake leaves the set. -/
def leave (s : Acceptor) (id : Nat) : Acceptor :=
  { s with handshakes := s.handshakes.eraseP fun x => x.1 == id }

/-- A connection of the listener: its worker is started, and its handshake is in flight, if it
could be registered. -/
def startConn (s : Acceptor) (chan : Nat) : Acceptor :=
  match s.toEndpointState.tryRegister chan with
  | (none, _) => s
  | (some _, e) =>
    let id := s.starts
    ({ s with
      toEndpointState := e
      starts := id + 1
      handshakes := s.handshakes ++ [(id, none)] }.emit (.registered id)).emit (.started id)

/-- The third arm, when it is enabled. -/
def takeIncoming (s : Acceptor) (closing : Bool) : Acceptor :=
  match s.incoming with
  | .error :: rest => { s with incoming := rest }.goto .top
  | .connection chan :: rest => ({ s with incoming := rest }.startConn chan).goto .top
  | [] =>
    if s.ended then ({ s with incomingDone := true }.emit .listenerEnded).goto .top
    else s.goto (.parked closing)

/-- One step of the loop. -/
def advance (s : Acceptor) (pick : Nat) : Acceptor :=
  match s.pc with
  | .top => { s with notified := false }.goto .armed
  | .armed =>
    let s' := s.emit (.read s.closing)
    if (s.incomingDone || s.closing) && s.handshakes.isEmpty then
      (s'.emit .returnedNone).goto .top
    else s'.goto (.pollWake s.closing)
  | .pollWake closing =>
    if !closing && s.notified then s.goto .top else s.goto (.pollHandshakes closing)
  | .pollHandshakes closing =>
    match s.finished pick with
    | some (id, true) => (s.leave id).goto (.holding id closing)
    | some (id, false) => ((s.leave id).emit (.failed id)).goto .top
    | none => s.goto (.pollListener closing)
  | .pollListener closing =>
    if s.incomingDone || closing || s.maxInFlight ≤ s.handshakes.length then
      s.goto (.parked closing)
    else s.takeIncoming closing
  -- woken, and polled again
  | .parked closing => s.goto (.pollWake closing)
  | .holding id closing =>
    if closing then (s.emit (.droppedConn id)).goto .top
    else
      let s' := s.emit (.read s.closing)
      if s.closing then (s'.emit (.droppedConn id)).goto .top else s'.goto (.yielding id)
  | .yielding id => (s.emit (.yielded id)).goto .top

/-- Steps of the loop, its cancellation where it is parked, and what happens around it. -/
inductive Act
  | advance (pick : Nat)
  | cancel
  | offer (item : Incoming)
  | endListener
  | complete (id : Nat) (ok : Bool)
  | close (frame : CloseFrame)
  | notify
  | register (chan : Nat)
  | deregister (id : Nat)

def step (s : Acceptor) : Act → Acceptor
  | .advance pick => s.advance pick
  | .cancel =>
    match s.pc with
    | .parked _ => s.goto .top
    | _ => s
  | .offer item => if s.ended then s else { s with incoming := s.incoming ++ [item] }
  | .endListener => { s with ended := true }
  | .complete id ok =>
    if (id, none) ∈ s.handshakes then
      { s with handshakes := s.handshakes.map (settle id ok) }.emit (.completed id ok)
    else s
  | .close frame => { s with toEndpointState := s.toEndpointState.markClosing frame }.emit .closed
  | .notify => { s with notified := true }
  | .register chan => { s with toEndpointState := (s.toEndpointState.tryRegister chan).2 }
  | .deregister id => { s with toEndpointState := s.toEndpointState.deregister id }

def run (s : Acceptor) (acts : List Act) : Acceptor := acts.foldl step s

/-! ## 2. What is recorded -/

def startedId : AcceptEvent → Option Nat
  | .started id => some id
  | _ => none

/-- The handshake that leaves: as a connection yielded, one dropped, or a failure skipped. -/
def leftId : AcceptEvent → Option Nat
  | .yielded id | .droppedConn id | .failed id => some id
  | _ => none

/-- The rules of the loop, event by event. -/
def Rule (e : AcceptEvent) (pre : List AcceptEvent) : Prop :=
  match e with
  -- a worker is started with its registration, before any `close`, and once
  | .started id => .registered id ∈ pre ∧ .closed ∉ pre ∧ .started id ∉ pre
  -- `closing` was read as false after the handshake had succeeded
  | .yielded id => ∃ mid rest, pre = mid ++ .read false :: rest ∧ .completed id true ∈ rest
  -- nothing is in flight, and the listener ended or `closing` was read as true
  | .returnedNone =>
    (∀ id, .started id ∈ pre → .yielded id ∈ pre ∨ .droppedConn id ∈ pre ∨ .failed id ∈ pre) ∧
      (.listenerEnded ∈ pre ∨ .read true ∈ pre)
  | _ => True

/-- Every handshake started is in flight, in hand, or has left, once. -/
structure Inv (s : Acceptor) : Prop where
  bound : s.handshakes.length ≤ s.maxInFlight
  fresh : ∀ id, .started id ∈ s.trace → id < s.starts
  once : (s.trace.filterMap startedId).Nodup
  account : (s.handshakes.map Prod.fst ++ s.pc.held ++ s.trace.filterMap leftId).Perm
    (s.trace.filterMap startedId)
  completed : ∀ id ok, (id, some ok) ∈ s.handshakes → .completed id ok ∈ s.trace
  holding : ∀ id c, s.pc = .holding id c → .completed id true ∈ s.trace
  yielding : ∀ id, s.pc = .yielding id →
    ∃ mid rest, s.trace = mid ++ .read false :: rest ∧ .completed id true ∈ rest
  closed : .closed ∈ s.trace → s.closing = true
  done : s.incomingDone = true → .listenerEnded ∈ s.trace
  rules : Always Rule s.trace

variable {s : Acceptor}

theorem inv_init (maxInFlight : Nat) : Inv (init maxInFlight) where
  bound := Nat.zero_le _
  fresh _ h := nomatch h
  once := List.nodup_nil
  account := .refl _
  completed _ _ h := nomatch h
  holding _ _ h := nomatch h
  yielding _ h := nomatch h
  closed h := nomatch h
  done h := nomatch h
  rules := trivial

/-! ## 3. One step -/

/-- The loop goes on with nothing recorded. -/
theorem Inv.goto (h : Inv s) {pc : AcceptorPc} (hheld : pc.held = s.pc.held)
    (hpc : pc.held = []) : Inv (s.goto pc) where
  bound := h.bound
  fresh := h.fresh
  once := h.once
  account := by
    have := h.account
    rwa [← hheld] at this
  completed := h.completed
  holding id c he := by
    have he : pc = .holding id c := he
    rw [he] at hpc
    cases hpc
  yielding id he := by
    have he : pc = .yielding id := he
    rw [he] at hpc
    cases hpc
  closed := h.closed
  done := h.done
  rules := h.rules

/-- An event is recorded that starts no handshake; a handshake that it records as gone is the one
that was held. -/
theorem Inv.record (h : Inv s) {e : AcceptEvent} {pc : AcceptorPc} (hstart : startedId e = none)
    (hheld : s.pc.held = pc.held ++ (leftId e).toList) (hrule : Rule e s.trace)
    (hclosed : e ≠ .closed) (hpc : ∀ id c, pc ≠ .holding id c)
    (hyield : ∀ id, pc = .yielding id → e = .read false ∧ .completed id true ∈ s.trace) :
    Inv ((s.emit e).goto pc) where
  bound := h.bound
  fresh id hm := by
    refine h.fresh id ((List.mem_cons.mp hm).resolve_left fun he => ?_)
    rw [← he] at hstart
    cases hstart
  once := by
    change ((e :: s.trace).filterMap startedId).Nodup
    rw [List.filterMap_cons_none hstart]
    exact h.once
  account := by
    change (s.handshakes.map Prod.fst ++ pc.held ++ (e :: s.trace).filterMap leftId).Perm
      ((e :: s.trace).filterMap startedId)
    rw [List.filterMap_cons_none hstart]
    have hacc := h.account
    rw [hheld] at hacc
    cases hl : leftId e with
    | none =>
      rw [List.filterMap_cons_none hl]
      simpa [hl] using hacc
    | some id =>
      rw [List.filterMap_cons_some hl]
      simpa [hl] using hacc
  completed id ok hm := List.mem_cons_of_mem _ (h.completed id ok hm)
  holding id c he := absurd he (hpc id c)
  yielding id he := by
    obtain ⟨rfl, hc⟩ := hyield id he
    exact ⟨[], s.trace, rfl, hc⟩
  closed hm := h.closed ((List.mem_cons.mp hm).resolve_left (Ne.symm hclosed))
  done hd := List.mem_cons_of_mem _ (h.done hd)
  rules := ⟨hrule, h.rules⟩

/-- An event around the loop. -/
theorem Inv.note (h : Inv s) {e : AcceptEvent} (hstart : startedId e = none)
    (hleft : leftId e = none) (hrule : Rule e s.trace) (hclosed : e = .closed → s.closing = true) :
    Inv (s.emit e) where
  bound := h.bound
  fresh id hm := by
    refine h.fresh id ((List.mem_cons.mp hm).resolve_left fun he => ?_)
    rw [← he] at hstart
    cases hstart
  once := by
    change ((e :: s.trace).filterMap startedId).Nodup
    rw [List.filterMap_cons_none hstart]
    exact h.once
  account := by
    change (s.handshakes.map Prod.fst ++ s.pc.held ++ (e :: s.trace).filterMap leftId).Perm
      ((e :: s.trace).filterMap startedId)
    rw [List.filterMap_cons_none hstart, List.filterMap_cons_none hleft]
    exact h.account
  completed id ok hm := List.mem_cons_of_mem _ (h.completed id ok hm)
  holding id c he := List.mem_cons_of_mem _ (h.holding id c he)
  yielding id he := by
    obtain ⟨mid, rest, ht, hc⟩ := h.yielding id he
    exact ⟨e :: mid, rest, congrArg (e :: ·) ht, hc⟩
  closed hm := (List.mem_cons.mp hm).elim (fun he => hclosed he.symm) h.closed
  done hd := List.mem_cons_of_mem _ (h.done hd)
  rules := ⟨hrule, h.rules⟩

theorem mem_of_finished {pick id : Nat} {ok : Bool} (h : s.finished pick = some (id, ok)) :
    (id, some ok) ∈ s.handshakes := by
  have hdone {x : Nat × Bool}
      (hx : x ∈ s.handshakes.filterMap fun x => x.2.map fun ok => (x.1, ok)) :
      (x.1, some x.2) ∈ s.handshakes := by
    obtain ⟨⟨i, r⟩, hm, he⟩ := List.mem_filterMap.mp hx
    cases r with
    | none => cases he
    | some b =>
      cases he
      exact hm
  unfold finished at h
  dsimp only at h
  split at h
  · rename_i x hx
    cases h
    exact hdone (List.mem_of_find?_eq_some hx)
  · exact hdone (List.mem_of_head? h)

/-- Who leaves the set was in it. -/
theorem leave_perm {id : Nat} {r : Option Bool} (h : (id, r) ∈ s.handshakes) :
    ((s.leave id).handshakes.map Prod.fst ++ [id]).Perm (s.handshakes.map Prod.fst) := by
  have he : (s.leave id).handshakes.map Prod.fst = (s.handshakes.map Prod.fst).erase id := by
    rw [List.erase_eq_eraseP', List.eraseP_map]
    rfl
  have hm : id ∈ s.handshakes.map Prod.fst := List.mem_map_of_mem h
  rw [he]
  exact (List.perm_append_singleton _ _).trans (List.perm_cons_erase hm).symm

theorem Inv.pollHandshakes (h : Inv s) {closing : Bool} (hpc : s.pc = .pollHandshakes closing)
    (pick : Nat) : Inv (s.advance pick) := by
  have hacc : (s.handshakes.map Prod.fst ++ s.trace.filterMap leftId).Perm
      (s.trace.filterMap startedId) := by
    have := h.account
    rw [hpc] at this
    simpa [AcceptorPc.held] using this
  have hlen (id : Nat) : (s.leave id).handshakes.length ≤ s.maxInFlight :=
    Nat.le_trans (List.length_eraseP_le ..) h.bound
  have hcomp (id i : Nat) (ok : Bool) (hm : (i, some ok) ∈ (s.leave id).handshakes) :
      .completed i ok ∈ s.trace := h.completed i ok (List.mem_of_mem_eraseP hm)
  unfold advance
  rw [hpc]
  dsimp only
  split
  · rename_i id hf
    have hm := mem_of_finished hf
    refine ⟨hlen id, h.fresh, h.once, ?_, hcomp id, ?_, nofun, h.closed, h.done, h.rules⟩
    · exact ((leave_perm hm).append_right _).trans hacc
    · rintro _ _ ⟨⟩
      exact h.completed id true hm
  · rename_i id hf
    have hleave := ((leave_perm (mem_of_finished hf)).append_right _).trans hacc
    refine ⟨hlen id, fun i hi => ?_, h.once, ?_, fun i ok hi => ?_, nofun, nofun, fun hc => ?_,
      fun hd => List.mem_cons_of_mem _ (h.done hd), trivial, h.rules⟩
    · exact h.fresh i ((List.mem_cons.mp hi).resolve_left nofun)
    · change ((s.leave id).handshakes.map Prod.fst ++ [] ++ id :: s.trace.filterMap leftId).Perm
        (s.trace.filterMap startedId)
      simpa using hleave
    · exact List.mem_cons_of_mem _ (hcomp id i ok hi)
    · exact h.closed ((List.mem_cons.mp hc).resolve_left nofun)
  · exact h.goto (by rw [hpc]; rfl) rfl

/-- A worker is started: `closing` is down, so there was no `close`, and the id is new. -/
theorem Inv.startConn (h : Inv s) (hroom : s.handshakes.length < s.maxInFlight)
    (hheld : s.pc.held = []) (chan : Nat) : Inv ((s.startConn chan).goto .top) := by
  unfold Acceptor.startConn EndpointState.tryRegister
  cases hc : s.closing with
  | true => exact h.goto hheld.symm rfl
  | false =>
    have hnew : .started s.starts ∉ s.trace := fun hm => Nat.lt_irrefl _ (h.fresh _ hm)
    have hold {e : AcceptEvent} (hm : e ∈ s.trace) :
        e ∈ .started s.starts :: .registered s.starts :: s.trace :=
      List.mem_cons_of_mem _ (List.mem_cons_of_mem _ hm)
    have hback {e : AcceptEvent} (hs : e ≠ .started s.starts) (hr : e ≠ .registered s.starts)
        (hm : e ∈ .started s.starts :: .registered s.starts :: s.trace) : e ∈ s.trace :=
      (List.mem_cons.mp ((List.mem_cons.mp hm).resolve_left hs)).resolve_left hr
    refine ⟨?_, fun id hm => ?_, ?_, ?_, fun id ok hm => ?_, nofun, nofun,
      fun hm => ?_, fun hd => hold (h.done hd), ⟨List.mem_cons_self, fun hm => ?_, fun hm => ?_⟩,
      trivial, h.rules⟩
    · change (s.handshakes ++ [(s.starts, none)]).length ≤ s.maxInFlight
      rw [List.length_append]
      exact hroom
    · change id < s.starts + 1
      by_cases he : id = s.starts
      · omega
      · exact Nat.lt_succ_of_lt (h.fresh id (hback (by simpa using he) nofun hm))
    · change (s.starts :: s.trace.filterMap startedId).Nodup
      refine List.nodup_cons.mpr ⟨fun hm => hnew ?_, h.once⟩
      obtain ⟨e, he, hid⟩ := List.mem_filterMap.mp hm
      cases e with
      | started id =>
        cases hid
        exact he
      | _ => cases hid
    · change ((s.handshakes ++ [(s.starts, none)]).map Prod.fst ++ [] ++
        s.trace.filterMap leftId).Perm (s.starts :: s.trace.filterMap startedId)
      have hacc := h.account
      rw [hheld] at hacc
      simp only [List.map_append, List.map_cons, List.map_nil, List.append_nil, List.append_assoc,
        List.singleton_append] at hacc ⊢
      exact List.perm_middle.trans (hacc.cons _)
    · have hm : (id, some ok) ∈ s.handshakes ++ [(s.starts, none)] := hm
      rcases List.mem_append.mp hm with hm | hm
      · exact hold (h.completed id ok hm)
      · cases List.mem_singleton.mp hm
    · have := h.closed (hback nofun nofun hm)
      rw [hc] at this
      cases this
    · have := h.closed ((List.mem_cons.mp hm).resolve_left nofun)
      rw [hc] at this
      cases this
    · exact hnew ((List.mem_cons.mp hm).resolve_left nofun)

theorem Inv.takeIncoming (h : Inv s) (hroom : s.handshakes.length < s.maxInFlight)
    (hheld : s.pc.held = []) (closing : Bool) : Inv (s.takeIncoming closing) := by
  have hpop (rest : List Incoming) : Inv { s with incoming := rest } :=
    ⟨h.bound, h.fresh, h.once, h.account, h.completed, h.holding, h.yielding, h.closed, h.done,
      h.rules⟩
  unfold Acceptor.takeIncoming
  split
  · exact (hpop _).goto hheld.symm rfl
  · rename_i chan rest hin
    exact (hpop rest).startConn hroom hheld chan
  · split
    · have hr : Inv ((s.emit .listenerEnded).goto .top) :=
        h.record rfl (by rw [hheld]; rfl) trivial nofun nofun nofun
      exact ⟨hr.bound, hr.fresh, hr.once, hr.account, hr.completed, hr.holding, hr.yielding,
        hr.closed, fun _ => List.mem_cons_self, hr.rules⟩
    · exact h.goto hheld.symm rfl

/-- With nothing in flight, everything that was started has left. -/
theorem Inv.all_left (h : Inv s) (hs : s.handshakes = []) (hheld : s.pc.held = []) (id : Nat)
    (hm : .started id ∈ s.trace) :
    .yielded id ∈ s.trace ∨ .droppedConn id ∈ s.trace ∨ .failed id ∈ s.trace := by
  have hacc := h.account
  rw [hs, hheld] at hacc
  have hid : id ∈ s.trace.filterMap startedId := List.mem_filterMap.mpr ⟨_, hm, rfl⟩
  obtain ⟨e, he, hl⟩ := List.mem_filterMap.mp (hacc.mem_iff.mpr hid)
  cases e with
  | yielded i =>
    cases hl
    exact .inl he
  | droppedConn i =>
    cases hl
    exact .inr (.inl he)
  | failed i =>
    cases hl
    exact .inr (.inr he)
  | _ => cases hl

/-- The top of the loop: `closing` is read, and `Ok(None)` returned if there is nothing left to
wait for. -/
theorem Inv.readTop (h : Inv s) (hpc : s.pc = .armed) (pick : Nat) : Inv (s.advance pick) := by
  have hheld : s.pc.held = [] := by rw [hpc]; rfl
  have hread (pc : AcceptorPc) (hp : pc.held = []) : Inv ((s.emit (.read s.closing)).goto pc) := by
    refine h.record rfl (by rw [hheld, hp]; rfl) trivial nofun (fun id c he => ?_) fun id he => ?_
    · rw [he] at hp
      cases hp
    · rw [he] at hp
      cases hp
  unfold advance
  rw [hpc]
  dsimp only
  split
  · rename_i hdone
    obtain ⟨had, hempty⟩ := Bool.and_eq_true_iff.mp hdone
    have hr := hread .armed rfl
    refine hr.record (s := (s.emit (.read s.closing)).goto .armed) rfl rfl ⟨fun id hm => ?_, ?_⟩
      nofun nofun nofun
    · exact hr.all_left (List.isEmpty_iff.mp hempty) rfl id hm
    · rcases Bool.or_eq_true_iff.mp had with hd | hc
      · exact .inl (List.mem_cons_of_mem _ (h.done hd))
      · right
        rw [Acceptor.goto, emit, hc]
        exact List.mem_cons_self
  · exact hread _ rfl

theorem Inv.holdingStep (h : Inv s) {id : Nat} {closing : Bool} (hpc : s.pc = .holding id closing)
    (pick : Nat) : Inv (s.advance pick) := by
  have hcomp := h.holding id closing hpc
  unfold advance
  rw [hpc]
  dsimp only
  split
  · exact h.record rfl (by rw [hpc]; rfl) trivial nofun nofun nofun
  · cases hc : s.closing with
    | true =>
      have hn : Inv (s.emit (.read true)) := h.note rfl rfl trivial nofun
      exact hn.record rfl (by rw [emit, hpc]; rfl) trivial nofun nofun nofun
    | false =>
      refine h.record rfl (by rw [hpc]; rfl) trivial nofun nofun fun i hi => ?_
      cases hi
      exact ⟨rfl, hcomp⟩

theorem Inv.advance (h : Inv s) (pick : Nat) : Inv (s.advance pick) := by
  cases hpc : s.pc with
  | top =>
    have hn : Inv { s with notified := false } :=
      ⟨h.bound, h.fresh, h.once, h.account, h.completed, h.holding, h.yielding, h.closed, h.done,
        h.rules⟩
    unfold Acceptor.advance
    rw [hpc]
    exact hn.goto (by rw [hpc]; rfl) rfl
  | armed => exact h.readTop hpc pick
  | pollWake closing =>
    unfold Acceptor.advance
    rw [hpc]
    dsimp only
    split <;> exact h.goto (by rw [hpc]; rfl) rfl
  | pollHandshakes closing => exact h.pollHandshakes hpc pick
  | pollListener closing =>
    unfold Acceptor.advance
    rw [hpc]
    dsimp only
    split
    · exact h.goto (by rw [hpc]; rfl) rfl
    · rename_i hroom
      refine h.takeIncoming ?_ (by rw [hpc]; rfl) closing
      simp only [Bool.or_eq_true, decide_eq_true_eq, not_or, Nat.not_le] at hroom
      exact hroom.2
  | parked closing =>
    unfold Acceptor.advance
    rw [hpc]
    exact h.goto (by rw [hpc]; rfl) rfl
  | holding id closing => exact h.holdingStep hpc pick
  | yielding id =>
    unfold Acceptor.advance
    rw [hpc]
    exact h.record rfl (by rw [hpc]; rfl) (h.yielding id hpc) nofun nofun nofun

/-- The endpoint changes around the loop: `closing` is not taken back. -/
theorem Inv.endpoint (h : Inv s) {e : EndpointState} (hc : s.closing = true → e.closing = true) :
    Inv { s with toEndpointState := e } :=
  ⟨h.bound, h.fresh, h.once, h.account, h.completed, h.holding, h.yielding,
    fun hm => hc (h.closed hm), h.done, h.rules⟩

theorem fst_settle (id : Nat) (ok : Bool) (x : Nat × Option Bool) : (settle id ok x).1 = x.1 := by
  unfold settle
  split
  · exact (‹x.1 = id›).symm
  · rfl

theorem Inv.complete (h : Inv s) (id : Nat) (ok : Bool) : Inv (s.step (.complete id ok)) := by
  dsimp only [step]
  split
  · have hfst : (s.handshakes.map (settle id ok)).map Prod.fst = s.handshakes.map Prod.fst := by
      rw [List.map_map]
      exact List.map_congr_left fun x _ => fst_settle id ok x
    have hn : Inv (s.emit (.completed id ok)) := h.note rfl rfl trivial nofun
    refine ⟨?_, hn.fresh, hn.once, ?_, fun i b hm =>
      ?_, hn.holding, hn.yielding, hn.closed, hn.done,
      hn.rules⟩
    · change (s.handshakes.map (settle id ok)).length ≤ s.maxInFlight
      rw [List.length_map]
      exact h.bound
    · change ((s.handshakes.map (settle id ok)).map Prod.fst ++ s.pc.held ++ _).Perm _
      rw [hfst]
      exact hn.account
    · obtain ⟨x, hx, he⟩ := List.mem_map.mp hm
      unfold settle at he
      split at he
      · cases he
        exact List.mem_cons_self
      · exact List.mem_cons_of_mem _ (h.completed i b (he ▸ hx))
  · exact h

theorem Inv.step (h : Inv s) (act : Act) : Inv (s.step act) := by
  cases act with
  | advance pick => exact h.advance pick
  | cancel =>
    dsimp only [Acceptor.step]
    split
    · rename_i hpc
      exact h.goto (by rw [hpc]; rfl) rfl
    · exact h
  | offer item =>
    dsimp only [Acceptor.step]
    split
    · exact h
    · exact ⟨h.bound, h.fresh, h.once, h.account, h.completed, h.holding, h.yielding, h.closed,
        h.done, h.rules⟩
  | endListener | notify =>
    exact ⟨h.bound, h.fresh, h.once, h.account, h.completed, h.holding, h.yielding, h.closed,
      h.done, h.rules⟩
  | complete id ok => exact h.complete id ok
  | close frame =>
    have he : Inv { s with toEndpointState := s.toEndpointState.markClosing frame } :=
      h.endpoint fun _ => rfl
    exact he.note rfl rfl trivial fun _ => rfl
  | register chan =>
    refine h.endpoint ?_
    unfold EndpointState.tryRegister
    split <;> exact fun hc => hc
  | deregister id => exact h.endpoint fun hc => hc

theorem Inv.run (h : Inv s) (acts : List Act) : Inv (s.run acts) := by
  induction acts generalizing s with
  | nil => exact h
  | cons act acts ih => exact ih (h.step act)

theorem maxInFlight_takeIncoming (s : Acceptor) (closing : Bool) :
    (s.takeIncoming closing).maxInFlight = s.maxInFlight := by
  unfold takeIncoming
  split
  · rfl
  · unfold startConn
    split <;> rfl
  · split <;> rfl

theorem maxInFlight_advance (s : Acceptor) (pick : Nat) :
    (s.advance pick).maxInFlight = s.maxInFlight := by
  unfold advance
  split
  · rfl
  · dsimp only
    split <;> rfl
  · split <;> rfl
  · split <;> rfl
  · split
    · rfl
    · exact maxInFlight_takeIncoming s _
  · rfl
  · split
    · rfl
    · dsimp only
      split <;> rfl
  · rfl

theorem maxInFlight_run (s : Acceptor) (acts : List Act) :
    (s.run acts).maxInFlight = s.maxInFlight := by
  induction acts generalizing s with
  | nil => rfl
  | cons act acts ih =>
    refine (ih (s.step act)).trans ?_
    cases act with
    | advance pick => exact maxInFlight_advance s pick
    | cancel | offer | complete =>
      dsimp only [step]
      split <;> rfl
    | _ => rfl

/-- **The accept loop.**  For any items of the listener, completions in any order, cancellations,
and `close` between any two steps of the loop:

* no more handshakes are in flight than `max_in_flight_handshakes`;
* a worker is started with a registration that succeeded, before any `close`;
* every handshake that was started is in flight, held, or has left, and in one of these places
  once: it leaves as a connection yielded or dropped, or as a failure skipped;
* a connection is yielded only if `closing` was read as false after its handshake had succeeded;
* `Ok(None)` is returned only with nothing in flight, and after the listener ended or `closing` was
  read as true. -/
theorem accept_loop_sound (maxInFlight : Nat) (acts : List Act) :
    let s := (init maxInFlight).run acts
    s.handshakes.length ≤ maxInFlight ∧
    (s.trace.filterMap startedId).Nodup ∧
    (s.handshakes.map Prod.fst ++ s.pc.held ++ s.trace.filterMap leftId).Perm
      (s.trace.filterMap startedId) ∧
    Always Rule s.trace := by
  intro s
  have h : Inv s := (inv_init maxInFlight).run acts
  have hmax : s.maxInFlight = maxInFlight := maxInFlight_run _ acts
  exact ⟨hmax ▸ h.bound, h.once, h.account, h.rules⟩

end Acceptor

end QuicheH3
