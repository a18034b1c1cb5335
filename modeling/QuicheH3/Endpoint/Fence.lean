/-
# The endpoint: admission, close and idleness (`endpoint.rs`)

All connections of a listener share one `EndpointState` under a lock.  `try_register` enters a
worker's command channel, by a weak sender, and hands out a `ConnRegistration` whose drop removes
the entry again.  `close` raises `closing`, keeps the FIRST close frame, and takes a snapshot of
the channels that still have a strong sender; the `Close` commands are sent after the lock is
released.  `wait_idle` waits until nothing is registered.

A critical section is one step here, and so is each action outside the lock: the notification of
a guard that reached zero, the wake-up of the acceptor, each single send, each stage of a waiter.
Any number of tasks take their steps in any order.  `strong ch` says that channel `ch` has a strong
sender somewhere; it ends at any time, and for good.

`next_id` is a `u64` that is never reset, and `+= 1` wraps: the 2^64-th registration gets the id of
the first one and takes over its entry.  What rests on ids being different, the account of the
entries and the completeness of the snapshot, is stated for fewer than 2^64 registrations; what a
`close` decides is stated for any number.  `live` counts guards that exist at one time and is a
`Nat`.

Contents
* §1  the shared state and its critical sections
* §2  tasks, guards and the steps
* §3  the account of registrations (`Counted`)
* §4  one frame, and a complete snapshot (`Fenced`)
* §5  every step and every run: the fence
-/
import Mathlib.Data.List.AList
import QuicheH3.Error

namespace QuicheH3

/-! ## 1. The shared state -/

/-- `(code, reason)`. -/
abbrev CloseFrame := Nat × Bytes

/-- `EndpointState`: the registered connections and the frame they are closed with. -/
structure EndpointState where
  conns : AList fun _ : Nat => Nat
  live : Nat
  closing : Bool
  closeFrame : Option CloseFrame
  nextId : Nat

namespace EndpointState

def new : EndpointState := ⟨∅, 0, false, none, 0⟩

/-- `next_id += 1` on a `u64`. -/
def bump (id : Nat) : Nat := (id + 1) % 2 ^ 64

theorem bump_of_lt {id : Nat} (h : id + 1 < 2 ^ 64) : bump id = id + 1 := Nat.mod_eq_of_lt h

/-- `try_register` of a channel: the id of the guard, if `close` has not been first. -/
def tryRegister (s : EndpointState) (chan : Nat) : Option Nat × EndpointState :=
  if s.closing then (none, s)
  else
    (some s.nextId,
      { s with
        nextId := bump s.nextId
        conns := s.conns.insert s.nextId chan
        live := s.live + 1 })

/-- The critical section of `ConnRegistration::drop`; the subtraction stops at zero. -/
def deregister (s : EndpointState) (id : Nat) : EndpointState :=
  { s with conns := s.conns.erase id, live := s.live - 1 }

/-- The critical section of `close`. -/
def markClosing (s : EndpointState) (frame : CloseFrame) : EndpointState :=
  { s with closing := true, closeFrame := some (s.closeFrame.getD frame) }

/-- The recipients of a `close`: the registered channels whose weak sender can be upgraded. -/
def recipients (s : EndpointState) (strong : Nat → Bool) : List Nat :=
  (s.conns.entries.map fun x => x.2).filter strong

end EndpointState

/-! ## 2. Tasks and guards -/

/-- One call of `close`: under way with the frame and the recipients still to be sent to. -/
inductive CloserPc
  | idle
  | waking (frame : CloseFrame) (rest : List Nat)
  | sending (frame : CloseFrame) (rest : List Nat)
  | returned
  deriving DecidableEq

/-- What is still to be sent to. -/
def CloserPc.rest : CloserPc → List Nat
  | .waking _ rest | .sending _ rest => rest
  | _ => []

/-- One call of `wait_idle`: the notification is armed, `live` has been read and was not zero;
`notified` says that `notify_waiters` came since it was armed. -/
inductive WaiterPc
  | idle
  | armed (notified : Bool)
  | suspended (notified : Bool)
  | returned
  deriving DecidableEq

def WaiterPc.notify : WaiterPc → WaiterPc
  | .armed _ => .armed true
  | .suspended _ => .suspended true
  | pc => pc

/-- The endpoint with its guards, its tasks and a record: every registration that succeeded, the
frames of the `close` calls in the order of the lock, every `Close` sent, and for the first `close`
the call and the workers it found registered with a strong sender. -/
structure Endpoint extends EndpointState where
  guards : List Nat
  strong : Nat → Bool
  notifying : Nat
  closers : Nat → CloserPc
  waiters : Nat → WaiterPc
  registrations : List (Nat × Nat)
  closeCalls : List CloseFrame
  sent : List (Nat × CloseFrame)
  fence : Option (Nat × List (Nat × Nat))

namespace Endpoint

def init : Endpoint :=
  { EndpointState.new with
    guards := []
    strong := fun _ => true
    notifying := 0
    closers := fun _ => .idle
    waiters := fun _ => .idle
    registrations := []
    closeCalls := []
    sent := []
    fence := none }

/-- One step of one of the tasks. -/
inductive Act
  | register (chan : Nat)
  | dropGuard (id : Nat)
  | notifyIdle
  | closeChannel (chan : Nat)
  | close (t : Nat) (frame : CloseFrame)
  | wakeAccept (t : Nat)
  | send (t : Nat)
  | arm (t : Nat)
  | check (t : Nat)
  | resume (t : Nat)

/-- The workers whose registration is held and whose channel has a strong sender. -/
def openWorkers (s : Endpoint) : List (Nat × Nat) :=
  s.registrations.filter fun x => x.1 ∈ s.guards && s.strong x.2

def setCloser (s : Endpoint) (t : Nat) (pc : CloserPc) : Endpoint :=
  { s with closers := Function.update s.closers t pc }

def setWaiter (s : Endpoint) (t : Nat) (pc : WaiterPc) : Endpoint :=
  { s with waiters := Function.update s.waiters t pc }

/-- `try_register` by a task that holds the sender of `chan`. -/
def register (s : Endpoint) (chan : Nat) : Endpoint :=
  match s.toEndpointState.tryRegister chan with
  | (some id, e) =>
    { s with
      toEndpointState := e
      guards := id :: s.guards
      registrations := (id, chan) :: s.registrations }
  | (none, _) => s

/-- The critical section of a guard's drop; one that reaches zero has to notify. -/
def dropGuard (s : Endpoint) (id : Nat) : Endpoint :=
  let e := s.toEndpointState.deregister id
  { s with
    toEndpointState := e
    guards := s.guards.erase id
    notifying := if e.live = 0 then s.notifying + 1 else s.notifying }

/-- The critical section of `close`. -/
def close (s : Endpoint) (t : Nat) (frame : CloseFrame) : Endpoint :=
  { s with
    toEndpointState := s.toEndpointState.markClosing frame
    closers := Function.update s.closers t
      (.waking (s.closeFrame.getD frame) (s.toEndpointState.recipients s.strong))
    closeCalls := frame :: s.closeCalls
    fence := some (s.fence.getD (t, s.openWorkers)) }

/-- One step; a step that is not enabled does nothing. -/
def step (s : Endpoint) : Act → Endpoint
  | .register chan => if s.strong chan then s.register chan else s
  | .dropGuard id => if id ∈ s.guards then s.dropGuard id else s
  | .notifyIdle =>
    if s.notifying = 0 then s
    else { s with notifying := s.notifying - 1, waiters := fun t => (s.waiters t).notify }
  | .closeChannel chan => { s with strong := Function.update s.strong chan false }
  | .close t frame =>
    match s.closers t with
    | .idle => s.close t frame
    | _ => s
  | .wakeAccept t =>
    match s.closers t with
    | .waking frame rest => s.setCloser t (.sending frame rest)
    | _ => s
  | .send t =>
    match s.closers t with
    | .sending frame (chan :: rest) =>
      { s.setCloser t (.sending frame rest) with sent := (chan, frame) :: s.sent }
    | .sending _ [] => s.setCloser t .returned
    | _ => s
  | .arm t =>
    match s.waiters t with
    | .idle => s.setWaiter t (.armed false)
    | _ => s
  | .check t =>
    match s.waiters t with
    | .armed notified => s.setWaiter t (if s.live = 0 then .returned else .suspended notified)
    | _ => s
  | .resume t =>
    match s.waiters t with
    | .suspended true => s.setWaiter t .idle
    | _ => s

def run (s : Endpoint) (acts : List Act) : Endpoint := acts.foldl step s

/-! ## 3. The account of registrations -/

/-- The ids have not wrapped. -/
def Few (s : Endpoint) : Prop := s.registrations.length < 2 ^ 64

/-- Entries, guards and the count are the same thing, and ids are handed out in order. -/
structure Counted (s : Endpoint) : Prop where
  keys : s.conns.keys.Perm s.guards
  live : s.live = s.guards.length
  entry : ∀ id chan, (id, chan) ∈ s.registrations → id ∈ s.guards → s.conns.lookup id = some chan
  next : s.nextId = s.registrations.length
  fresh : ∀ x ∈ s.registrations, x.1 < s.nextId
  held : ∀ id ∈ s.guards, id < s.nextId
  once : (s.registrations.map Prod.fst).Nodup

variable {s : Endpoint}

theorem counted_init : Counted init :=
  ⟨.refl _, rfl, nofun, rfl, nofun, nofun, List.nodup_nil⟩

theorem Counted.same {s' : Endpoint} (h : Counted s) (hc : s'.conns = s.conns)
    (hl : s'.live = s.live) (hn : s'.nextId = s.nextId) (hg : s'.guards = s.guards)
    (hr : s'.registrations = s.registrations) : Counted s' := by
  constructor
  all_goals simp only [hc, hl, hn, hg, hr]
  · exact h.keys
  · exact h.live
  · exact h.entry
  · exact h.next
  · exact h.fresh
  · exact h.held
  · exact h.once

theorem Counted.nodup (h : Counted s) : s.guards.Nodup := h.keys.nodup_iff.mp s.conns.keys_nodup

theorem Counted.register (h : Counted s) {chan : Nat} (hfew : Few (s.register chan)) :
    Counted (s.register chan) := by
  unfold Endpoint.register EndpointState.tryRegister at hfew ⊢
  cases hc : s.closing with
  | true => exact h
  | false =>
    rw [hc] at hfew
    have hbump : EndpointState.bump s.nextId = s.nextId + 1 :=
      EndpointState.bump_of_lt (h.next ▸ hfew)
    have hnew : s.nextId ∉ s.guards := fun hm => Nat.lt_irrefl _ (h.held _ hm)
    have hkey : s.nextId ∉ s.conns.keys := fun hm => hnew (h.keys.mem_iff.mp hm)
    refine ⟨?_, congrArg (· + 1) h.live, fun id ch hm hg => ?_,
      hbump.trans (congrArg (· + 1) h.next), fun x hm => ?_, fun id hm => ?_, ?_⟩
    · change (s.conns.insert s.nextId chan).keys.Perm (s.nextId :: s.guards)
      rw [AList.keys_insert, List.erase_of_not_mem hkey]
      exact h.keys.cons _
    · change (s.conns.insert s.nextId chan).lookup id = some ch
      rcases List.mem_cons.mp hm with he | hm
      · cases he
        exact AList.lookup_insert _
      · have hne : id ≠ s.nextId := Nat.ne_of_lt (h.fresh _ hm)
        rw [AList.lookup_insert_ne hne]
        exact h.entry id ch hm ((List.mem_cons.mp hg).resolve_left hne)
    · refine lt_of_lt_of_eq ?_ hbump.symm
      rcases List.mem_cons.mp hm with rfl | hm
      · exact Nat.lt_succ_self _
      · exact Nat.lt_succ_of_lt (h.fresh x hm)
    · refine lt_of_lt_of_eq ?_ hbump.symm
      rcases List.mem_cons.mp hm with rfl | hm
      · exact Nat.lt_succ_self _
      · exact Nat.lt_succ_of_lt (h.held id hm)
    · refine List.nodup_cons.mpr ⟨fun hm => ?_, h.once⟩
      obtain ⟨x, hx, he⟩ := List.mem_map.mp hm
      exact Nat.lt_irrefl _ (he ▸ h.fresh x hx)

theorem Counted.dropGuard (h : Counted s) {id : Nat} (hid : id ∈ s.guards) :
    Counted (s.dropGuard id) := by
  refine ⟨?_, ?_, fun i ch hm hg => ?_, h.next, h.fresh,
    fun i hm => h.held i (List.mem_of_mem_erase hm), h.once⟩
  · change (s.conns.erase id).keys.Perm (s.guards.erase id)
    rw [AList.keys_erase]
    exact h.keys.erase id
  · change s.live - 1 = (s.guards.erase id).length
    rw [List.length_erase_of_mem hid, h.live]
  · have hg : i ∈ s.guards.erase id := hg
    have hne : i ≠ id := fun he => h.nodup.not_mem_erase (he ▸ hg)
    change (s.conns.erase id).lookup i = some ch
    rw [AList.lookup_erase_ne hne]
    exact h.entry i ch hm (List.mem_of_mem_erase hg)

/-! ## 4. One frame, and a complete snapshot -/

/-- There is one close frame, that of the first `close`, and every closer has it. -/
structure Fenced (s : Endpoint) : Prop where
  frame : s.closeFrame = s.closeCalls.getLast?
  closing : s.closing = s.closeFrame.isSome
  closers : ∀ t frame rest, s.closers t = .waking frame rest ∨ s.closers t = .sending frame rest →
    s.closeFrame = some frame
  started : ∀ t, s.closers t ≠ .idle → s.closing = true
  sent : ∀ chan frame, (chan, frame) ∈ s.sent → s.closeFrame = some frame
  fenced : s.closing = true → s.fence.isSome
  fence : ∀ t l, s.fence = some (t, l) → s.closers t ≠ .idle ∧
    (Few s → ∀ x ∈ l, x.2 ∈ (s.closers t).rest ∨ x.2 ∈ s.sent.map Prod.fst)

theorem fenced_init : Fenced init where
  frame := rfl
  closing := rfl
  closers _ _ _ h := by rcases h with h | h <;> cases h
  started _ h := absurd rfl h
  sent _ _ h := nomatch h
  fenced h := nomatch h
  fence _ _ h := nomatch h

/-- Registrations, guards, channels and waiters do not touch what a `close` is about. -/
theorem Fenced.same {s' : Endpoint} (h : Fenced s) (hf : s'.closeFrame = s.closeFrame)
    (hc : s'.closing = s.closing) (hcl : s'.closers = s.closers)
    (hcalls : s'.closeCalls = s.closeCalls) (hs : s'.sent = s.sent) (hfe : s'.fence = s.fence)
    (hfew : Few s' → Few s) : Fenced s' := by
  constructor
  all_goals simp only [hf, hc, hcl, hcalls, hs, hfe]
  · exact h.frame
  · exact h.closing
  · exact h.closers
  · exact h.started
  · exact h.sent
  · exact h.fenced
  · exact fun t l hl => (h.fence t l hl).imp_right fun hall hx => hall (hfew hx)

/-- A worker that is registered with a strong sender is a recipient. -/
theorem Counted.mem_recipients (h : Counted s) {x : Nat × Nat} (hx : x ∈ s.openWorkers) :
    x.2 ∈ s.toEndpointState.recipients s.strong := by
  obtain ⟨hreg, hcond⟩ := List.mem_filter.mp hx
  obtain ⟨hg, hs⟩ := Bool.and_eq_true_iff.mp hcond
  have hl := h.entry x.1 x.2 hreg (of_decide_eq_true hg)
  refine List.mem_filter.mpr ⟨List.mem_map.mpr ⟨⟨x.1, x.2⟩, ?_, rfl⟩, hs⟩
  exact AList.mem_lookup_iff.mp hl

theorem Fenced.close (h : Fenced s) (hcount : Few s → Counted s) {t : Nat}
    (ht : s.closers t = .idle)
    (frame : CloseFrame) : Fenced (s.close t frame) := by
  -- a frame that was there stays
  have hkeep {f : CloseFrame} (hf : s.closeFrame = some f) :
      some (s.closeFrame.getD frame) = some f := by rw [hf]; rfl
  refine ⟨?_, rfl, fun t' f rest hpc => ?_, fun _ _ => rfl, fun chan f hm =>
    hkeep (h.sent chan f hm),
    fun _ => rfl, fun t' l hl => ?_⟩
  · change some (s.closeFrame.getD frame) = (frame :: s.closeCalls).getLast?
    rw [h.frame, List.getLast?_cons]
  · by_cases he : t' = t
    · subst he
      simp only [Endpoint.close, Function.update_self] at hpc
      rcases hpc with hpc | hpc
      · exact congrArg some (CloserPc.waking.inj hpc).1
      · cases hpc
    · simp only [Endpoint.close, Function.update_of_ne he] at hpc
      exact hkeep (h.closers t' f rest hpc)
  · have hl : some (s.fence.getD (t, s.openWorkers)) = some (t', l) := hl
    cases hfe : s.fence with
    | none =>
      -- the first `close`
      rw [hfe] at hl
      cases hl
      refine ⟨?_, fun hfew x hx => .inl ?_⟩
      · simp [Endpoint.close]
      · simpa [Endpoint.close, CloserPc.rest] using (hcount hfew).mem_recipients hx
    | some p =>
      rw [hfe] at hl
      cases hl
      obtain ⟨hne, hall⟩ := h.fence t' l hfe
      have he : t' ≠ t := fun he => hne (he ▸ ht)
      simp only [Endpoint.close, Function.update_of_ne he]
      exact ⟨hne, hall⟩

/-- A `close` under way goes on: what it gives up sending to has been sent to. -/
theorem Fenced.goOn (h : Fenced s) {t : Nat} {pc : CloserPc} {sent : List (Nat × CloseFrame)}
    (ht : s.closers t ≠ .idle) (hne : pc ≠ .idle)
    (hframe : ∀ f rest, pc = .waking f rest ∨ pc = .sending f rest → s.closeFrame = some f)
    (hsent : ∀ chan f, (chan, f) ∈ sent → s.closeFrame = some f) (hsub : s.sent ⊆ sent)
    (hrest : ∀ chan ∈ (s.closers t).rest, chan ∈ pc.rest ∨ chan ∈ sent.map Prod.fst) :
    Fenced { s.setCloser t pc with sent := sent } := by
  refine ⟨h.frame, h.closing, fun t' f rest hpc => ?_, fun _ _ => h.started t ht, hsent, h.fenced,
    fun t' l hl => ?_⟩
  · by_cases he : t' = t
    · rw [he] at hpc
      simp only [setCloser, Function.update_self] at hpc
      exact hframe f rest hpc
    · simp only [setCloser, Function.update_of_ne he] at hpc
      exact h.closers t' f rest hpc
  · obtain ⟨hne', hall⟩ := h.fence t' l hl
    have hold (x : Nat × Nat) (hx : x.2 ∈ s.sent.map Prod.fst) : x.2 ∈ sent.map Prod.fst :=
      List.map_subset _ hsub hx
    by_cases he : t' = t
    · rw [he] at hall ⊢
      simp only [setCloser, Function.update_self]
      exact ⟨hne, fun hf x hx => (hall hf x hx).elim (hrest x.2) fun hs => .inr (hold x hs)⟩
    · simp only [setCloser, Function.update_of_ne he]
      exact ⟨hne', fun hf x hx => (hall hf x hx).imp_right (hold x)⟩

theorem Fenced.wakeAccept (h : Fenced s) (t : Nat) : Fenced (s.step (.wakeAccept t)) := by
  dsimp only [step]
  cases ht : s.closers t with
  | waking frame rest =>
    refine h.goOn (by rw [ht]; nofun) nofun ?_ h.sent (List.Subset.refl _) fun chan hm => .inl ?_
    · rintro f rest' (hpc | hpc)
      · cases hpc
      · cases hpc
        exact h.closers t frame rest (.inl ht)
    · rwa [ht] at hm
  | idle | sending | returned => exact h

theorem Fenced.send (h : Fenced s) (t : Nat) : Fenced (s.step (.send t)) := by
  dsimp only [step]
  cases ht : s.closers t with
  | sending frame rest =>
    have hframe := h.closers t frame rest (.inr ht)
    cases rest with
    | nil =>
      refine h.goOn (by rw [ht]; nofun) nofun ?_ h.sent (List.Subset.refl _) fun chan hm => ?_
      · rintro f rest' (hpc | hpc) <;> cases hpc
      · rw [ht] at hm
        cases hm
    | cons chan rest =>
      refine h.goOn (by rw [ht]; nofun) nofun ?_ (fun ch f hm => ?_) (List.subset_cons_self _ _)
        fun ch hm => ?_
      · rintro f rest' (hpc | hpc)
        · cases hpc
        · cases hpc
          exact hframe
      · rcases List.mem_cons.mp hm with heq | hm
        · cases heq
          exact hframe
        · exact h.sent ch f hm
      · rw [ht] at hm
        rcases List.mem_cons.mp hm with rfl | hm
        · exact .inr List.mem_cons_self
        · exact .inl hm
  | idle | waking | returned => exact h

/-! ## 5. Every step and every run -/

/-- The count is exact while ids do not wrap; the fence holds always. -/
structure Inv (s : Endpoint) : Prop where
  counted : Few s → Counted s
  fenced : Fenced s

/-- Channels, waiters and notifications are not part of it. -/
theorem Inv.other {s' : Endpoint} (h : Inv s) (he : s'.toEndpointState = s.toEndpointState)
    (hg : s'.guards = s.guards) (hr : s'.registrations = s.registrations)
    (hcl : s'.closers = s.closers) (hcalls : s'.closeCalls = s.closeCalls)
    (hs : s'.sent = s.sent) (hfe : s'.fence = s.fence) : Inv s' := by
  have hfew : Few s' → Few s := fun hx => by rwa [Few, hr] at hx
  exact ⟨fun hx => (h.counted (hfew hx)).same (by rw [he]) (by rw [he]) (by rw [he]) hg hr,
    h.fenced.same (by rw [he]) (by rw [he]) hcl hcalls hs hfe hfew⟩

theorem Inv.setWaiter (h : Inv s) (t : Nat) (pc : WaiterPc) : Inv (s.setWaiter t pc) :=
  h.other rfl rfl rfl rfl rfl rfl rfl

theorem Inv.step (h : Inv s) (act : Act) : Inv (s.step act) := by
  have ⟨hc, hf⟩ := h
  cases act with
  | register chan =>
    dsimp only [Endpoint.step]
    split
    · have hfew : Few (s.register chan) → Few s := by
        unfold Endpoint.register EndpointState.tryRegister
        cases s.closing with
        | true => exact fun hx => hx
        | false => exact fun hx => Nat.lt_of_succ_lt hx
      refine ⟨fun hx => (hc (hfew hx)).register hx, ?_⟩
      unfold Endpoint.register EndpointState.tryRegister at hfew ⊢
      cases hcl : s.closing with
      | true => exact hf
      | false => exact hf.same rfl hcl.symm rfl rfl rfl rfl fun hx => Nat.lt_of_succ_lt hx
    · exact h
  | dropGuard id =>
    dsimp only [Endpoint.step]
    split
    · exact ⟨fun hx => (hc hx).dropGuard ‹_›, hf.same rfl rfl rfl rfl rfl rfl fun hx => hx⟩
    · exact h
  | notifyIdle =>
    dsimp only [Endpoint.step]
    split
    · exact h
    · exact h.other rfl rfl rfl rfl rfl rfl rfl
  | closeChannel chan => exact h.other rfl rfl rfl rfl rfl rfl rfl
  | close t frame =>
    dsimp only [Endpoint.step]
    split
    · exact ⟨fun hx => (hc hx).same rfl rfl rfl rfl rfl, hf.close hc ‹_› frame⟩
    · exact h
  | wakeAccept t =>
    refine ⟨?_, hf.wakeAccept t⟩
    dsimp only [Endpoint.step]
    split
    · exact fun hx => (hc hx).same rfl rfl rfl rfl rfl
    · exact hc
  | send t =>
    refine ⟨?_, hf.send t⟩
    dsimp only [Endpoint.step]
    split
    · exact fun hx => (hc hx).same rfl rfl rfl rfl rfl
    · exact fun hx => (hc hx).same rfl rfl rfl rfl rfl
    · exact hc
  | arm t | check t | resume t =>
    dsimp only [Endpoint.step]
    split
    · exact h.setWaiter t _
    · exact h

theorem Inv.run (h : Inv s) (acts : List Act) : Inv (s.run acts) := by
  induction acts generalizing s with
  | nil => exact h
  | cons act acts ih => exact ih (h.step act)

theorem inv_init : Inv init := ⟨fun _ => counted_init, fenced_init⟩

/-- Once `closing` is up, nothing is registered any more, and the first snapshot is kept. -/
structure Sealed (s s' : Endpoint) : Prop where
  closing : s'.closing = true
  nextId : s'.nextId = s.nextId
  registrations : s'.registrations = s.registrations
  fence : s.fence.isSome → s'.fence = s.fence

theorem sealed_step (h : s.closing = true) (act : Act) : Sealed s (s.step act) := by
  have hrefl : Sealed s s := ⟨h, rfl, rfl, fun _ => rfl⟩
  cases act with
  | register chan =>
    have hreg : s.register chan = s := by
      unfold register EndpointState.tryRegister
      rw [if_pos h]
    dsimp only [step]
    rw [hreg, ite_self]
    exact hrefl
  | dropGuard id =>
    dsimp only [step]
    split
    · exact ⟨h, rfl, rfl, fun _ => rfl⟩
    · exact hrefl
  | close t frame =>
    dsimp only [step]
    split
    · refine ⟨rfl, rfl, rfl, fun hf => ?_⟩
      obtain ⟨p, hp⟩ := Option.isSome_iff_exists.mp hf
      rw [Endpoint.close, hp]
      rfl
    · exact hrefl
  | closeChannel chan => exact ⟨h, rfl, rfl, fun _ => rfl⟩
  | _ =>
    dsimp only [step]
    split <;> exact ⟨h, rfl, rfl, fun _ => rfl⟩

theorem sealed_run (h : s.closing = true) (acts : List Act) : Sealed s (s.run acts) := by
  induction acts generalizing s with
  | nil => exact ⟨h, rfl, rfl, fun _ => rfl⟩
  | cons act acts ih =>
    have h1 := sealed_step h act
    have h2 := ih h1.closing
    refine ⟨h2.closing, h2.nextId.trans h1.nextId, h2.registrations.trans h1.registrations,
      fun hf => ?_⟩
    rw [← h1.fence hf]
    exact h2.fence (by rw [h1.fence hf]; exact hf)

/-- **The admission fence.**  After any steps of any number of tasks:

* as long as fewer than 2^64 registrations have succeeded, `live` is the number of entries and the
  number of undropped guards, which are the same ids, and no id was handed out twice;
* every `Close` carries the code and reason of the first `close` that took the lock;
* from that `close` on no registration succeeds and `next_id` stands still, and, with fewer than
  2^64 registrations, every worker that was registered then, with a strong sender to its channel,
  has been sent a `Close` or is among those the call has still to send to, so it has been sent one
  when the call returns. -/
theorem admission_fence (acts : List Act) :
    let s := init.run acts
    (s.registrations.length < 2 ^ 64 →
      (s.live = s.conns.keys.length ∧ s.live = s.guards.length ∧ s.guards.Nodup ∧
        ∀ id, id ∈ s.conns ↔ id ∈ s.guards) ∧
      (s.registrations.map Prod.fst).Nodup) ∧
    (∀ x ∈ s.sent, s.closeCalls.getLast? = some x.2) ∧
    ∀ before t frame after, acts = before ++ .close t frame :: after →
      (init.run before).closing = false →
      s.registrations = (init.run before).registrations ∧ s.nextId = (init.run before).nextId ∧
        (s.registrations.length < 2 ^ 64 → ∀ x ∈ (init.run before).openWorkers,
          (x.2 ∈ (s.closers t).rest ∨ x.2 ∈ s.sent.map Prod.fst) ∧
          (s.closers t = .returned → x.2 ∈ s.sent.map Prod.fst)) := by
  intro s
  have h : Inv s := inv_init.run acts
  refine ⟨fun hfew => ?_, fun x hx => h.fenced.frame ▸ h.fenced.sent x.1 x.2 hx, ?_⟩
  · have hc := h.counted hfew
    exact ⟨⟨hc.live.trans hc.keys.length_eq.symm, hc.live, hc.nodup, fun id => hc.keys.mem_iff⟩,
      hc.once⟩
  intro before t frame after hacts hopen
  have h0 := (inv_init.run before).fenced
  generalize hs0 : init.run before = s₀ at hopen h0
  -- nobody has called `close` yet
  have hidle : s₀.closers t = .idle := by
    by_contra hne
    rw [h0.started t hne] at hopen
    cases hopen
  have hnone : s₀.fence = none := by
    cases hfe : s₀.fence with
    | none => rfl
    | some p =>
      have := h0.started p.1 (h0.fence p.1 p.2 hfe).1
      rw [hopen] at this
      cases this
  have hs : s = (s₀.close t frame).run after := by
    change init.run acts = _
    rw [hacts, run, List.foldl_append, List.foldl_cons]
    have hstep : s₀.step (.close t frame) = s₀.close t frame := by
      dsimp only [step]
      rw [hidle]
    rw [← hstep, ← hs0]
    rfl
  have hseal : Sealed (s₀.close t frame) s := hs ▸ sealed_run rfl after
  refine ⟨hseal.registrations, hseal.nextId, fun hfew x hx => ?_⟩
  have hfence : s.fence = some (t, s₀.openWorkers) := by
    rw [hseal.fence rfl, Endpoint.close, hnone]
    rfl
  have hx := (h.fenced.fence t _ hfence).2 hfew x hx
  refine ⟨hx, fun hret => hx.resolve_left fun hr => ?_⟩
  rw [hret] at hr
  cases hr

end Endpoint

end QuicheH3
