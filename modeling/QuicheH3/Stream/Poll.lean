/-
# Data before the terminal (`stream.rs`)

`poll_data`, `poll_accept_recv` and `poll_accept_bidi` read two sources: a channel of items, and
the terminal cell the worker fills after the last item.  All three are the same few accesses, in
this order: poll the channel; if it is pending, poll the cell; if the cell holds a terminal, poll
the channel ONCE more, and give up on it if that poll yields nothing.

The worker may send, publish and drop its sender between any two accesses, and a channel may
answer a poll with a spurious `Pending`.  The recheck is enough for every interleaving as long as
its answer is true; two spurious answers around a published terminal lose what is queued.  So the
end is reported over queued items exactly when a recheck is spurious while items are queued, and
that is the theorem.
-/
import QuicheH3.Lib.Channel
import QuicheH3.Lib.Trace
import QuicheH3.Buffer
import QuicheH3.Recv.Integrity

namespace QuicheH3

open Lib

variable {α τ : Type}

/-! ## 1. The accesses of one poll -/

/-- Where a poll is.  The terminal cell is read twice, its waker registered in between. -/
inductive PollStage (τ : Type)
  | start
  -- the channel reported its end
  | ended
  | endedAgain
  -- the channel was pending
  | waiting
  | waitingAgain
  -- the cell holds `e`
  | recheck (e : τ)

/-- What a poll returns. -/
inductive PollOut (α τ : Type)
  | item (a : α)
  | terminal (e : τ)
  -- the channel has ended and the cell is empty
  | bug
  | pending

/-- What happened: an item was sent; a poll returned, and this is what it left in the queue. -/
inductive PollEvent (α τ : Type)
  | sent (a : α)
  | returned (o : PollOut α τ) (left : List α)

/-- A channel, the cell beside it, and the poller. -/
structure PollRun (α τ : Type) where
  chan : Channel α
  cell : Option τ
  stage : PollStage τ
  log : List (PollEvent α τ)

/-- One access.  `poll` is the next access of the poller; the channel decides whether it is
spurious. -/
inductive PollAct (α τ : Type)
  | send (a : α)
  | publish (e : τ)
  | close
  | poll (spurious : Bool)
  deriving DecidableEq

namespace PollRun

def init : PollRun α τ := ⟨⟨[], false⟩, none, .start, []⟩

/-- The poll returns. -/
def ret (s : PollRun α τ) (o : PollOut α τ) : PollRun α τ :=
  { s with stage := .start, log := .returned o s.chan.queue :: s.log }

/-- The next access of a poll. -/
def access (s : PollRun α τ) (spurious : Bool) : PollRun α τ :=
  match s.stage with
  | .start =>
    match s.chan.poll spurious with
    | (.item a, chan) => { s with chan := chan }.ret (.item a)
    | (.closed, _) => { s with stage := .ended }
    | (.pending, _) => { s with stage := .waiting }
  | .ended =>
    match s.cell with
    | some e => s.ret (.terminal e)
    | none => { s with stage := .endedAgain }
  | .endedAgain =>
    match s.cell with
    | some e => s.ret (.terminal e)
    | none => s.ret .bug
  | .waiting =>
    match s.cell with
    | some e => { s with stage := .recheck e }
    | none => { s with stage := .waitingAgain }
  | .waitingAgain =>
    match s.cell with
    | some e => { s with stage := .recheck e }
    | none => s.ret .pending
  | .recheck e =>
    match s.chan.poll spurious with
    | (.item a, chan) => { s with chan := chan }.ret (.item a)
    | (_, _) => s.ret (.terminal e)

/-- The worker sends nothing after it has published. -/
def step (s : PollRun α τ) : PollAct α τ → PollRun α τ
  | .send a =>
    if s.chan.closed || s.cell.isSome then s
    else { s with chan := s.chan.send a, log := .sent a :: s.log }
  | .publish e => { s with cell := cellSet s.cell e }
  | .close => { s with chan := s.chan.close }
  | .poll spurious => s.access spurious

def run (s : PollRun α τ) (acts : List (PollAct α τ)) : PollRun α τ := acts.foldl step s

end PollRun

/-! ## 2. What a history says -/

/-- What was sent, oldest first. -/
def PollEvent.item? : PollEvent α τ → Option α
  | .sent a => some a
  | _ => none

/-- What was yielded. -/
def PollEvent.yield? : PollEvent α τ → Option α
  | .returned (.item a) _ => some a
  | _ => none

def sentItems (log : List (PollEvent α τ)) : List α := picked PollEvent.item? log

def yielded (log : List (PollEvent α τ)) : List α := picked PollEvent.yield? log

/-- What each record tells of those before it: the end is reported over what was sent and not
yielded, and nothing is sent after it. -/
def PollOk : PollEvent α τ → List (PollEvent α τ) → Prop
  | .returned (.terminal _) left, pre => sentItems pre = yielded pre ++ left
  | .sent _, pre => ∀ e left, .returned (.terminal e) left ∉ pre
  | _, _ => True

theorem sentItems_cons (e : PollEvent α τ) (log : List (PollEvent α τ)) :
    sentItems (e :: log) = sentItems log ++ (e.item?).toList := by
  unfold sentItems
  rw [← List.singleton_append, picked_append]
  cases e <;> rfl

theorem yielded_cons (e : PollEvent α τ) (log : List (PollEvent α τ)) :
    yielded (e :: log) = yielded log ++ (e.yield?).toList := by
  unfold yielded
  rw [← List.singleton_append, picked_append]
  cases e with
  | sent a => rfl
  | returned o left => cases o <;> rfl

/-! ## 3. The invariant -/

namespace PollRun

/-- What is queued is what was sent and not yielded; the stages know what they have read. -/
structure Inv (s : PollRun α τ) : Prop where
  exact : sentItems s.log = yielded s.log ++ s.chan.queue
  ended : s.stage = .ended ∨ s.stage = .endedAgain → s.chan.queue = [] ∧ s.chan.closed = true
  recheck : ∀ e, s.stage = .recheck e → s.cell = some e
  told : ∀ e left, .returned (.terminal e) left ∈ s.log → s.cell.isSome = true
  ok : Always PollOk s.log

theorem inv_init : Inv (init : PollRun α τ) :=
  ⟨rfl, by simp [init], by simp [init], by simp [init], trivial⟩

variable {s : PollRun α τ}

/-- The poll goes on. -/
theorem Inv.goes (h : Inv s) {stage : PollStage τ}
    (hend : stage = .ended ∨ stage = .endedAgain → s.chan.queue = [] ∧ s.chan.closed = true)
    (hre : ∀ e, stage = .recheck e → s.cell = some e) : Inv { s with stage := stage } :=
  ⟨h.exact, hend, hre, h.told, h.ok⟩

/-- The poll yields the item it took. -/
theorem Inv.yields (h : Inv s) {a : α} {chan : Channel α} (hq : s.chan.queue = a :: chan.queue) :
    Inv ({ s with chan := chan }.ret (.item a)) where
  exact := by
    have h1 := h.exact
    rw [hq] at h1
    change sentItems (_ :: s.log) = yielded (_ :: s.log) ++ chan.queue
    rw [sentItems_cons, yielded_cons, h1]
    simp [PollEvent.item?, PollEvent.yield?]
  ended := by simp [ret]
  recheck := by simp [ret]
  told e left hm := h.told e left (by simpa [ret] using hm)
  ok := ⟨trivial, h.ok⟩

/-- The poll returns without an item. -/
theorem Inv.returns (h : Inv s) {o : PollOut α τ} (ho : ∀ a, o ≠ .item a)
    (hcell : ∀ e, o = .terminal e → s.cell = some e) : Inv (s.ret o) := by
  have hlog :
      sentItems (s.ret o).log = sentItems s.log ∧ yielded (s.ret o).log = yielded s.log := by
    unfold ret
    rw [sentItems_cons, yielded_cons]
    cases o with
    | item a => exact absurd rfl (ho a)
    | _ => simp [PollEvent.item?, PollEvent.yield?]
  refine ⟨?_, by simp [ret], by simp [ret], fun e left hm => ?_, ?_, h.ok⟩
  · rw [hlog.1, hlog.2]
    exact h.exact
  · rcases List.mem_cons.mp hm with hm | hm
    · cases hm
      change s.cell.isSome = true
      rw [hcell e rfl]
      rfl
    · exact h.told e left hm
  · cases o with
    | terminal e => exact h.exact
    | _ => trivial

theorem Inv.access (h : Inv s) (spurious : Bool) : Inv (s.access spurious) := by
  unfold PollRun.access
  split
  · -- the first poll of the channel
    cases hp : s.chan.poll spurious with
    | mk ans chan =>
      have hspec := s.chan.poll_spec spurious
      rw [hp] at hspec
      cases hspec with
      | item a _ hq hc => exact h.yields hq
      | closed hq hc => exact h.goes (fun _ => ⟨hq, hc⟩) (by simp)
      | pending hs => exact h.goes (by simp) (by simp)
  · rename_i hst
    split
    · rename_i e he
      exact h.returns (by simp) fun e' hx => by cases hx; exact he
    · exact h.goes (fun _ => h.ended (.inl hst)) (by simp)
  · split
    · rename_i e he
      exact h.returns (by simp) fun e' hx => by cases hx; exact he
    · exact h.returns (by simp) (by simp)
  · split
    · rename_i e he
      exact h.goes (by simp) fun e' hx => by cases hx; exact he
    · exact h.goes (by simp) (by simp)
  · split
    · rename_i e he
      exact h.goes (by simp) fun e' hx => by cases hx; exact he
    · exact h.returns (by simp) (by simp)
  · -- the recheck
    rename_i e hst
    have hcell := h.recheck e hst
    have hend : Inv (s.ret (.terminal e)) :=
      h.returns (by simp) fun e' hx => by cases hx; exact hcell
    cases hp : s.chan.poll spurious with
    | mk ans chan =>
      have hspec := s.chan.poll_spec spurious
      rw [hp] at hspec
      cases hspec with
      | item a _ hq hc => exact h.yields hq
      | closed | pending => exact hend

theorem Inv.step (h : Inv s) (a : PollAct α τ) : Inv (s.step a) := by
  cases a with
  | send a =>
    unfold PollRun.step
    dsimp only
    split
    · exact h
    · rename_i hg
      simp only [Bool.or_eq_true, not_or, Bool.not_eq_true] at hg
      refine ⟨?_, fun hx => ?_, h.recheck, fun e left hm => ?_, fun e left hm => ?_, h.ok⟩
      · rw [sentItems_cons, yielded_cons, h.exact]
        simp [PollEvent.item?, PollEvent.yield?, Channel.send, hg.1]
      · exact absurd (h.ended hx).2 (by simp [hg.1])
      · exact h.told e left (by simpa using hm)
      · exact absurd (h.told e left hm) (by simp [hg.2])
  | publish e =>
    refine ⟨h.exact, h.ended, fun e' hx => ?_, fun e' left hm => ?_, h.ok⟩
    · change cellSet s.cell e = some e'
      rw [h.recheck e' hx]
      rfl
    · change (cellSet s.cell e).isSome = true
      obtain ⟨u, hu⟩ := Option.isSome_iff_exists.mp (h.told e' left hm)
      rw [hu]
      rfl
  | close => exact ⟨h.exact, fun hx => ⟨(h.ended hx).1, rfl⟩, h.recheck, h.told, h.ok⟩
  | poll spurious => exact h.access spurious

theorem Inv.run (h : Inv s) (acts : List (PollAct α τ)) : Inv (s.run acts) := by
  induction acts generalizing s with
  | nil => exact h
  | cons a acts ih => exact ih (h.step a)

/-! ## 4. When the end is told over queued items -/

/-- The channel answers this access truthfully where it matters: a recheck is not spurious while
items are queued. -/
def Truthful (s : PollRun α τ) : PollAct α τ → Prop
  | .poll true => ∀ e, s.stage = .recheck e → s.chan.queue = []
  | _ => True

/-- ... and so along a run. -/
def TruthfulRun : PollRun α τ → List (PollAct α τ) → Prop
  | _, [] => True
  | s, a :: acts => s.Truthful a ∧ TruthfulRun (s.step a) acts

/-- Whenever a poll returned the terminal, nothing was left in the queue. -/
def DrainedFirst (log : List (PollEvent α τ)) : Prop :=
  ∀ e left, .returned (.terminal e) left ∈ log → left = []

theorem drainedFirst_cons {x : PollEvent α τ} {log : List (PollEvent α τ)} :
    DrainedFirst (x :: log) ↔ (∀ e left, x = .returned (.terminal e) left → left = []) ∧
      DrainedFirst log := by
  constructor
  · intro h
    exact ⟨fun e left hx => h e left (hx ▸ List.mem_cons_self),
      fun e left hm => h e left (List.mem_cons_of_mem _ hm)⟩
  · rintro ⟨h1, h2⟩ e left hm
    rcases List.mem_cons.mp hm with hx | hm
    · exact h1 e left hx.symm
    · exact h2 e left hm

/-- Steps that return no terminal say nothing. -/
theorem drainedFirst_of_log {log : List (PollEvent α τ)}
    (h : log = s.log ∨ ∃ x, log = x :: s.log ∧ ∀ e left, x ≠ .returned (.terminal e) left) :
    DrainedFirst log ↔ DrainedFirst s.log := by
  rcases h with rfl | ⟨x, rfl, hx⟩
  · exact Iff.rfl
  · rw [drainedFirst_cons]
    exact and_iff_right fun e left he => absurd he (hx e left)

/-- **One access**: the end is told over queued items exactly by a spurious recheck. -/
theorem Inv.drainedFirst_step (h : Inv s) (a : PollAct α τ) :
    DrainedFirst (s.step a).log ↔ s.Truthful a ∧ DrainedFirst s.log := by
  have hquiet {log : List (PollEvent α τ)} (ht : s.Truthful a)
      (hl : log = s.log ∨ ∃ x, log = x :: s.log ∧ ∀ e left, x ≠ .returned (.terminal e) left) :
      DrainedFirst log ↔ s.Truthful a ∧ DrainedFirst s.log := by
    rw [drainedFirst_of_log hl, and_iff_right ht]
  cases a with
  | send a =>
    unfold PollRun.step
    dsimp only
    split
    · exact hquiet trivial (.inl rfl)
    · exact hquiet trivial (.inr ⟨_, rfl, by simp⟩)
  | publish | close => exact hquiet trivial (.inl rfl)
  | poll spurious =>
    -- outside a recheck every answer will do
    have hfree (hst : ∀ e, s.stage ≠ .recheck e) : s.Truthful (.poll spurious) := by
      cases spurious with
      | true => exact fun e hx => absurd hx (hst e)
      | false => trivial
    change DrainedFirst (s.access spurious).log ↔ _
    unfold PollRun.access
    split
    · rename_i hst
      have ht := hfree (by simp [hst])
      cases hp : s.chan.poll spurious with
      | mk ans chan =>
        cases ans with
        | item a => exact hquiet ht (.inr ⟨_, rfl, by simp⟩)
        | closed | pending => exact hquiet ht (.inl rfl)
    · rename_i hst
      have ht := hfree (by simp [hst])
      split
      · -- the channel had ended
        change DrainedFirst (_ :: s.log) ↔ _
        rw [drainedFirst_cons, and_iff_right ht, and_iff_right]
        rintro e left hx
        cases hx
        exact (h.ended (.inl hst)).1
      · exact hquiet ht (.inl rfl)
    · rename_i hst
      have ht := hfree (by simp [hst])
      split
      · change DrainedFirst (_ :: s.log) ↔ _
        rw [drainedFirst_cons, and_iff_right ht, and_iff_right]
        rintro e left hx
        cases hx
        exact (h.ended (.inr hst)).1
      · exact hquiet ht (.inr ⟨_, rfl, by simp⟩)
    · rename_i hst
      have ht := hfree (by simp [hst])
      split <;> exact hquiet ht (.inl rfl)
    · rename_i hst
      have ht := hfree (by simp [hst])
      split
      · exact hquiet ht (.inl rfl)
      · exact hquiet ht (.inr ⟨_, rfl, by simp⟩)
    · rename_i e hst
      have htold : DrainedFirst (s.ret (.terminal e)).log ↔
          s.chan.queue = [] ∧ DrainedFirst s.log := by
        change DrainedFirst (_ :: s.log) ↔ _
        rw [drainedFirst_cons]
        refine and_congr_left fun _ => ⟨fun hx => hx e _ rfl, fun hq e' left hx => ?_⟩
        cases hx
        exact hq
      have htrue : s.chan.queue = [] → s.Truthful (.poll spurious) := by
        intro hq
        cases spurious with
        | true => exact fun _ _ => hq
        | false => trivial
      have hspec := s.chan.poll_spec spurious
      cases hp : s.chan.poll spurious with
      | mk ans chan =>
        rw [hp] at hspec
        cases hspec with
        | item a _ hq hc =>
          have hns : spurious = false := by
            cases spurious with
            | true => cases hp
            | false => rfl
          subst hns
          exact hquiet trivial (.inr ⟨_, rfl, by simp⟩)
        | closed hq hc =>
          dsimp only
          rw [htold, and_iff_right hq, and_iff_right (htrue hq)]
        | pending hs =>
          dsimp only
          rw [htold]
          refine and_congr_left fun _ => ⟨htrue, fun ht => ?_⟩
          rcases hs with rfl | hq
          · exact ht e hst
          · exact hq

/-- **Along a run**: the end is never told over queued items exactly when no recheck is spurious
while items are queued. -/
theorem Inv.drainedFirst_run (h : Inv s) (acts : List (PollAct α τ)) :
    DrainedFirst (s.run acts).log ↔ TruthfulRun s acts ∧ DrainedFirst s.log := by
  induction acts generalizing s with
  | nil => exact (and_iff_right trivial).symm
  | cons a acts ih =>
    change DrainedFirst ((s.step a).run acts).log ↔ _
    rw [ih (h.step a), h.drainedFirst_step a, TruthfulRun]
    tauto

/-- Whoever is told the end over an empty queue has been given everything ever sent. -/
theorem Inv.complete (h : Inv s) {post pre : List (PollEvent α τ)} {e : τ}
    (hlog : s.log = post ++ .returned (.terminal e) [] :: pre) : yielded pre = sentItems s.log := by
  have hok := h.ok
  rw [hlog] at hok ⊢
  have hpre : sentItems pre = yielded pre ++ [] := hok.at
  have hnone : ∀ x ∈ post ++ [.returned (.terminal e) []], x.item? = none := by
    intro x hx
    rcases List.mem_append.mp hx with hx | hx
    · obtain ⟨p1, p2, rfl⟩ := List.append_of_mem hx
      rw [List.append_assoc] at hok
      have hx1 : PollOk x (p2 ++ .returned (.terminal e) [] :: pre) := hok.at
      cases x with
      | sent a =>
        exact absurd (List.mem_append_right _ List.mem_cons_self) (hx1 e [])
      | returned o left => rfl
    · cases List.mem_singleton.mp hx
      rfl
  have hsent : sentItems (post ++ .returned (.terminal e) [] :: pre) = sentItems pre := by
    rw [← List.singleton_append, ← List.append_assoc]
    unfold sentItems
    rw [picked_append, picked_eq_nil hnone, List.append_nil]
  rw [hsent, hpre, List.append_nil]

end PollRun

/-! ## 5. The worker's side of the byte channel -/

/-- What the worker does to the byte channel and the cell of half `h`. -/
def Event.feeds (h : Nat) : Event → Option (PollAct Bytes RecvEnd)
  | .place h' chunk => if h' = h then some (.send chunk) else none
  | .recvSet h' e => if h' = h then some (.publish e) else none
  | _ => none

/-- The feed of half `h` in a history, oldest first. -/
def feed (h : Nat) (tr : List Event) : List (PollAct Bytes RecvEnd) := picked (Event.feeds h) tr

theorem feed_cons (h : Nat) (e : Event) (tr : List Event) :
    feed h (e :: tr) = feed h tr ++ (e.feeds h).toList := by
  unfold feed
  rw [← List.singleton_append, picked_append]
  simp only [picked, List.reverse_singleton, List.filterMap_cons, List.filterMap_nil]
  cases e.feeds h <;> rfl

/-- In a history where nothing is placed after the seal, the feed is one the poller's channel
takes in full. -/
theorem feed_taken (h : Nat) : ∀ {tr : List Event},
    Always (fun e pre => ∀ h chunk, e = .place h chunk → ¬ Sealed h pre) tr →
    sentItems (PollRun.init.run (feed h tr)).log = placed h tr ∧
      (PollRun.init.run (feed h tr)).chan.closed = false ∧
      ((PollRun.init.run (feed h tr)).cell.isSome = true → Sealed h tr)
  | [], _ => ⟨rfl, rfl, by simp [feed, picked, PollRun.run, PollRun.init]⟩
  | e :: tr, hok => by
    obtain ⟨hsent, hopen, hseal⟩ := feed_taken h hok.2
    have hrun : PollRun.init.run (feed h (e :: tr)) =
        (PollRun.init.run (feed h tr)).run (e.feeds h).toList := by
      rw [feed_cons]
      exact List.foldl_append
    rw [hrun]
    generalize PollRun.init.run (feed h tr) = s at hsent hopen hseal
    have hold (he : Sealed h tr) : Sealed h (e :: tr) := he.imp fun _ => List.mem_cons_of_mem _
    cases e with
    | place h' chunk =>
      by_cases hh : h' = h
      · subst hh
        have hns : s.cell.isSome = false :=
          Bool.eq_false_of_not_eq_true fun hx => hok.1 h' chunk rfl (hseal hx)
        have hg : ¬ (s.chan.closed || s.cell.isSome) = true := by simp [hopen, hns]
        have hst : s.run (Event.place h' chunk |>.feeds h').toList =
            { s with chan := s.chan.send chunk, log := .sent chunk :: s.log } := by
          simp only [Event.feeds, if_true, Option.toList_some]
          exact if_neg hg
        rw [hst]
        refine ⟨?_, ?_, fun hx => hold (hseal hx)⟩
        · rw [sentItems_cons, hsent]
          simp [placed, PollEvent.item?]
        · simp [Channel.send, hopen]
      · simp only [Event.feeds, if_neg hh, Option.toList_none, placed]
        exact ⟨hsent, hopen, fun hx => hold (hseal hx)⟩
    | recvSet h' e =>
      by_cases hh : h' = h
      · subst hh
        simp only [Event.feeds, if_true, Option.toList_some]
        exact ⟨hsent, hopen, fun _ => ⟨e, List.mem_cons_self⟩⟩
      · simp only [Event.feeds, if_neg hh, Option.toList_none, placed]
        exact ⟨hsent, hopen, fun hx => hold (hseal hx)⟩
    | _ => exact ⟨hsent, hopen, fun hx => hold (hseal hx)⟩

/-- **The driver is such a worker**: in every run, what is placed in a byte queue is what a poller
of that queue is sent. -/
theorem World.feed_run {σ : Type} (T : QuicConn σ) (isServer : Bool) (bidiCap uniCap depth : Nat)
    (cap : Option Nat) (c : σ) (script : List (List FrontAct)) (ticks : List (Tick σ)) (h : Nat) :
    sentItems (PollRun.init.run (feed h
      ((withBuffers isServer bidiCap uniCap depth cap c script).run T ticks).trace)).log =
    placed h ((withBuffers isServer bidiCap uniCap depth cap c script).run T ticks).trace :=
  (feed_taken h
    (recvInv_run T isServer bidiCap uniCap depth cap c script ticks).integrity.closed).1

/-! ## 6. The three polls -/

/-- What `poll_data` returns; `none` is `Poll::Pending`. -/
def pollData : PollOut Bytes RecvEnd → Option (Except StreamErrorIncoming (Option Bytes))
  | .item b => some (.ok (some b))
  | .terminal e =>
    match e.toH3 with
    | none => some (.ok none)
    | some err => some (.error err)
  | .bug => some (.error
      (internalStreamError "recv byte channel closed without a published terminal"))
  | .pending => none

/-- What `poll_accept_recv` and `poll_accept_bidi` return, up to the text of the adapter bug. -/
def pollAccept {α : Type} (bug : String) :
    PollOut α ConnTerminal → Option (Except ConnectionErrorIncoming α)
  | .item a => some (.ok a)
  | .terminal t => some (.error t.toH3)
  | .bug => some (.error (.internalError bug))
  | .pending => none

def pollAcceptRecv : PollOut Nat ConnTerminal → Option (Except ConnectionErrorIncoming Nat) :=
  pollAccept "uni accept channel closed without a published terminal"

def pollAcceptBidi :
    PollOut (Nat × Nat) ConnTerminal → Option (Except ConnectionErrorIncoming (Nat × Nat)) :=
  pollAccept "bidi accept channel closed without a published terminal"

/-- The end of the data is a terminal. -/
theorem terminal_of_pollData_end {o : PollOut Bytes RecvEnd} (h : pollData o = some (.ok none)) :
    o = .terminal .fin := by
  cases o with
  | terminal e => cases e <;> first | rfl | simp [pollData, RecvEnd.toH3] at h
  | _ => simp [pollData] at h

/-- An accept poll hands out what it took from the queue; what it fails with is the terminal of the
connection, or the adapter bug. -/
def AcceptReads {α : Type}
    (poll : PollOut α ConnTerminal → Option (Except ConnectionErrorIncoming α)) : Prop :=
  ∀ o, (∀ a, poll o = some (.ok a) → o = .item a) ∧
    ∀ err, poll o = some (.error err) → o = .bug ∨ ∃ t, o = .terminal t ∧ err = t.toH3

theorem pollAccept_reads {α : Type} (bug : String) : AcceptReads (pollAccept bug (α := α)) := by
  intro o
  cases o with
  | terminal t =>
    refine ⟨by simp [pollAccept], fun err h => .inr ⟨t, rfl, ?_⟩⟩
    cases h
    rfl
  | _ => simp [pollAccept]

/-- Queued items win over the terminal, along a run of accesses. -/
structure QueuedFirst {α τ : Type} (acts : List (PollAct α τ)) : Prop where
  /-- A terminal is returned over an empty queue only, exactly when no recheck is spurious while
  items are queued. -/
  drained : PollRun.DrainedFirst (PollRun.init.run acts).log ↔ PollRun.TruthfulRun .init acts
  /-- ... and what was yielded before the terminal is then everything that is ever sent. -/
  whole : PollRun.TruthfulRun .init acts → ∀ post e left pre,
    (PollRun.init.run acts).log = post ++ .returned (.terminal e) left :: pre →
      yielded pre = sentItems (PollRun.init.run acts).log

theorem queuedFirst {α τ : Type} (acts : List (PollAct α τ)) : QueuedFirst acts := by
  have h : PollRun.Inv (PollRun.init.run acts) := PollRun.inv_init.run acts
  have hiff := PollRun.inv_init.drainedFirst_run (α := α) (τ := τ) acts
  have hinit : PollRun.DrainedFirst (PollRun.init : PollRun α τ).log := by
    simp [PollRun.DrainedFirst, PollRun.init]
  rw [and_iff_left hinit] at hiff
  refine ⟨hiff, fun ht post e left pre hlog => ?_⟩
  have hleft : left = [] :=
    hiff.mpr ht e left (by rw [hlog]; exact List.mem_append_right _ List.mem_cons_self)
  subst hleft
  exact h.complete hlog

/-- **Queued data wins over the terminal, as far as the recheck is answered truthfully.**  For
every interleaving of the accesses of `poll_data` with a worker that sends, publishes and closes,
the end `Ok(None)` or an `Err(terminal)` is returned over an empty queue only, if and only if no
recheck is answered with a spurious `Pending` while a chunk is queued; and then the chunks yielded
before it are exactly those enqueued.  The same holds of `poll_accept_recv` and `poll_accept_bidi`:
an accepted stream is one they took from the queue, an `Err` is the terminal of the connection (or
the report of an adapter bug). -/
theorem queued_before_terminal (data : List (PollAct Bytes RecvEnd))
    (uni : List (PollAct Nat ConnTerminal)) (bidi : List (PollAct (Nat × Nat) ConnTerminal)) :
    (QueuedFirst data ∧ ∀ o, pollData o = some (.ok none) → ∃ e, o = .terminal e) ∧
      (QueuedFirst uni ∧ AcceptReads pollAcceptRecv) ∧
      (QueuedFirst bidi ∧ AcceptReads pollAcceptBidi) :=
  ⟨⟨queuedFirst data, fun _ ho => ⟨.fin, terminal_of_pollData_end ho⟩⟩,
    ⟨queuedFirst uni, pollAccept_reads _⟩, ⟨queuedFirst bidi, pollAccept_reads _⟩⟩

/-- One chunk is queued and FIN is published; the task has used up its share, so both polls of the
channel answer `Pending`, and `poll_data` returns `Ok(None)` over the chunk. -/
theorem spurious_recheck_truncates :
    (PollRun.init.run [.send [7], .publish RecvEnd.fin, .poll true, .poll true, .poll true]).log =
        [.returned (.terminal .fin) [[7]], .sent [7]] ∧
      pollData (.terminal .fin) = some (.ok none) := ⟨rfl, rfl⟩

end QuicheH3
