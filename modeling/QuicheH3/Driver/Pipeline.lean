/-
# The command pipeline (`apply_inbox`, `wait_for_data`)

Every wish of the front end is a command: it enters the unbounded channel, may be moved to the
inbox by `wait_for_data`, and leaves both when stage (a) takes it up.  Two things are shown of this
pipeline, whatever the other tasks and the transport do.

* ORDER (`commands_in_order`): the commands issued are those carried out followed by those that
  still wait, so none is lost, none is carried out twice and none overtakes another.
* PACE (`commands_in_time`): a `process_writes` carries out `CMD_BUDGET` commands as long as so
  many wait, so a command waits for at most as many iterations as there are budgets before it.

The order is an invariant of the open machine, which has the two queues as one list already.
-/
import QuicheH3.Open.Order
import QuicheH3.Driver.Frame

namespace QuicheH3

open Lib

/-! ## 1. The commands of a history -/

/-- The command an event takes up. -/
def Event.carriesOut : Event → Option DriverCommand
  | .applied cmd => some cmd
  | _ => none

/-- The commands that entered the channel, oldest first. -/
def issued (tr : List Event) : List DriverCommand := (submitted tr).reverse

/-- The commands stage (a) has taken up, oldest first. -/
def carriedOut (tr : List Event) : List DriverCommand := picked Event.carriesOut tr

theorem carriedOut_applied (cmd : DriverCommand) (tr : List Event) :
    carriedOut (.applied cmd :: tr) = carriedOut tr ++ [cmd] := picked_cons _ _ _

theorem blind_carriedOut : Blind (fun e => e.carriesOut = none) carriedOut :=
  blind_picked fun _ he => he

theorem issued_of_suffix {tr tr' : List Event} (h : tr <:+ tr') : issued tr <+: issued tr' := by
  obtain ⟨evs, rfl⟩ := h
  unfold issued submitted
  rw [List.filterMap_append, List.reverse_append]
  exact ⟨_, rfl⟩

theorem carriedOut_of_suffix {tr tr' : List Event} (h : tr <:+ tr') :
    carriedOut tr <+: carriedOut tr' := by
  obtain ⟨evs, rfl⟩ := h
  unfold carriedOut
  rw [picked_append]
  exact ⟨_, rfl⟩

/-! ## 2. Order -/

/-- The commands issued are those carried out, followed by those that wait. -/
def InTurn (v : OpenView) : Prop := issued v.hist = carriedOut v.hist ++ v.cmds

namespace InTurn

variable {v v' : OpenView}

/-- No command is issued or taken up. -/
theorem grows (h : InTurn v) (hc : v'.cmds = v.cmds)
    (hg : Grows (fun e => (∀ c, e ≠ .submit c) ∧ e.carriesOut = none) v.hist v'.hist) :
    InTurn v' := by
  have hissued : issued v'.hist = issued v.hist := by
    unfold issued
    rw [blind_submitted.grows (hg.mono fun _ he => he.1)]
  have hcarried : carriedOut v'.hist = carriedOut v.hist :=
    blind_carriedOut.grows (hg.mono fun _ he => he.2)
  unfold InTurn
  rw [hissued, hcarried, hc]
  exact h

theorem carriesOut_of_isInner {e : Event} (he : e.isInner) : e.carriesOut = none := by
  cases e with
  | applied cmd => exact he.elim
  | _ => rfl

theorem inner (h : InTurn v) {tr : List Event} (hc : v'.cmds = v.cmds) (ht : v'.hist = tr)
    (hg : Grows Event.isInner v.hist tr) : InTurn v' := by
  subst ht
  exact h.grows hc (hg.mono fun e he => ⟨ne_submit_of_isInner e he, carriesOut_of_isInner he⟩)

/-- What the front end issues goes to the end of the line. -/
theorem front (h : InTurn v) (hf : OpenView.Front v v') : InTurn v' := by
  obtain ⟨cs, hcmds, hsub, -, -⟩ := hf.appends
  have hcarried : carriedOut v'.hist = carriedOut v.hist := by
    refine blind_carriedOut.grows (hf.grows.mono fun e he => ?_)
    cases e with
    | applied cmd => exact he.elim
    | _ => rfl
  have hissued : issued v'.hist = issued v.hist ++ cs := by
    unfold issued
    rw [hsub, List.reverse_append, List.reverse_reverse]
  unfold InTurn
  rw [hissued, hcarried, hcmds, ← List.append_assoc]
  exact congrArg (· ++ cs) h

/-- The head of the line is taken up. -/
theorem pop (h : InTurn v) {cmd : DriverCommand} {rest : List DriverCommand}
    (hc : v.cmds = cmd :: rest) (hcmds : v'.cmds = rest) (ht : v'.hist = .applied cmd :: v.hist) :
    InTurn v' := by
  have hissued : issued v'.hist = issued v.hist := by
    rw [ht]
    rfl
  unfold InTurn at h ⊢
  rw [hissued, ht, carriedOut_applied, hcmds, h, hc, List.append_assoc, List.singleton_append]

/-- A request of the open stage is served. -/
theorem serve (h : InTurn v) {b : Bool} {rest : List Nat} {tr : List Event}
    (hg : Grows Event.isInner (.streamPriority (v.nextId b) true :: v.hist) tr) :
    InTurn (v.serve b rest tr) := by
  have hopened : InTurn { v with hist := .streamPriority (v.nextId b) true :: v.hist } :=
    h.grows rfl (.one ⟨fun c hc => (by cases hc), rfl⟩)
  exact hopened.inner rfl rfl hg

theorem move (h : InTurn v) (hm : OpenView.Move v v') : InTurn v' := by
  cases hm with
  | inner tr hg => exact h.inner rfl rfl hg
  | front _ hf => exact h.front hf
  | pop cmd rest hc => exact h.pop hc rfl rfl
  | skip b r rest hq hw => exact h
  | fail b r rest t hq hw =>
    exact h.grows rfl (.one ⟨fun c hc => (by cases hc), rfl⟩)
  | deliver b r rest tr ans v1 hq hg hf hw ha =>
    exact ((h.serve hg).front hf).grows rfl (.one ⟨fun c hc => (by cases hc), rfl⟩)
  | lapse b r rest tr _ hq hg hf hw => exact (h.serve hg).front hf

theorem moves (h : InTurn v) (hm : v.Moves v') : InTurn v' := by
  induction hm with
  | refl => exact h
  | tail _ hstep ih => exact ih.move hstep

end InTurn

namespace World

variable {σ : Type} {T : QuicConn σ} {w w' : World σ}

theorem inTurn_withBuffers (isServer : Bool) (bidiCap uniCap depth : Nat) (cap : Option Nat)
    (c : σ) (script : List (List FrontAct)) :
    InTurn (withBuffers isServer bidiCap uniCap depth cap c script).oview := rfl

theorem inTurn_steps (hs : Steps T w w') (h : InTurn w.oview) : InTurn w'.oview :=
  h.moves (openMoves_steps hs)

theorem inTurn_run (T : QuicConn σ) (isServer : Bool) (bidiCap uniCap depth : Nat)
    (cap : Option Nat) (c : σ) (script : List (List FrontAct)) (ticks : List (Tick σ)) :
    InTurn ((withBuffers isServer bidiCap uniCap depth cap c script).run T ticks).oview :=
  inTurn_steps (run_steps (T := T) ticks _) (inTurn_withBuffers isServer bidiCap uniCap depth cap c
    script)

/-- **Commands are carried out once and in order.**  In every state of every run, also between the
accesses of a callback: what the front end has issued is what stage (a) has carried out, then what
the inbox holds, then what the channel holds. -/
theorem commands_in_order (T : QuicConn σ) (isServer : Bool) (bidiCap uniCap depth : Nat)
    (cap : Option Nat) (c : σ) (script : List (List FrontAct)) {w : World σ}
    (hs : Steps T (withBuffers isServer bidiCap uniCap depth cap c script) w) :
    issued w.trace = carriedOut w.trace ++ (w.inbox ++ w.sh.cmdRx) :=
  inTurn_steps hs (inTurn_withBuffers isServer bidiCap uniCap depth cap c script)

/-- Three commands of a client: one carried out, one moved to the inbox, one in the channel. -/
def threeCommands : World MockConn :=
  (withBuffers false 4 4 8 none {} []).run mockConn
    [.front .openBidi, .processWrites, .front .openUni, .front (.close 3 []), .waitForData]

theorem threeCommands_in_order :
    issued threeCommands.trace =
      carriedOut threeCommands.trace ++ (threeCommands.inbox ++ threeCommands.sh.cmdRx) ∧
    carriedOut threeCommands.trace = [.openBidi 0] ∧ threeCommands.inbox = [.openUni 1] ∧
    threeCommands.sh.cmdRx = [.close 3 []] := by
  refine ⟨?_, by decide +kernel, by decide +kernel, by decide +kernel⟩
  exact commands_in_order mockConn false 4 4 8 none {} [] (run_steps _ _)

/-! ## 3. Pace -/

/-- The acting iterations of a run. -/
def rounds : List (Tick σ) → Nat
  | [] => 0
  | .processWrites :: ticks => rounds ticks + 1
  | _ :: ticks => rounds ticks

/-- What applies a command first records that it was taken up. -/
theorem applied_suffix (w : World σ) (cmd : DriverCommand) :
    .applied cmd :: w.trace <:+ (w.applyCommand T cmd).trace := by
  have F := suffix_frame (σ := σ)
  cases cmd with
  | send id | finish id => exact F.enqueueSendOp (w.emit _) id _
  | reset id code => exact F.applyReset (w.emit _) id code
  | stopSending id code =>
    exact F.trans (F.streamShutdown (w.emit _) id _ _) ((F.ends id).markRecvDone _)
  | acceptBidiResume => exact F.trans (F.interleave (w.emit _)) (F.acceptFlag _ true true)
  | acceptUniResume => exact F.trans (F.interleave (w.emit _)) (F.acceptFlag _ false true)
  | connectionDropped => exact F.cleanUndeliveredPeerStreams (w.emit _)
  | close code reason =>
    unfold applyCommand
    dsimp only
    split <;> exact List.suffix_rfl
  | _ => exact List.suffix_rfl

/-- Stage (a) stops early only when nothing waits. -/
theorem nextCommand_none (h : w.nextCommand = (none, w')) : w'.inbox ++ w'.sh.cmdRx = [] := by
  unfold nextCommand at h
  split at h
  · cases h
  · rename_i hi
    dsimp only at h
    split at h
    · cases h
    · rename_i hc
      cases h
      rw [hc, List.append_nil]
      exact hi

/-- `apply_inbox`: a budget of `n` carries out `n` commands, if so many were issued. -/
theorem applyLoop_pace : ∀ (n : Nat) (w : World σ), InTurn w.oview →
    min (issued w.trace).length ((carriedOut w.trace).length + n) ≤
      (carriedOut (applyLoop T n w).trace).length
  | 0, w, _ => by
    have htrace : (applyLoop T 0 w).trace = w.trace := by
      unfold applyLoop
      split <;> rfl
    rw [htrace]
    exact min_le_right _ _
  | n + 1, w, h => by
    have hnext : w.trace <:+ w.nextCommand.2.trace := suffix_frame.nextCommand w
    unfold applyLoop
    rcases nextCommand_cases (T := T) w with ⟨u, he, hs⟩ | ⟨cmd, u, u', he, hs, hp⟩
    · -- nothing waits: what was issued is carried out
      rw [he] at hnext ⊢
      have hall : issued u.trace = carriedOut u.trace ++ (u.inbox ++ u.sh.cmdRx) :=
        inTurn_steps hs h
      rw [nextCommand_none he, List.append_nil] at hall
      have hcount := congrArg List.length hall
      have hgrown := (issued_of_suffix hnext).length_le
      dsimp only at hgrown ⊢
      omega
    · rw [he] at hnext ⊢
      have hone := applied_suffix (T := T) u' cmd
      have htaken := (carriedOut_of_suffix hone).length_le
      rw [carriedOut_applied, List.length_append, List.length_singleton] at htaken
      have hkept := (carriedOut_of_suffix hnext).length_le
      have hgrown := (issued_of_suffix (hnext.trans ((List.suffix_cons _ _).trans hone))).length_le
      have hrest := applyLoop_pace n (u'.applyCommand T cmd)
        (inTurn_steps (hs.trans (applyCommand_steps hp)) h)
      dsimp only at hkept hgrown ⊢
      omega

/-- The stages after stage (a) only add to the history. -/
theorem applyInbox_suffix (w : World σ) :
    (w.startIteration.applyInbox T).trace <:+ (w.doProcessWrites T).trace := by
  have F := suffix_frame (σ := σ)
  have h1 : (w.startIteration.applyInbox T).trace <:+ (if !w.ctl.readsRanThisIter then
      (w.startIteration.applyInbox T).runReadPump T else w.startIteration.applyInbox T).trace := by
    split
    · exact F.runReadPump _
    · exact List.suffix_rfl
  have h2 := F.trans h1 (F.trans (F.stageOpen (T := T) _) (F.stageWritable (T := T) _))
  have h3 := F.trans h2 (F.stageSend (T := T) _)
  exact F.trans h3 (F.trans (F.trans (F.ctl _ _) (F.trans (F.interleave _) (F.ctl _ _)))
    (F.applyCloseBarrier _))

/-- One acting iteration. -/
theorem doProcessWrites_pace (h : InTurn w.oview) :
    min (issued w.trace).length ((carriedOut w.trace).length + cmdBudget) ≤
      (carriedOut (w.doProcessWrites T).trace).length := by
  have hstart : w.startIteration.oview = w.oview := by
    unfold startIteration
    split <;> rfl
  have htrace : w.startIteration.trace = w.trace := congrArg OpenView.hist hstart
  have hloop := applyLoop_pace (T := T) cmdBudget w.startIteration (by rw [hstart]; exact h)
  rw [htrace] at hloop
  exact hloop.trans (carriedOut_of_suffix (applyInbox_suffix w)).length_le

theorem suffix_run : ∀ (ticks : List (Tick σ)) (w : World σ), w.trace <:+ (w.run T ticks).trace
  | [], _ => List.suffix_rfl
  | t :: ticks, w => (suffix_frame.tick w t).trans (suffix_run ticks (w.tick T t))

/-- The iterations of a run, one after the other. -/
theorem run_pace : ∀ (ticks : List (Tick σ)) (w : World σ), InTurn w.oview →
    min (issued w.trace).length ((carriedOut w.trace).length + rounds ticks * cmdBudget) ≤
      (carriedOut (w.run T ticks).trace).length
  | [], w, _ => by
    rw [rounds, Nat.zero_mul]
    exact min_le_right _ _
  | t :: ticks, w, h => by
    have hsuffix : w.trace <:+ (w.tick T t).trace := suffix_frame.tick w t
    have hgrown := (issued_of_suffix hsuffix).length_le
    have hkept := (carriedOut_of_suffix hsuffix).length_le
    have hrest : min (issued (w.tick T t).trace).length
        ((carriedOut (w.tick T t).trace).length + rounds ticks * cmdBudget) ≤
        (carriedOut (w.run T (t :: ticks)).trace).length :=
      run_pace ticks (w.tick T t) (inTurn_steps (tick_steps w t) h)
    cases t with
    | processWrites =>
      have hround : min (issued w.trace).length ((carriedOut w.trace).length + cmdBudget) ≤
          (carriedOut (w.tick T .processWrites).trace).length := doProcessWrites_pace h
      rw [rounds, Nat.succ_mul]
      omega
    | _ =>
      simp only [rounds]
      omega

theorem issued_take_carriedOut (h : InTurn w.oview) (later : List (Tick σ)) :
    (issued w.trace).take ((carriedOut w.trace).length + rounds later * cmdBudget) <+:
      carriedOut (w.run T later).trace := by
  have hpace := run_pace (T := T) later w h
  have hend : issued (w.run T later).trace = carriedOut (w.run T later).trace ++
      ((w.run T later).inbox ++ (w.run T later).sh.cmdRx) := inTurn_steps (run_steps later w) h
  have hearly : issued w.trace <+: issued (w.run T later).trace :=
    issued_of_suffix (suffix_run later w)
  refine List.prefix_of_prefix_length_le ((List.take_prefix _ _).trans hearly) ⟨_, hend.symm⟩ ?_
  rw [List.length_take]
  omega

/-- **Commands are carried out in time.**  Of the commands issued by the end of a run, each further
`process_writes` carries out `CMD_BUDGET`, the oldest first, until none of them is left: whatever
the transport answers, and however many commands the front end adds meanwhile. -/
theorem commands_in_time (T : QuicConn σ) (isServer : Bool) (bidiCap uniCap depth : Nat)
    (cap : Option Nat) (c : σ) (script : List (List FrontAct)) (ticks later : List (Tick σ)) :
    (issued ((withBuffers isServer bidiCap uniCap depth cap c script).run T ticks).trace).take
      ((carriedOut
        ((withBuffers isServer bidiCap uniCap depth cap c script).run T ticks).trace).length +
        rounds later * cmdBudget) <+:
    carriedOut (((withBuffers isServer bidiCap uniCap depth cap c script).run T ticks).run T
      later).trace := by
  exact issued_take_carriedOut
    (inTurn_run T isServer bidiCap uniCap depth cap c script ticks) later

end World

end QuicheH3
