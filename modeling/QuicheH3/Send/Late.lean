/-
# Operations that come after the terminal (`driver.rs`)

A `Send` or `Finish` may be on its way when its stream's send direction ends.  The worker then finds
the terminal in the registry entry and completes the operation with it, at once and without asking
the transport.  What it goes by is the ENTRY, and an entry over a published cell can be gone: the
receive direction of the stream ends after the terminal, `reclaim_finished_send` drops the entry,
and the late operation makes a new one, which knows of no terminal.  So the operation is told the
terminal exactly when the entry is still there, and that is the theorem.
-/
import QuicheH3.Budget.Outcome
import QuicheH3.Life.Line
import QuicheH3.Registry.Invariant
import QuicheH3.Mock

namespace QuicheH3

open Lib

namespace World

variable {σ : Type} {T : QuicConn σ} {w w0 w' : World σ} {id : Nat} {op : SendOp}
  {cmd : DriverCommand}

/-! ## 1. The application of an operation -/

theorem applyCommand_op (hop : cmd.op = some (id, op)) :
    w.applyCommand T cmd = (w.emit (.applied cmd)).enqueueSendOp id op := by
  cases cmd with
  | send | finish =>
    cases hop
    rfl
  | _ => cases hop

/-- The operation is completed with `e` in the step that applies it.  No entry is made or changed,
and the transport is not called. -/
structure CompletedAtOnce (cmd : DriverCommand) (op : SendOp) (e : SendEnd) (w w' : World σ) :
    Prop where
  trace : w'.trace = .resolve op.tok (.error e) :: .applied cmd :: w.trace
  reg : w'.reg = w.reg
  conn : w'.ctl = w.ctl

theorem completeOp_atOnce (w : World σ) (op : SendOp) (e : SendEnd) :
    (w.completeOp op (.error e)).trace = .resolve op.tok (.error e) :: w.trace ∧
    (w.completeOp op (.error e)).reg = w.reg ∧ (w.completeOp op (.error e)).ctl = w.ctl := by
  cases op <;> exact ⟨rfl, rfl, rfl⟩

/-- An entry with a terminal answers for it. -/
theorem enqueueSendOp_terminal {s : StreamSendState} {e : SendEnd}
    (hs : w.reg.send.lookup id = some s) (ht : s.terminal = some e) :
    w.enqueueSendOp id op = w.completeOp op (.error e) := by
  have hw : w.ensureSend id = w := by simp only [ensureSend, hs]
  simp only [enqueueSendOp, hw, hs, ht]

/-- Without one the operation is queued, behind a new entry if there was none: nothing is
completed. -/
theorem enqueueSendOp_queued (op : SendOp)
    (hn : ∀ s, w.reg.send.lookup id = some s → s.terminal = none) :
    (w.enqueueSendOp id op).trace = w.trace ∨
    (w.enqueueSendOp id op).trace = .sendOpen id w.sh.nextSend :: w.trace := by
  cases hs : w.reg.send.lookup id with
  | some s =>
    have hw : w.ensureSend id = w := by simp only [ensureSend, hs]
    refine .inl ?_
    simp only [enqueueSendOp, hw, hs, hn s hs]
    rfl
  | none =>
    refine .inr ?_
    have hnew : (w.ensureSend id).reg.send.lookup id = some (.new w.sh.nextSend) := by
      simp [ensureSend, hs, insertSend, emit]
    have htr : (w.ensureSend id).trace = .sendOpen id w.sh.nextSend :: w.trace := by
      simp [ensureSend, hs, insertSend, dropSendEntry, emit, Face.emit]
    simp only [enqueueSendOp, hnew, ← htr]
    rfl

theorem Popped.same (hp : w.Popped cmd w0) :
    w0.trace = w.trace ∧ w0.reg = w.reg ∧ w0.ctl = w.ctl := by
  cases hp <;> exact ⟨rfl, rfl, rfl⟩

/-- **An operation is completed at once with `e` exactly when the registry holds an entry of its
stream that ended with `e`.** -/
theorem completedAtOnce_iff (hop : cmd.op = some (id, op)) (hp : w.Popped cmd w0) (e : SendEnd) :
    CompletedAtOnce cmd op e w (w0.applyCommand T cmd) ↔
      ∃ s, w.reg.send.lookup id = some s ∧ s.terminal = some e := by
  obtain ⟨htr, hreg, hctl⟩ := hp.same
  have htr' : (w0.emit (.applied cmd)).trace = .applied cmd :: w.trace := congrArg _ htr
  rw [applyCommand_op hop]
  by_cases hend : ∃ s e', w.reg.send.lookup id = some s ∧ s.terminal = some e'
  · obtain ⟨s, e', hs, ht⟩ := hend
    have hs' : (w0.emit (.applied cmd)).reg.send.lookup id = some s := by
      rw [← hs, ← hreg]
      rfl
    obtain ⟨h1, h2, h3⟩ := completeOp_atOnce (w0.emit (.applied cmd)) op e'
    rw [enqueueSendOp_terminal hs' ht]
    constructor
    · intro h
      have he := h1.symm.trans h.trace
      rw [htr', List.cons.injEq] at he
      have hx : e' = e := by simpa using he.1
      exact ⟨s, hs, hx ▸ ht⟩
    · rintro ⟨s1, hs1, ht1⟩
      cases hs.symm.trans hs1
      cases ht.symm.trans ht1
      exact ⟨h1.trans (congrArg _ htr'), h2.trans hreg, h3.trans hctl⟩
  · have hnone : ∀ s, (w0.emit (.applied cmd)).reg.send.lookup id = some s → s.terminal = none := by
      intro s hs
      by_contra hn
      obtain ⟨e', ht⟩ := Option.ne_none_iff_exists'.mp hn
      refine hend ⟨s, e', ?_, ht⟩
      rw [← hreg]
      exact hs
    refine iff_of_false (fun h => ?_) fun ⟨s, hs, ht⟩ => hend ⟨s, e, hs, ht⟩
    rcases enqueueSendOp_queued op hnone with hq | hq
    · have hlen := congrArg List.length (hq.symm.trans h.trace)
      rw [htr'] at hlen
      simp at hlen
    · have he := hq.symm.trans h.trace
      rw [htr', List.cons.injEq] at he
      cases he.1

/-! ## 2. Every run -/

/-- What becomes of operation `op` of stream `id`, applied in `w` by the step to `w'`. -/
structure Answered (T : QuicConn σ) (cmd : DriverCommand) (id : Nat) (op : SendOp)
    (w w' : World σ) : Prop where
  /-- It is told the terminal `e` of the handle with status cell `c`, as long as the worker keeps
  the entry over that cell. -/
  sticky : ∀ c e s, (w.sh.sendHalves c).status = some e → w.reg.send.lookup id = some s →
    s.status = c → CompletedAtOnce cmd op e w w'
  /-- Nothing else makes the worker complete it at once. -/
  only : ∀ e, CompletedAtOnce cmd op e w w' ↔
    ∃ s, w.reg.send.lookup id = some s ∧ (w.sh.sendHalves s.status).status = some e
  /-- It is told so once: in whatever state the run goes on to, before and after the connection
  closes, that is its only outcome. -/
  once : ∀ e, CompletedAtOnce cmd op e w w' → ∀ w1, Steps T w' w1 → ∀ rest : List FrontAct,
    outcomes op.tok w1.trace = [some (.error e)] ∧
    outcomes op.tok (rest.foldl front (w1.doOnConnClose T)).trace = [some (.error e)]

/-- **Operations after the send terminal are told that terminal, as long as the entry over their
handle's cell is kept.**  For every transport and every run: a `Send` or `Finish` that the worker
takes up when the status cell of its handle holds `e` is completed in that step with `e`, without a
new entry and without a transport call, and never again, if the registry still holds the entry over
that cell.  If it holds no entry with terminal `e`, the operation is not completed in that step with
`e`. -/
theorem late_operations_sticky (T : QuicConn σ) (isServer : Bool) (bidiCap uniCap depth : Nat)
    (cap : Option Nat) (c : σ) (script : List (List FrontAct))
    (hw : Steps T (withBuffers isServer bidiCap uniCap depth cap c script) w)
    (hop : cmd.op = some (id, op)) (hp : w.Popped cmd w0) :
    Answered T cmd id op w (w0.applyCommand T cmd) := by
  have hstuck : w.Stuck := stuck_steps isServer bidiCap uniCap depth cap c script hw
  have hiff := completedAtOnce_iff (T := T) hop hp
  have hstep : Steps T w (w0.applyCommand T cmd) := applyCommand_steps hp
  refine ⟨fun c e s hc hs hsc => ?_, fun e => ?_, fun e hdone w1 hw1 rest => ?_⟩
  · refine (hiff e).mpr ⟨s, hs, ?_⟩
    rw [hstuck id s hs, hsc]
    exact hc
  · rw [hiff e]
    refine exists_congr fun s => and_congr_right fun hs => ?_
    rw [hstuck id s hs]
  · have hmem : .resolve op.tok (.error e) ∈ (w0.applyCommand T cmd).trace := by
      rw [hdone.trace]
      exact List.mem_cons_self
    have hrun := (hw.trans hstep).trans hw1
    have hclose := runClosed_books T w1 [] rest
    have hsuf : (w0.applyCommand T cmd).trace <:+ w1.trace :=
      suffix_steps hw1 (sound_steps (hw.trans hstep) (sound_withBuffers ..))
    refine ⟨outcomes_eq_of_suffix (inv_of_books isServer bidiCap uniCap depth cap c script
      (steps_books hrun 0)) hmem hsuf, ?_⟩
    refine outcomes_eq_of_suffix (inv_of_books isServer bidiCap uniCap depth cap c script
      ((steps_books hrun 0).trans hclose)) hmem (hsuf.trans (runClosed_close T w1 [] rest).suffix)

/-- A client's stream is stopped by the peer while a write of it enters the channel: the write is
submitted in the iteration that finds the stop, after its commands were applied. -/
def stopFound : World MockConn :=
  (withBuffers false 4 4 8 none { streamsLeftBidi := 4 }
    (List.replicate 12 [] ++ [[.sendData 0 ⟨[[4]], by decide⟩]])).run mockConn
    [.front .openBidi, .processWrites, .front (.takeReply 0),
      .transport { writableNext := [0], capacity := fun _ => .error (.streamStopped 5) },
      .processWrites]

/-- The write. -/
def lateWrite : DriverCommand := .send 0 ⟨[[4]], by decide⟩ 0 (some 1)

/-- The command has left the channel. -/
def writeTaken (w : World MockConn) : World MockConn := { w with sh.cmdRx := [] }

theorem stopFound_completes :
    (stopFound.sh.sendHalves 0).status = some (.stopped 5) ∧
    CompletedAtOnce lateWrite (.write ⟨[[4]], by decide⟩ 0 (some 1)) (.stopped 5) stopFound
      (stopFound.writeTaken.applyCommand mockConn lateWrite) := by
  have hw : Steps mockConn (withBuffers false 4 4 8 none { streamsLeftBidi := 4 }
      (List.replicate 12 [] ++ [[.sendData 0 ⟨[[4]], by decide⟩]])) stopFound := run_steps _ _
  have hp : stopFound.Popped lateWrite stopFound.writeTaken := by
    refine .channel ?_ ?_ <;> decide +kernel
  refine ⟨by decide +kernel, ?_⟩
  exact (late_operations_sticky mockConn false 4 4 8 none _ _ hw rfl hp).sticky 0 (.stopped 5)
    { StreamSendState.new 0 with terminal := some (.stopped 5), finished := true }
    (by decide +kernel) (by decide +kernel) rfl

/-- The peer then ends its own direction too, before the write is applied. -/
def stopForgotten : World MockConn :=
  stopFound.run mockConn
    [.transport { readableNext := [0], recvScript := fun _ => [.ok ([], true)] }, .processReads]

/-- The entry is gone though the handle's cell holds the stop.  The write makes a new entry, the
transport is asked for it, and it completes with `Ok`. -/
theorem stopForgotten_revives :
    (stopForgotten.sh.sendHalves 0).status = some (.stopped 5) ∧
    stopForgotten.sh.cmdRx = [lateWrite] ∧ stopForgotten.reg.send.lookup 0 = none ∧
    outcomes 0 (stopForgotten.run mockConn [.processWrites]).trace = [some (.ok ())] ∧
    .sendOpen 0 1 ∈ (stopForgotten.run mockConn [.processWrites]).trace ∧
    .sendOpen 0 1 ∉ stopForgotten.trace ∧
    (∃ ans, .streamCapacity 0 ans ∈ (stopForgotten.run mockConn [.processWrites]).trace ∧
      .streamCapacity 0 ans ∉ stopForgotten.trace) := by
  refine ⟨?_, ?_, ?_, ?_, ?_, ?_, .ok (2 ^ 64 - 1), ?_, ?_⟩ <;> decide +kernel

end World

end QuicheH3
