/-
# The command grammar of a send half

The worker relies on an order in what a send half enqueues: writes, one at a time, and then at
most one `Finish` or `Reset`.  Two thirds of that hold in every session.  A `Send` is enqueued
only when the outcome of the one before it has been consumed, and each buffer that `send_data`
accepted is enqueued at most once (`Orderly`).

The last third does not: `poll_ready` does not look at `finalized`.  A buffer that is stashed when
`poll_finish` enqueues its `Finish`, or is stashed afterwards, is flushed BEHIND the `Finish` by
the next `poll_ready`, unless a terminal is visible by then.  The grammar holds in every session
in which `poll_ready` is never called in such a state (`NoLateFlush`).

Contents
  1  the grammar
  2  one write at a time, every buffer once
  3  the end of the direction, 4 the flush
  5  every session
-/
import QuicheH3.Stream.SendStream

namespace QuicheH3

open Lib

/-! ## 1. The grammar -/

/-- The command an event enqueues. -/
def SendEvent.command : SendEvent → Option SendCommand
  | .cmd c => some c
  | _ => none

def SendEvent.sentBuf : SendEvent → Option WriteBuf
  | .cmd (.send buf _ _) => some buf
  | _ => none

def SendEvent.acceptedBuf : SendEvent → Option WriteBuf
  | .accepted buf => some buf
  | _ => none

/-- The event is about a write. -/
def SendEvent.isWrite : SendEvent → Bool
  | .accepted _ | .cmd (.send ..) | .consumed _ => true
  | _ => false

/-- `Send*` followed by at most one `Finish` or `Reset`. -/
def Grammar (cmds : List SendCommand) : Prop :=
  ∃ sends last, cmds = sends ++ last ∧ (∀ c ∈ sends, c.isSend = true) ∧
    (last = [] ∨ ∃ c, last = [c] ∧ c.isSend = false)

theorem Grammar.of_sends {cmds : List SendCommand} (h : ∀ c ∈ cmds, c.isSend = true) :
    Grammar cmds := ⟨cmds, [], (List.append_nil _).symm, h, .inl rfl⟩

/-- The write whose outcome is still to be consumed, by its generation; the last event is the
head. -/
def outstanding : List SendEvent → Option Nat
  | [] => none
  | .cmd (.send _ g _) :: _ => some g
  | .consumed g :: tr => if outstanding tr = some g then none else outstanding tr
  | _ :: tr => outstanding tr

/-- A `Send` is enqueued only when no write is outstanding and the outcomes of all earlier ones
have been consumed; and their generations are smaller, until the `u64` wraps. -/
def OneOutstanding (e : SendEvent) (pre : List SendEvent) : Prop :=
  ∀ buf g n, e = .cmd (.send buf g n) → outstanding pre = none ∧
    ∀ buf' g' n', .cmd (.send buf' g' n') ∈ pre →
      .consumed g' ∈ pre ∧ (pre.length < 2 ^ 64 → g' < g)

namespace SendSession

variable {d d' : SendSession}

/-- The commands enqueued so far, in their order. -/
def commands (d : SendSession) : List SendCommand := (d.trace.filterMap SendEvent.command).reverse

/-- The buffers enqueued and the buffers accepted so far, newest first. -/
def sentBufs (d : SendSession) : List WriteBuf := d.trace.filterMap SendEvent.sentBuf

def acceptedBufs (d : SendSession) : List WriteBuf := d.trace.filterMap SendEvent.acceptedBuf

theorem Calm.commands (h : Calm d d') : d'.commands = d.commands :=
  congrArg (fun tr => (tr.filterMap SendEvent.command).reverse) h.trace

theorem Calm.sentBufs (h : Calm d d') : d'.sentBufs = d.sentBufs :=
  congrArg (List.filterMap SendEvent.sentBuf) h.trace

theorem Calm.acceptedBufs (h : Calm d d') : d'.acceptedBufs = d.acceptedBufs :=
  congrArg (List.filterMap SendEvent.acceptedBuf) h.trace

/-! ## 2. One write at a time, every buffer once -/

/-- Writes are enqueued one at a time, each buffer at most once. -/
structure Orderly (d : SendSession) : Prop where
  -- every generation was begun for a buffer of its own
  count : d.writeCompletion.generation + d.stash.toList.length ≤ d.acceptedBufs.length
  fresh : d.trace.length < 2 ^ 64 → ∀ buf g n, .cmd (.send buf g n) ∈ d.trace →
    g ≤ d.writeCompletion.generation
  current : outstanding d.trace = d.sendGen
  idle : ∀ buf g n, .cmd (.send buf g n) ∈ d.trace → d.sendGen = some g ∨ .consumed g ∈ d.trace
  ordered : Always OneOutstanding d.trace
  once : (d.stash.toList ++ d.sentBufs).Sublist d.acceptedBufs

/-- The writes are left alone. -/
structure Aside (d d' : SendSession) : Prop where
  stash : d'.stash = d.stash
  sendGen : d'.sendGen = d.sendGen
  generation : d'.writeCompletion.generation = d.writeCompletion.generation
  trace : Grows (fun e => e.isWrite = false) d.trace d'.trace

theorem Calm.aside (h : Calm d d') : Aside d d' :=
  ⟨h.stash, h.sendGen, h.generation, h.trace ▸ Grows.refl _ _⟩

theorem Aside.trans {d'' : SendSession} (h : Aside d d') (h' : Aside d' d'') : Aside d d'' :=
  ⟨h'.stash.trans h.stash, h'.sendGen.trans h.sendGen, h'.generation.trans h.generation,
    h.trace.trans h'.trace⟩

theorem Orderly.aside (ho : Orderly d) (h : Aside d d') : Orderly d' := by
  have hsent : d'.sentBufs = d.sentBufs := by
    refine Blind.grows (q := fun tr => tr.filterMap SendEvent.sentBuf) (fun e tr he => ?_) h.trace
    refine List.filterMap_cons_none ?_
    cases e with
    | cmd c => cases c <;> first | rfl | cases he
    | _ => rfl
  have hacc : d'.acceptedBufs = d.acceptedBufs := by
    refine Blind.grows (q := fun tr => tr.filterMap SendEvent.acceptedBuf) (fun e tr he => ?_)
      h.trace
    refine List.filterMap_cons_none ?_
    cases e <;> first | rfl | cases he
  have hold {buf : WriteBuf} {g n : Nat} (hm : .cmd (.send buf g n) ∈ d'.trace) :
      .cmd (.send buf g n) ∈ d.trace := h.trace.old hm nofun
  have hout : outstanding d'.trace = outstanding d.trace := by
    refine Blind.grows (q := outstanding) (fun e tr he => ?_) h.trace
    cases e with
    | cmd c => cases c <;> first | rfl | cases he
    | consumed g => cases he
    | _ => rfl
  refine ⟨?_, fun hlen buf g n hm => ?_, ?_, fun buf g n hm => ?_, ?_, ?_⟩
  · rw [h.generation, h.stash, hacc]
    exact ho.count
  · rw [h.generation]
    exact ho.fresh (Nat.lt_of_le_of_lt h.trace.suffix.length_le hlen) buf g n (hold hm)
  · rw [hout, h.sendGen]
    exact ho.current
  · rw [h.sendGen]
    exact (ho.idle buf g n (hold hm)).imp_right h.trace.mem
  · refine h.trace.always (fun e pre he buf g n heq => ?_) ho.ordered
    rw [heq] at he
    cases he
  · rw [h.stash, hsent, hacc]
    exact ho.once

theorem Orderly.calm (ho : Orderly d) (h : Calm d d') : Orderly d' := ho.aside h.aside

theorem orderly_fromHandoff (status : Option SendEnd) (rxOpen : Bool) (cap : Option Nat)
    (resident : Nat) (script : List (List WorkerAct)) :
    Orderly (fromHandoff status rxOpen cap resident script) :=
  ⟨Nat.le_refl _, fun _ => nofun, rfl, nofun, trivial, List.Sublist.slnil⟩

theorem Orderly.pollWrite (ho : Orderly d) {g : Nat} (hg : d.sendGen = some g) :
    Orderly (d.pollWrite g).2 := by
  have hy := yield_calm d
  have ho := ho.calm hy
  rw [← hy.sendGen] at hg
  unfold SendSession.pollWrite
  cases (d.yield.writeCompletion.poll g).1 with
  | none => exact ho
  | some o =>
    refine Orderly.calm ?_ (resolveWrite_calm _ o)
    have hgen : (d.yield.consume g).writeCompletion.generation =
        d.yield.writeCompletion.generation := by
      dsimp only [consume, emit, WriteCompletion.poll]
      split <;> rfl
    refine ⟨hgen ▸ ho.count, fun hlen buf g' n hm => ?_, ?_, fun buf g' n hm => ?_,
      ⟨nofun, ho.ordered⟩, ho.once⟩
    · rw [hgen]
      exact ho.fresh (Nat.lt_of_succ_lt hlen) buf g' n (by simpa [consume, emit] using hm)
    · exact if_pos (ho.current.trans hg)
    · rcases ho.idle buf g' n (by simpa [consume, emit] using hm) with hs | hc
      · cases hg.symm.trans hs
        exact .inr List.mem_cons_self
      · exact .inr (List.mem_cons_of_mem _ hc)

/-- The flush of a buffer that was in the stash, with a generation to spare for it. -/
theorem Orderly.flush (ho : Orderly d) {buf : WriteBuf} (hg : d.sendGen = none)
    (hs : d.stash = none) (hb : (buf :: d.sentBufs).Sublist d.acceptedBufs)
    (hc : d.writeCompletion.generation + 1 ≤ d.acceptedBufs.length) :
    Orderly (d.flush buf).2 := by
  have hy := yield_calm d.beginWrite
  have hacc : d.acceptedBufs.length ≤ d.trace.length := List.length_filterMap_le _ _
  have hnext (hlen : d.trace.length < 2 ^ 64) :
      d.writeCompletion.next = d.writeCompletion.generation + 1 :=
    WriteCompletion.next_of_lt (by omega)
  have hbegin : Orderly d.beginWrite := by
    refine ⟨?_, fun hlen buf g n hm => ?_, ho.current, ho.idle, ho.ordered, ho.once⟩
    · change d.writeCompletion.next + d.stash.toList.length ≤ d.acceptedBufs.length
      have hle : d.writeCompletion.next ≤ d.writeCompletion.generation + 1 := Nat.mod_le _ _
      simp only [hs, Option.toList_none, List.length_nil]
      omega
    · change g ≤ d.writeCompletion.next
      rw [hnext hlen]
      exact Nat.le_succ_of_le (ho.fresh hlen buf g n hm)
  have ho' := hbegin.calm hy
  unfold SendSession.flush cmdSend
  dsimp only
  by_cases hrx : d.beginWrite.yield.rxOpen = true
  · rw [if_pos hrx]
    refine Orderly.pollWrite ?_ rfl
    refine ⟨ho'.count, fun hlen buf' g n hm => ?_, rfl, fun buf' g n hm =>
      ?_, ⟨?_, ho'.ordered⟩, ?_⟩
    · rcases List.mem_cons.mp hm with hm | hm
      · cases hm
        exact Nat.le_of_eq hy.generation.symm
      · exact ho'.fresh (Nat.lt_of_succ_lt hlen) buf' g n hm
    · rcases List.mem_cons.mp hm with hm | hm
      · cases hm
        exact .inl rfl
      · rcases ho'.idle buf' g n hm with h0 | hc
        · rw [hy.sendGen] at h0
          cases hg.symm.trans h0
        · exact .inr (List.mem_cons_of_mem _ hc)
    · rintro _ _ _ ⟨⟩
      refine ⟨ho'.current.trans (hy.sendGen.trans hg), fun buf' g' n' hm => ?_⟩
      rw [hy.trace] at hm ⊢
      refine ⟨(ho.idle buf' g' n' hm).resolve_left ?_, fun hlen => ?_⟩
      · rw [hg]
        nofun
      · exact Nat.lt_of_le_of_lt (ho.fresh hlen buf' g' n' hm)
          (Nat.lt_of_lt_of_eq (Nat.lt_succ_self _) (hnext hlen).symm)
    · change (d.beginWrite.yield.stash.toList ++ buf :: d.beginWrite.yield.sentBufs).Sublist
        d.beginWrite.yield.acceptedBufs
      rw [hy.stash, hy.sentBufs, hy.acceptedBufs]
      change (d.stash.toList ++ buf :: d.sentBufs).Sublist d.acceptedBufs
      rw [hs]
      exact hb
  · rw [if_neg hrx]
    refine Orderly.calm ?_ (terminalNow_calm _)
    refine ho'.aside ⟨rfl, rfl, ?_, Grows.refl _ _⟩
    dsimp only [dropWrite, WriteCompletion.setIfCurrent]
    split <;> rfl

theorem Orderly.pollReady (ho : Orderly d) : Orderly d.pollReady.2 := by
  unfold SendSession.pollReady
  cases hg : d.sendGen with
  | some g => exact ho.pollWrite hg
  | none =>
    have ht := terminalNow_calm d
    have ho1 := ho.calm ht
    dsimp only
    cases d.terminalNow.1 with
    | some e => exact ho1
    | none =>
      cases hs : d.terminalNow.2.stash with
      | none => exact ho1
      | some buf =>
        -- the buffer is out of the stash, and comes back if the budget refuses it
        have hr := reserve_calm (d.terminalNow.2.setStash none) buf.remaining
        have hbuf : (buf :: (d.terminalNow.2.setStash none).sentBufs).Sublist
            (d.terminalNow.2.setStash none).acceptedBufs := by
          have h0 := ho1.once
          rwa [hs] at h0
        have hcount : d.terminalNow.2.writeCompletion.generation + 1 ≤
            d.terminalNow.2.acceptedBufs.length := by
          have h0 := ho1.count
          rwa [hs] at h0
        have ho2 : Orderly (d.terminalNow.2.setStash none) :=
          ⟨Nat.le_of_succ_le hcount, ho1.fresh, ho1.current, ho1.idle, ho1.ordered,
            (List.sublist_cons_self _ _).trans hbuf⟩
        have ho3 := ho2.calm hr
        rw [← hr.sentBufs, ← hr.acceptedBufs] at hbuf
        have hcount' : (((d.terminalNow.2.setStash none).reserve
            buf.remaining).2).writeCompletion.generation + 1 ≤
            ((d.terminalNow.2.setStash none).reserve buf.remaining).2.acceptedBufs.length := by
          rw [hr.generation, hr.acceptedBufs]
          exact hcount
        dsimp only
        split
        · exact ho3.flush (hr.sendGen.trans (ht.sendGen.trans hg)) hr.stash hbuf hcount'
        · exact ⟨hcount', ho3.fresh, ho3.current, ho3.idle, ho3.ordered, hbuf⟩

theorem Orderly.sendData (ho : Orderly d) (buf : WriteBuf) : Orderly (d.sendData buf).2 := by
  unfold SendSession.sendData
  cases hs : d.stash with
  | some b => exact ho
  | none =>
    refine ⟨?_, fun hlen buf g n hm => ?_, ho.current, fun buf g n hm => ?_,
      ⟨nofun, ho.ordered⟩, ?_⟩
    · have h0 := ho.count
      rw [hs] at h0
      exact Nat.succ_le_succ h0
    · exact ho.fresh (Nat.lt_of_succ_lt hlen) buf g n (by simpa [emit, setStash] using hm)
    · have hm' : .cmd (.send buf g n) ∈ d.trace := by simpa [emit, setStash] using hm
      exact (ho.idle buf g n hm').imp_right (List.mem_cons_of_mem _)
    · have hb := ho.once
      rw [hs] at hb
      exact hb.cons_cons buf

theorem yield_aside (d : SendSession) : Aside d d.yield := (yield_calm d).aside

theorem aside_emit (d : SendSession) {e : SendEvent} (he : e.isWrite = false) :
    Aside d (d.emit e) := ⟨rfl, rfl, rfl, (Grows.refl _ _).cons he⟩

theorem cmdSend_aside (d : SendSession) (c : SendCommand) (hc : c.isSend = false) :
    Aside d (d.cmdSend c).2 := by
  unfold cmdSend
  split
  · refine (yield_aside d).trans (aside_emit _ ?_)
    cases c <;> first | rfl | cases hc
  · exact yield_aside d

theorem finalize_aside (d : SendSession) : Aside d d.finalize := ⟨rfl, rfl, rfl, Grows.refl _ _⟩

theorem retain_aside (d : SendSession) (r : Except SendEnd Unit) : Aside d (d.retain r).2 :=
  ⟨rfl, rfl, rfl, Grows.refl _ _⟩

theorem failFinish_aside (d : SendSession) (msg : String) : Aside d (d.failFinish msg).2 :=
  (terminalNow_calm d).aside.trans (retain_aside _ _)

theorem pollFinishCompletion_aside (d : SendSession) : Aside d d.pollFinishCompletion.2 := by
  refine (yield_aside d).trans ?_
  unfold pollFinishCompletion
  split
  · exact retain_aside _ _
  · exact failFinish_aside _ _
  · exact (Calm.refl _).aside

theorem awaitFinish_aside (d : SendSession) : Aside d d.awaitFinish :=
  ⟨rfl, rfl, rfl, Grows.refl _ _⟩

theorem pollFinish_aside (d : SendSession) : Aside d d.pollFinish.2 := by
  have ht := (terminalNow_calm d).aside
  have hf := ht.trans (finalize_aside _)
  unfold pollFinish
  cases d.finishResult with
  | some r => exact (Calm.refl d).aside
  | none =>
    dsimp only
    split
    · exact pollFinishCompletion_aside d
    · split
      · split <;> exact ht
      · split
        · exact hf.trans (retain_aside _ _)
        · have hc := hf.trans (cmdSend_aside _ .finish rfl)
          split
          · exact (hc.trans (awaitFinish_aside _)).trans (pollFinishCompletion_aside _)
          · exact hc.trans (failFinish_aside _ _)

theorem reset_aside (d : SendSession) (code : Nat) : Aside d (d.reset code) := by
  unfold reset
  split
  · exact (Calm.refl d).aside
  · have hf := (finalize_aside d).trans (yield_aside _)
    have hn : Aside d (d.finalize.yield.noteReset code) :=
      hf.trans ⟨rfl, rfl, rfl, (Grows.refl _ _).cons rfl⟩
    exact hn.trans (cmdSend_aside _ _ rfl)

theorem drop_aside (d : SendSession) : Aside d d.drop := by
  have hr : Aside d d.release := ⟨rfl, rfl, rfl, Grows.refl _ _⟩
  have ht := hr.trans (terminalNowNoctx_calm _).aside
  unfold drop
  split
  · exact hr
  · split
    · exact ht
    · exact (ht.trans (finalize_aside _)).trans (cmdSend_aside _ _ rfl)

theorem Orderly.step (ho : Orderly d) (c : Call) : Orderly (d.step c) := by
  unfold SendSession.step
  split
  · exact ho
  · cases c with
    | sendData buf => exact ho.sendData buf
    | pollReady => exact ho.pollReady
    | pollFinish => exact ho.aside ((pollFinish_aside d).trans (aside_emit _ rfl))
    | reset code => exact ho.aside (reset_aside d code)
    | drop => exact ho.aside (drop_aside d)

theorem Orderly.run (ho : Orderly d) (calls : List Call) : Orderly (d.run calls) := by
  induction calls generalizing d with
  | nil => exact ho
  | cons c calls ih => exact ih (ho.step c)

/-! ## 3. The end of the direction -/

theorem commands_emit_cmd (d : SendSession) (c : SendCommand) :
    (d.emit (.cmd c)).commands = d.commands ++ [c] := by
  simp [commands, emit, SendEvent.command]

/-- No command, and the direction does not open again. -/
structure Quiet (d d' : SendSession) : Prop where
  commands : d'.commands = d.commands
  finalized : d.finalized = true → d'.finalized = true

theorem Calm.quiet (h : Calm d d') : Quiet d d' := ⟨h.commands, fun hf => h.finalized.trans hf⟩

theorem Quiet.trans {d'' : SendSession} (h : Quiet d d') (h' : Quiet d' d'') : Quiet d d'' :=
  ⟨h'.commands.trans h.commands, fun hf => h'.finalized (h.finalized hf)⟩

theorem finalize_quiet (d : SendSession) : Quiet d d.finalize := ⟨rfl, fun _ => rfl⟩

theorem retain_quiet (d : SendSession) (r : Except SendEnd Unit) : Quiet d (d.retain r).2 :=
  ⟨rfl, fun hf => hf⟩

theorem failFinish_quiet (d : SendSession) (msg : String) : Quiet d (d.failFinish msg).2 :=
  (terminalNow_calm d).quiet.trans (retain_quiet _ _)

theorem pollFinishCompletion_quiet (d : SendSession) : Quiet d d.pollFinishCompletion.2 := by
  refine (yield_calm d).quiet.trans ?_
  unfold pollFinishCompletion
  split
  · exact retain_quiet _ _
  · exact failFinish_quiet _ _
  · exact (Calm.refl _).quiet

theorem awaitFinish_quiet (d : SendSession) : Quiet d d.awaitFinish := ⟨rfl, fun hf => hf⟩

/-- At most one command, which is the last: it is enqueued while the direction is open, and
closes it. -/
def Ends (d d' : SendSession) : Prop :=
  Quiet d d' ∨ d.finalized = false ∧ d'.finalized = true ∧
    ∃ c, c.isSend = false ∧ d'.commands = d.commands ++ [c]

/-- A `cmd_tx.send` once the direction has been finalised, and what follows it. -/
theorem ends_cmdSend {d₀ d₁ : SendSession} (h₀ : d₀.finalized = false) (h : Quiet d₀ d)
    (hf : d.finalized = true) {c : SendCommand} (hc : c.isSend = false)
    (h₁ : Quiet (d.cmdSend c).2 d₁) : Ends d₀ d₁ := by
  have hy := (yield_calm d).quiet
  unfold cmdSend at h₁
  split at h₁
  · refine .inr ⟨h₀, h₁.finalized (hy.finalized hf), c, hc, ?_⟩
    rw [h₁.commands, commands_emit_cmd, hy.commands, h.commands]
  · exact .inl (h.trans (hy.trans h₁))

theorem pollFinish_ends (d : SendSession) : Ends d d.pollFinish.2 := by
  have ht := (terminalNow_calm d).quiet
  unfold pollFinish
  cases d.finishResult with
  | some r => exact .inl (Calm.refl d).quiet
  | none =>
    dsimp only
    split
    · exact .inl (pollFinishCompletion_quiet d)
    · split
      · split <;> exact .inl ht
      · rename_i hf
        have ht := ht.trans (finalize_quiet _)
        split
        · exact .inl (ht.trans (retain_quiet _ _))
        · refine ends_cmdSend (eq_false_of_ne_true hf) ht rfl (c := .finish) rfl ?_
          split
          · exact (awaitFinish_quiet _).trans (pollFinishCompletion_quiet _)
          · exact failFinish_quiet _ _

theorem reset_ends (d : SendSession) (code : Nat) : Ends d (d.reset code) := by
  unfold reset
  split
  · exact .inl (Calm.refl d).quiet
  · rename_i hf
    have hy := (finalize_quiet d).trans (yield_calm _).quiet
    have hn : Quiet d (d.finalize.yield.noteReset code) := hy.trans ⟨rfl, fun hf => hf⟩
    exact ends_cmdSend (eq_false_of_ne_true hf) hn (yield_calm d.finalize).finalized rfl
      (Calm.refl _).quiet

theorem drop_ends (d : SendSession) : Ends d d.drop := by
  have hr : Quiet d d.release := ⟨rfl, fun hf => hf⟩
  have ht := hr.trans (terminalNowNoctx_calm _).quiet
  unfold drop
  split
  · exact .inl hr
  · rename_i hf
    split
    · exact .inl ht
    · exact ends_cmdSend (eq_false_of_ne_true hf) (ht.trans (finalize_quiet _)) rfl rfl
        (Calm.refl _).quiet

/-! ## 4. The flush -/

theorem consume_quiet (d : SendSession) (g : Nat) : Quiet d (d.consume g) := ⟨rfl, fun hf => hf⟩

theorem pollWrite_quiet (d : SendSession) (g : Nat) : Quiet d (d.pollWrite g).2 := by
  refine (yield_calm d).quiet.trans ?_
  unfold pollWrite
  split
  · exact (consume_quiet _ g).trans (resolveWrite_calm _ _).quiet
  · exact (Calm.refl _).quiet

theorem beginWrite_quiet (d : SendSession) : Quiet d d.beginWrite := ⟨rfl, fun hf => hf⟩

theorem dropWrite_quiet (d : SendSession) (g bytes : Nat) : Quiet d (d.dropWrite g bytes) :=
  ⟨rfl, fun hf => hf⟩

theorem setGen_quiet (d : SendSession) (g : Nat) : Quiet d (d.setGen g) := ⟨rfl, fun hf => hf⟩

theorem setStash_quiet (d : SendSession) (b : Option WriteBuf) : Quiet d (d.setStash b) :=
  ⟨rfl, fun hf => hf⟩

/-- At most one command, a `Send`. -/
def Sends (d d' : SendSession) : Prop :=
  Quiet d d' ∨ (d.finalized = true → d'.finalized = true) ∧
    ∃ c, c.isSend = true ∧ d'.commands = d.commands ++ [c]

theorem flush_sends (d : SendSession) (buf : WriteBuf) : Sends d (d.flush buf).2 := by
  have hb := (beginWrite_quiet d).trans (yield_calm _).quiet
  unfold flush cmdSend
  dsimp only
  by_cases hrx : d.beginWrite.yield.rxOpen = true
  · rw [if_pos hrx]
    have hp := (setGen_quiet (d.beginWrite.yield.emit
      (.cmd (.send buf d.writeCompletion.begin.2 buf.remaining))) d.writeCompletion.begin.2).trans
        (pollWrite_quiet _ d.writeCompletion.begin.2)
    refine .inr ⟨fun hf => hp.finalized (hb.finalized hf),
      .send buf d.writeCompletion.begin.2 buf.remaining, rfl, ?_⟩
    exact hp.commands.trans ((commands_emit_cmd _ _).trans (congrArg (· ++ [_]) hb.commands))
  · rw [if_neg hrx]
    exact .inl (hb.trans ((dropWrite_quiet ..).trans (terminalNow_calm _).quiet))

theorem pollReady_sends (d : SendSession) : Sends d d.pollReady.2 := by
  have ht := (terminalNow_calm d).quiet
  unfold pollReady
  cases d.sendGen with
  | some g => exact .inl (pollWrite_quiet d g)
  | none =>
    dsimp only
    cases d.terminalNow.1 with
    | some e => exact .inl ht
    | none =>
      cases d.terminalNow.2.stash with
      | none => exact .inl ht
      | some buf =>
        have hr := (ht.trans (setStash_quiet _ none)).trans (reserve_calm _ buf.remaining).quiet
        dsimp only
        split
        · rcases flush_sends ((d.terminalNow.2.setStash none).reserve buf.remaining).2 buf with
            hq | ⟨hf, c, hc, hcmd⟩
          · exact .inl (hr.trans hq)
          · exact .inr ⟨fun h0 => hf (hr.finalized h0), c, hc,
              hcmd.trans (congrArg (· ++ [c]) hr.commands)⟩
        · exact .inl (hr.trans (setStash_quiet _ _))

/-- Where `poll_ready` does not flush behind a finalised direction: nothing is stashed, a write
is still in flight, or a terminal is there. -/
def FlushOk (d : SendSession) : Prop :=
  d.finalized = true → d.sendGen.isSome ∨ d.stash = none ∨ d.localTerminal.isSome ∨ d.status.isSome

instance : DecidablePred FlushOk := fun _ => inferInstanceAs (Decidable (_ → _))

theorem pollReady_quiet (h : FlushOk d) (hf : d.finalized = true) : Quiet d d.pollReady.2 := by
  have ht := terminalNow_calm d
  unfold pollReady
  cases hg : d.sendGen with
  | some g => exact pollWrite_quiet d g
  | none =>
    dsimp only
    cases hn : d.terminalNow.1 with
    | some e => exact ht.quiet
    | none =>
      have hblind (e : SendEnd) : ¬ Sees d e := fun hs => by
        rw [terminalNow_of_sees hs] at hn
        cases hn
      -- so the stash is empty
      rcases h hf with h0 | hs | hl | hs
      · rw [hg] at h0
        cases h0
      · rw [ht.stash, hs]
        exact ht.quiet
      · obtain ⟨e, he⟩ := Option.isSome_iff_exists.mp hl
        exact absurd (.inl he) (hblind e)
      · obtain ⟨e, he⟩ := Option.isSome_iff_exists.mp hs
        cases hl : d.localTerminal with
        | none => exact absurd (.inr ⟨hl, he⟩) (hblind e)
        | some e' => exact absurd (.inl hl) (hblind e')

/-! ## 5. The grammar -/

/-- The commands are in order, and all of them writes until the end. -/
structure Grammatical (d : SendSession) : Prop where
  sends : d.finalized = false → ∀ c ∈ d.commands, c.isSend = true
  grammar : Grammar d.commands

theorem Grammatical.quiet (hg : Grammatical d) (h : Quiet d d') : Grammatical d' := by
  refine ⟨fun hf => ?_, h.commands ▸ hg.grammar⟩
  rw [h.commands]
  refine hg.sends (eq_false_of_ne_true fun h0 => ?_)
  rw [h.finalized h0] at hf
  cases hf

theorem Grammatical.ends (hg : Grammatical d) (h : Ends d d') : Grammatical d' := by
  rcases h with hq | ⟨hf, hf', c, hc, hcmd⟩
  · exact hg.quiet hq
  · refine ⟨fun h0 => ?_, ?_⟩
    · rw [hf'] at h0
      cases h0
    · exact ⟨d.commands, [c], hcmd, hg.sends hf, .inr ⟨c, rfl, hc⟩⟩

theorem Grammatical.sending (hg : Grammatical d) (hf : d.finalized = false) (h : Sends d d') :
    Grammatical d' := by
  rcases h with hq | ⟨-, c, hc, hcmd⟩
  · exact hg.quiet hq
  · have hall : ∀ c' ∈ d'.commands, c'.isSend = true := by
      intro c' hm
      rw [hcmd] at hm
      rcases List.mem_append.mp hm with hm | hm
      · exact hg.sends hf c' hm
      · rw [List.mem_singleton.mp hm]
        exact hc
    exact ⟨fun _ => hall, .of_sends hall⟩

theorem sendData_quiet (d : SendSession) (buf : WriteBuf) : Quiet d (d.sendData buf).2 := by
  unfold SendSession.sendData
  split
  · exact (Calm.refl d).quiet
  · exact ⟨rfl, fun hf => hf⟩

theorem Grammatical.step (hg : Grammatical d) (c : Call) (hc : c = .pollReady → FlushOk d) :
    Grammatical (d.step c) := by
  unfold SendSession.step
  split
  · exact hg
  · cases c with
    | sendData buf => exact hg.quiet (sendData_quiet d buf)
    | pollReady =>
      cases hf : d.finalized with
      | true => exact hg.quiet (pollReady_quiet (hc rfl) hf)
      | false => exact hg.sending hf (pollReady_sends d)
    | pollFinish => exact (hg.ends (pollFinish_ends d)).quiet ⟨rfl, fun hf => hf⟩
    | reset code => exact hg.ends (reset_ends d code)
    | drop => exact hg.ends (drop_ends d)

/-- Every `poll_ready` of the session is made where it does not flush late. -/
def NoLateFlush (d : SendSession) : List Call → Prop
  | [] => True
  | c :: calls => (c = .pollReady → FlushOk d) ∧ NoLateFlush (d.step c) calls

instance NoLateFlush.decidable : ∀ (calls : List Call) (d : SendSession),
    Decidable (NoLateFlush d calls)
  | [], _ => .isTrue trivial
  | _ :: calls, d => @instDecidableAnd _ _ _ (NoLateFlush.decidable calls (d.step _))

theorem Grammatical.run (hg : Grammatical d) {calls : List Call} (h : NoLateFlush d calls) :
    Grammatical (d.run calls) := by
  induction calls generalizing d with
  | nil => exact hg
  | cons c calls ih => exact ih (hg.step c h.1) h.2

/-- **The command grammar of a send half.**  Take any session, with any completions, terminals and
closing of the channel in between, in which `poll_ready` is never called with a buffer in the
stash, no write in flight and no terminal to be seen once the direction has been finalised.  Then
the commands are writes followed by at most one `Finish` or `Reset`.  In every session, a `Send` is
enqueued only when the outcome of the one before it, and those of all earlier ones, have been
consumed, and the buffers enqueued are among those accepted, each once and in order. -/
theorem command_grammar (status : Option SendEnd) (rxOpen : Bool) (cap : Option Nat)
    (resident : Nat) (script : List (List WorkerAct)) (calls : List Call)
    (h : NoLateFlush (fromHandoff status rxOpen cap resident script) calls) :
    let d := (fromHandoff status rxOpen cap resident script).run calls
    Grammar d.commands ∧ Always OneOutstanding d.trace ∧ d.sentBufs.Sublist d.acceptedBufs := by
  have ho := (orderly_fromHandoff status rxOpen cap resident script).run calls
  have hg : Grammatical (fromHandoff status rxOpen cap resident script) :=
    ⟨fun _ => nofun, .of_sends nofun⟩
  exact ⟨(hg.run h).grammar, ho.ordered, (List.sublist_append_right _ _).trans ho.once⟩

def oneByte : WriteBuf := ⟨[[1]], by decide⟩

/-- A write, a second one once the first has completed, and the end. -/
def writeTwice : List Call :=
  [.sendData oneByte, .pollReady, .sendData oneByte, .pollReady, .pollReady, .pollFinish, .drop]

def completeFirst : List (List WorkerAct) :=
  [[], [], [], [], [], [.settleSend 1 (.done (.ok ()))]]

theorem writeTwice_grammar :
    NoLateFlush (fromHandoff none true none 0 completeFirst) writeTwice ∧
      ((fromHandoff none true none 0 completeFirst).run writeTwice).commands =
        [.send oneByte 1 1, .send oneByte 2 1, .finish] ∧
      Grammar ((fromHandoff none true none 0 completeFirst).run writeTwice).commands := by
  have h : NoLateFlush (fromHandoff none true none 0 completeFirst) writeTwice := by decide +kernel
  exact ⟨h, by decide +kernel, (command_grammar _ _ _ _ _ _ h).1⟩

/-- `poll_finish` enqueues the `Finish` and is pending; the buffer stashed next is flushed behind
it. -/
def writeLate : List Call := [.pollFinish, .sendData oneByte, .pollReady]

theorem writeLate_not_grammar :
    ((fromHandoff none true none 0 []).run writeLate).commands = [.finish, .send oneByte 1 1] ∧
      ¬ Grammar ((fromHandoff none true none 0 []).run writeLate).commands := by
  have hcmd : ((fromHandoff none true none 0 []).run writeLate).commands =
      [.finish, .send oneByte 1 1] := by decide +kernel
  refine ⟨hcmd, ?_⟩
  rw [hcmd]
  rintro ⟨sends, last, heq, hs, hl⟩
  cases sends with
  | nil =>
    rcases hl with rfl | ⟨c, rfl, -⟩
    · cases heq
    · cases heq
  | cons c sends =>
    have hc := hs c List.mem_cons_self
    rw [← (List.cons.inj heq).1] at hc
    cases hc

end SendSession

end QuicheH3
