/-
# The send half as the application uses it (`stream.rs`)

`H3SendStream` is what `h3` holds: `send_data` stashes one buffer, `poll_ready` flushes it as a
`Send` and reports its completion once, `poll_finish`, `reset` and `drop` end the direction.  The
protocol state is spread over seven fields of the object and the cells it shares with the worker,
and each method guards on a subset of them of its own.

A `SendSession` is the object with those cells.  Each access to a cell is preceded by the next
batch of a script of worker actions (`yield`): completions, a published terminal, the closing of
the command channel, other senders' use of the byte budget.  The theorems hold for every script.
-/
import QuicheH3.Buffer
import QuicheH3.Lib.Trace
import QuicheH3.Stream.Completion

namespace QuicheH3

open Lib

/-! ## 1. The object and what it shares -/

/-- What a `poll` returns; `none` is `Pending`. -/
abbrev SendPoll := Option (Except StreamErrorIncoming Unit)

/-- `H3SendStream`, without the handles of the shared cells.  `finishCompletion` says that the
receiver of the `Finish` in flight is held. -/
structure H3SendStream where
  stash : Option WriteBuf
  sendGen : Option Nat
  finishCompletion : Bool
  finishResult : Option (Except SendEnd Unit)
  finalized : Bool
  localTerminal : Option SendEnd

/-- The one-shot reply of the `Finish` that `poll_finish` sends: `settled none` is a sender dropped
without a value. -/
inductive FinishReply
  | unsent
  | waiting
  | settled (result : Option (Except SendEnd Unit))
  deriving DecidableEq

/-- The commands of a send half.  The completer of a `Send` is its generation. -/
inductive SendCommand
  | send (buf : WriteBuf) (done : Nat) (permit : Nat)
  | finish
  | reset (code : Nat)
  deriving DecidableEq

def SendCommand.isSend : SendCommand → Bool
  | .send .. => true
  | _ => false

/-- What is recorded of a session: buffers accepted by `send_data`, commands enqueued, outcomes of
writes consumed, answers of `poll_finish`, and the `reset` that took effect with the published
status it saw. -/
inductive SendEvent
  | accepted (buf : WriteBuf)
  | cmd (c : SendCommand)
  | consumed (g : Nat)
  | answered (a : SendPoll)
  | resetBy (code : Nat) (seen : Option SendEnd)
  deriving DecidableEq

/-- One action of the worker, or of the other users of the byte budget. -/
inductive WorkerAct
  | publish (e : SendEnd)
  | settleSend (g : Nat) (o : WriteOutcome SendEnd)
  | settleFinish (result : Option (Except SendEnd Unit))
  | closeChannel
  | setResident (n : Nat)

/-- A send stream with what the worker shares with it, and the session so far. -/
structure SendSession extends H3SendStream where
  status : Option SendEnd
  writeCompletion : WriteCompletion SendEnd
  finish : FinishReply
  rxOpen : Bool
  cap : Option Nat
  resident : Nat
  waiting : Bool
  dropped : Bool
  script : List (List WorkerAct)
  trace : List SendEvent

namespace SendSession

/-- `from_handoff`. -/
def fromHandoff (status : Option SendEnd) (rxOpen : Bool) (cap : Option Nat) (resident : Nat)
    (script : List (List WorkerAct)) : SendSession where
  stash := none
  sendGen := none
  finishCompletion := false
  finishResult := none
  finalized := false
  localTerminal := none
  status := status
  writeCompletion := .new
  finish := .unsent
  rxOpen := rxOpen
  cap := cap
  resident := resident
  waiting := false
  dropped := false
  script := script
  trace := []

def emit (d : SendSession) (e : SendEvent) : SendSession := { d with trace := e :: d.trace }

def act (d : SendSession) : WorkerAct → SendSession
  | .publish e => { d with status := cellSet d.status e }
  | .settleSend g o => { d with writeCompletion := d.writeCompletion.setIfCurrent g o }
  | .settleFinish result =>
    if d.finish = .waiting then { d with finish := .settled result } else d
  | .closeChannel => { d with rxOpen := false }
  | .setResident n => { d with resident := n }

/-- The worker's next batch. -/
def yield (d : SendSession) : SendSession :=
  match d.script with
  | [] => d
  | batch :: rest => batch.foldl act { d with script := rest }

/-! ## 2. The methods -/

/-- `terminal_now`: a local reset outranks the published status, which is read, the waker
registered, and read again. -/
def terminalNow (d : SendSession) : Option SendEnd × SendSession :=
  match d.localTerminal with
  | some e => (some e, d)
  | none =>
    match d.yield.status with
    | some e => (some e, d.yield)
    | none => (d.yield.yield.status, d.yield.yield)

/-- `terminal_now_noctx`. -/
def terminalNowNoctx (d : SendSession) : Option SendEnd × SendSession :=
  match d.localTerminal with
  | some e => (some e, d)
  | none => (d.yield.status, d.yield)

/-- `sticky_or_internal`. -/
def stickyOrInternal (d : SendSession) (msg : String) : StreamErrorIncoming × SendSession :=
  (match d.terminalNow.1 with
    | some e => e.toH3
    | none => internalStreamError msg, d.terminalNow.2)

/-- `sticky_send_end_or_internal`. -/
def stickySendEndOrInternal (d : SendSession) (msg : String) : SendEnd × SendSession :=
  (d.terminalNow.1.getD (.conn (.internal msg)), d.terminalNow.2)

/-- A result as `h3` is told. -/
def answer (r : Except SendEnd Unit) : Except StreamErrorIncoming Unit :=
  match r with
  | .ok () => .ok ()
  | .error e => .error e.toH3

/-- `resolve_write`. -/
def resolveWrite (d : SendSession) (o : WriteOutcome SendEnd) : SendPoll × SendSession :=
  match o with
  | .done result => (some (answer result), d)
  | .cancelled =>
    let p := d.stickyOrInternal "send completion cancelled without a terminal"
    (some (.error p.1), p.2)

/-- The outcome of generation `g` is taken out of the cell, and its write is no longer in flight. -/
def consume (d : SendSession) (g : Nat) : SendSession :=
  { d with writeCompletion := (d.writeCompletion.poll g).2, sendGen := none }.emit (.consumed g)

/-- The poll of a write in flight, which is reported once. -/
def pollWrite (d : SendSession) (g : Nat) : SendPoll × SendSession :=
  match (d.yield.writeCompletion.poll g).1 with
  | some o => (d.yield.consume g).resolveWrite o
  | none => (none, d.yield)

/-- The admission of `poll_ready`: `try_reserve`, and once more after `register_waiter`. -/
def reserve (d : SendSession) (bytes : Nat) : Bool × SendSession :=
  let d := d.yield
  match tryReserve d.cap d.resident bytes with
  | some next => (true, { d with resident := next })
  | none =>
    let d := { d with waiting := true }.yield
    match tryReserve d.cap d.resident bytes with
    | some next => (true, { d with resident := next })
    | none => (false, d)

/-- `cmd_tx.send`: whether the worker still has the receiver. -/
def cmdSend (d : SendSession) (c : SendCommand) : Bool × SendSession :=
  if d.yield.rxOpen then (true, d.yield.emit (.cmd c)) else (false, d.yield)

/-- Admitted: `unregister_waiter`, and a fresh generation of the completion. -/
def beginWrite (d : SendSession) : SendSession :=
  { d with waiting := false, writeCompletion := d.writeCompletion.begin.1 }

def setGen (d : SendSession) (g : Nat) : SendSession := { d with sendGen := some g }

/-- A `Send` that was not enqueued is dropped: its completer cancels, its permit gives the bytes
back. -/
def dropWrite (d : SendSession) (g bytes : Nat) : SendSession :=
  { d with
    writeCompletion := d.writeCompletion.setIfCurrent g .cancelled
    resident := d.resident - bytes }

/-- `poll_ready` once admitted: one `Send`, and the first poll of its completion. -/
def flush (d : SendSession) (buf : WriteBuf) : SendPoll × SendSession :=
  let g := d.writeCompletion.begin.2
  let p := d.beginWrite.cmdSend (.send buf g buf.remaining)
  if p.1 then (p.2.setGen g).pollWrite g
  else
    let q := (p.2.dropWrite g buf.remaining).stickyOrInternal
      "send channel closed without a terminal"
    (some (.error q.1), q.2)

def setStash (d : SendSession) (stash : Option WriteBuf) : SendSession := { d with stash := stash }

/-- `poll_ready`. -/
def pollReady (d : SendSession) : SendPoll × SendSession :=
  match d.sendGen with
  | some g => d.pollWrite g
  | none =>
    let d1 := d.terminalNow.2
    match d.terminalNow.1 with
    | some e => (some (.error e.toH3), d1)
    | none =>
      match d1.stash with
      | none => (some (.ok ()), d1)
      | some buf =>
        let p := (d1.setStash none).reserve buf.remaining
        if p.1 then p.2.flush buf else (none, p.2.setStash (some buf))

/-- `send_data`. -/
def sendData (d : SendSession) (buf : WriteBuf) : Except StreamErrorIncoming Unit × SendSession :=
  match d.stash with
  | some _ =>
    (.error (internalStreamError
      "send_data called while a previous write is still pending poll_ready"), d)
  | none => (.ok (), (d.setStash (some buf)).emit (.accepted buf))

def finalize (d : SendSession) : SendSession := { d with finalized := true }

/-- The answer is retained, and the receiver of the `Finish` given up. -/
def retain (d : SendSession) (r : Except SendEnd Unit) : SendPoll × SendSession :=
  (some (answer r), { d with finishCompletion := false, finishResult := some r })

/-- A finish that failed without an answer of the worker. -/
def failFinish (d : SendSession) (msg : String) : SendPoll × SendSession :=
  (d.stickySendEndOrInternal msg).2.retain (.error (d.stickySendEndOrInternal msg).1)

/-- The poll of a `Finish` in flight. -/
def pollFinishCompletion (d : SendSession) : SendPoll × SendSession :=
  match d.yield.finish with
  | .settled (some result) => d.yield.retain result
  | .settled none => d.yield.failFinish "finish completion cancelled without a terminal"
  | _ => (none, d.yield)

/-- The reply channel of a `Finish` that was enqueued. -/
def awaitFinish (d : SendSession) : SendSession :=
  { d with finishCompletion := true, finish := .waiting }

/-- `poll_finish`. -/
def pollFinish (d : SendSession) : SendPoll × SendSession :=
  match d.finishResult with
  | some result => (some (answer result), d)
  | none =>
    if d.finishCompletion then d.pollFinishCompletion
    else
      let d1 := d.terminalNow.2
      if d.finalized then
        match d.terminalNow.1 with
        | some e => (some (.error e.toH3), d1)
        | none => (some (.ok ()), d1)
      else
        match d.terminalNow.1 with
        | some e => d1.finalize.retain (.error e)
        | none =>
          let p := d1.finalize.cmdSend .finish
          if p.1 then p.2.awaitFinish.pollFinishCompletion
          else p.2.failFinish "finish channel closed without a terminal"

/-- What `reset` does to the object: a published terminal is not masked. -/
def noteReset (d : SendSession) (code : Nat) : SendSession :=
  { d with
    localTerminal := if d.status.isNone then some (.reset code) else d.localTerminal }.emit
      (.resetBy code d.status)

/-- `reset`. -/
def reset (d : SendSession) (code : Nat) : SendSession :=
  if d.finalized then d
  else ((d.finalize.yield.noteReset code).cmdSend (.reset code)).2

/-- The end of the object: no call follows, and its waiter is unregistered. -/
def release (d : SendSession) : SendSession := { d with waiting := false, dropped := true }

/-- `Drop for H3SendStream`. -/
def drop (d : SendSession) : SendSession :=
  if d.finalized then d.release
  else
    match d.release.terminalNowNoctx.1 with
    | some _ => d.release.terminalNowNoctx.2
    | none => (d.release.terminalNowNoctx.2.finalize.cmdSend .finish).2

/-! ## 3. Sessions -/

/-- A call of the owner of the half. -/
inductive Call
  | sendData (buf : WriteBuf)
  | pollReady
  | pollFinish
  | reset (code : Nat)
  | drop
  deriving DecidableEq

/-- One call; nothing is called after the drop. -/
def step (d : SendSession) (c : Call) : SendSession :=
  if d.dropped then d
  else
    match c with
    | .sendData buf => (d.sendData buf).2
    | .pollReady => d.pollReady.2
    | .pollFinish => d.pollFinish.2.emit (.answered d.pollFinish.1)
    | .reset code => d.reset code
    | .drop => d.drop

def run (d : SendSession) (calls : List Call) : SendSession := calls.foldl step d

/-! ## 4. What the worker can do in between -/

/-- `d'` is `d` after actions of the worker: the object and the record are as they were, a
published status stays, and the reply of a `Finish` is settled at most once. -/
structure Calm (d d' : SendSession) : Prop where
  obj : d'.toH3SendStream = d.toH3SendStream
  trace : d'.trace = d.trace
  dropped : d'.dropped = d.dropped
  generation : d'.writeCompletion.generation = d.writeCompletion.generation
  status : ∀ e, d.status = some e → d'.status = some e
  finish : d'.finish = d.finish ∨ d.finish = .waiting ∧ ∃ r, d'.finish = .settled r

namespace Calm

variable {d d' d'' : SendSession}

theorem refl (d : SendSession) : Calm d d := ⟨rfl, rfl, rfl, rfl, fun _ h => h, .inl rfl⟩

theorem trans (h : Calm d d') (h' : Calm d' d'') : Calm d d'' := by
  refine ⟨h'.obj.trans h.obj, h'.trace.trans h.trace, h'.dropped.trans h.dropped,
    h'.generation.trans h.generation, fun e he => h'.status e (h.status e he), ?_⟩
  rcases h.finish with hf | ⟨hw, r, hf⟩
  · rw [← hf]
    exact h'.finish
  · rcases h'.finish with hf' | ⟨hw', -⟩
    · exact .inr ⟨hw, r, hf'.trans hf⟩
    · rw [hf] at hw'
      cases hw'

theorem stash (h : Calm d d') : d'.stash = d.stash := congrArg H3SendStream.stash h.obj

theorem sendGen (h : Calm d d') : d'.sendGen = d.sendGen := congrArg H3SendStream.sendGen h.obj

theorem finalized (h : Calm d d') : d'.finalized = d.finalized :=
  congrArg H3SendStream.finalized h.obj

theorem localTerminal (h : Calm d d') : d'.localTerminal = d.localTerminal :=
  congrArg H3SendStream.localTerminal h.obj

theorem finishResult (h : Calm d d') : d'.finishResult = d.finishResult :=
  congrArg H3SendStream.finishResult h.obj

theorem finishCompletion (h : Calm d d') : d'.finishCompletion = d.finishCompletion :=
  congrArg H3SendStream.finishCompletion h.obj

end Calm

variable {d d' : SendSession}

theorem act_calm (d : SendSession) (a : WorkerAct) : Calm d (d.act a) := by
  cases a with
  | publish e =>
    refine ⟨rfl, rfl, rfl, rfl, fun e' he => ?_, .inl rfl⟩
    dsimp only [act]
    rw [he, cellSet_some]
  | settleSend g o =>
    refine ⟨rfl, rfl, rfl, ?_, fun _ h => h, .inl rfl⟩
    dsimp only [act, WriteCompletion.setIfCurrent]
    split <;> rfl
  | settleFinish result =>
    dsimp only [act]
    split
    · exact ⟨rfl, rfl, rfl, rfl, fun _ h => h, .inr ⟨‹_›, result, rfl⟩⟩
    · exact .refl d
  | closeChannel | setResident => exact ⟨rfl, rfl, rfl, rfl, fun _ h => h, .inl rfl⟩

theorem yield_calm (d : SendSession) : Calm d d.yield := by
  have hfold : ∀ (batch : List WorkerAct) (d : SendSession), Calm d (batch.foldl act d) := by
    intro batch
    induction batch with
    | nil => exact .refl
    | cons a batch ih => exact fun d => (act_calm d a).trans (ih (d.act a))
  unfold yield
  split
  · exact .refl d
  · rename_i batch rest hs
    have hpop : Calm d { d with script := rest } :=
      ⟨rfl, rfl, rfl, rfl, fun _ h => h, .inl rfl⟩
    exact hpop.trans (hfold batch _)

/-- The terminal the object sees. -/
def Sees (d : SendSession) (e : SendEnd) : Prop :=
  d.localTerminal = some e ∨ d.localTerminal = none ∧ d.status = some e

theorem Sees.calm {e : SendEnd} (hs : Sees d e) (h : Calm d d') : Sees d' e := by
  unfold Sees
  rw [h.localTerminal]
  exact hs.imp_right fun hs => ⟨hs.1, h.status e hs.2⟩

theorem terminalNow_calm (d : SendSession) : Calm d d.terminalNow.2 := by
  unfold terminalNow
  split
  · exact .refl d
  · split
    · exact yield_calm d
    · exact (yield_calm d).trans (yield_calm _)

/-- A terminal that is there is found. -/
theorem terminalNow_of_sees {e : SendEnd} (h : Sees d e) : d.terminalNow.1 = some e := by
  have hy := yield_calm d
  unfold terminalNow
  rcases h with hl | ⟨hl, hs⟩
  · rw [hl]
  · rw [hl]
    dsimp only
    rw [hy.status e hs]

theorem terminalNowNoctx_calm (d : SendSession) : Calm d d.terminalNowNoctx.2 := by
  unfold terminalNowNoctx
  split
  · exact .refl d
  · exact yield_calm d

theorem resolveWrite_calm (d : SendSession) (o : WriteOutcome SendEnd) :
    Calm d (d.resolveWrite o).2 := by
  cases o with
  | done result => exact .refl d
  | cancelled => exact terminalNow_calm d

theorem reserve_calm (d : SendSession) (bytes : Nat) : Calm d (d.reserve bytes).2 := by
  have hset (d : SendSession) (n : Nat) (b : Bool) :
      Calm d { d with resident := n, waiting := b } :=
    ⟨rfl, rfl, rfl, rfl, fun _ h => h, .inl rfl⟩
  unfold reserve
  dsimp only
  split
  · exact (yield_calm d).trans (hset ..)
  · have hw := ((yield_calm d).trans (hset _ d.yield.resident true)).trans (yield_calm _)
    split
    · exact hw.trans (hset ..)
    · exact hw

end SendSession

end QuicheH3
