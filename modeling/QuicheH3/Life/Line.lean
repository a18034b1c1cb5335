/-
# The send line of one stream

What a stream sends passes through three places: its commands, the operations queued on its
registry entry, and the one write that is held back.  The moves of a stream (`Life/Machine.lean`)
also end directions, register and clean up; seen from the send line there are twenty steps, and
this module says once which of them a move takes.  It needs one thing of the stream: a send half is
built for it only while it has no entry.  `Slot` gives that for a stream that is opened once
(`Slot.line`).
-/
import QuicheH3.Life.Fate

namespace QuicheH3

open Lib

/-- The operation a command asks for, with its stream. -/
def DriverCommand.op : DriverCommand → Option (Nat × SendOp)
  | .send id buf done permit => some (id, .write buf done permit)
  | .finish id done => some (id, .finish done)
  | _ => none

/-! ## 1. The line -/

/-- The commands of a stream on their way, its send entry and the history. -/
@[ext]
structure Line where
  send : Option StreamSendState
  cmds : List DriverCommand
  hist : List Event

def Life.line (v : Life) : Line := ⟨v.send, v.cmds, v.hist⟩

/-- The event is not about what stream `id` sends. -/
def Event.beside (id : Nat) (tr : List Event) : Event → Prop
  | .streamSend i _ _ _ | .handle i _ | .sendOpen i _ => i ≠ id
  | .submit cmd => cmd.streamId ≠ some id
  | .sendSet c _ => ¬ CellOf c id tr
  | .resolve t _ | .cancel t => ¬ Submitted t id tr
  | _ => True

namespace Line

/-- The twenty steps. -/
inductive Move (id : Nat) (ok : Bytes → Nat → Prop) : Line → Line → Prop
  | beside (l : Line) (tr : List Event) (hg : Grows (Event.beside id l.hist) l.hist tr) :
      Move id ok l { l with hist := tr }
  | front (l : Line) (v : Life) (cs : List DriverCommand) (tr : List Event) (hv : v.line = l)
      (hf : Life.Front id v cs tr) :
      Move id ok l { l with cmds := l.cmds ++ cs, hist := tr }
  -- commands
  | skip (l : Line) (cmd : DriverCommand) (rest : List DriverCommand) (hc : l.cmds = cmd :: rest)
      (hop : cmd.op = none) : Move id ok l { l with cmds := rest }
  | queue (l : Line) (cmd : DriverCommand) (rest : List DriverCommand) (op : SendOp)
      (s : StreamSendState) (hc : l.cmds = cmd :: rest) (hop : cmd.op = some (id, op))
      (hs : l.send = some s) (ht : s.terminal = none) :
      Move id ok l { l with send := some { s with sendOps := s.sendOps ++ [op] }, cmds := rest }
  | refuse (l : Line) (cmd : DriverCommand) (rest : List DriverCommand) (op : SendOp)
      (s : StreamSendState) (e : SendEnd) (hc : l.cmds = cmd :: rest)
      (hop : cmd.op = some (id, op)) (hs : l.send = some s) (ht : s.terminal = some e) :
      Move id ok l { l with
        send := some s, cmds := rest, hist := .resolve op.tok (.error e) :: l.hist }
  -- entries
  | make (l : Line) (c : Nat) (hs : l.send = none) (hn : FreshCell c l.hist) :
      Move id ok l { l with send := some (.new c), hist := .sendOpen id c :: l.hist }
  | opened (l : Line) (c : Nat) (hs : l.send = none) (hn : FreshCell c l.hist) :
      Move id ok l { l with
        send := some (.new c), hist := .sendOpen id c :: .handle id c :: l.hist }
  | retained (l : Line) (c : Nat) (e : SendEnd) (hn : FreshCell c l.hist) :
      Move id ok l { l with hist := .sendSet c e :: .handle id c :: l.hist }
  | lapse (l : Line) (c : Nat) (hs : l.send = some (.new c))
      (hf : ∃ t, .submit (.finish id t) ∈ l.hist) :
      Move id ok l { l with send := none, hist := .sendClose id c :: l.hist }
  | reclaim (l : Line) (s : StreamSendState) (hs : l.send = some s) (hf : s.finished = true) :
      Move id ok l { l with
        send := none, hist := .sendClose id s.status :: cancelled s.sendOps l.hist }
  | ended (l : Line) (s : StreamSendState) (e : SendEnd) (reset : Option Nat) (fin : Bool)
      (tr : List Event) (hs : l.send = some s) (ho : s.Open)
      (hc : SetCell s.status e l.hist tr) :
      Move id ok l { l with
        send := some { s with
          terminal := some e, held := none, sendOps := [], pendingReset := reset, finished := fin }
        hist := resolved s.sendOps (.error e) tr }
  | served (l : Line) (s : StreamSendState) (code : Nat) (hs : l.send = some s)
      (hp : s.pendingReset = some code) :
      Move id ok l { l with send := some { s with pendingReset := none, finished := true } }
  -- offers
  | sendErr (l : Line) (s : StreamSendState) (data : Bytes) (fin : Bool) (err : QuicheError)
      (hs : l.send = some s) (ho : s.Open) (hw : s.sendOps ≠ [] ∨ s.held.isSome) :
      Move id ok l { l with hist := .streamSend id data fin (.error err) :: l.hist }
  | flush (l : Line) (s : StreamSendState) (buf : WriteBuf) (fin : Bool) (n : Nat)
      (hs : l.send = some s) (ho : s.Open) (hh : s.held = some buf)
      (hr : buf.hasRemaining = true) (hn : ok buf.offered n)
      (hm : fin = false ∨ (buf.advance n).hasRemaining = true) :
      Move id ok l { l with
        send := some { s with
          held := if (buf.advance n).hasRemaining then some (buf.advance n) else none }
        hist := .streamSend id buf.offered (buf.offerFin fin) (.ok n) :: l.hist }
  | flushFin (l : Line) (s : StreamSendState) (buf : WriteBuf) (n t : Nat) (ops : List SendOp)
      (hs : l.send = some s) (ho : s.Open) (hh : s.held = some buf)
      (hr : buf.hasRemaining = true) (hop : s.sendOps = .finish t :: ops) (hn : ok buf.offered n)
      (hm : (buf.advance n).hasRemaining = false) :
      Move id ok l { l with
        send := some { s with held := none, sendOps := ops, finished := true }
        hist := .resolve t (.ok ()) ::
          .streamSend id buf.offered (buf.offerFin true) (.ok n) :: l.hist }
  | emptyHeld (l : Line) (s : StreamSendState) (buf : WriteBuf) (hs : l.send = some s)
      (hh : s.held = some buf) (hr : buf.hasRemaining = false) :
      Move id ok l { l with send := some { s with held := none } }
  | loneFin (l : Line) (s : StreamSendState) (n t : Nat) (ops : List SendOp)
      (hs : l.send = some s) (ho : s.Open) (hh : s.held = none)
      (hop : s.sendOps = .finish t :: ops) (hn : ok [] n) :
      Move id ok l { l with
        send := some { s with sendOps := ops, finished := true }
        hist := .resolve t (.ok ()) :: .streamSend id [] true (.ok n) :: l.hist }
  -- a held write that has become empty is dropped, and the `Finish` behind it completes
  | emptyFin (l : Line) (s : StreamSendState) (buf : WriteBuf) (t : Nat) (ops : List SendOp)
      (hs : l.send = some s) (ho : s.Open) (hh : s.held = some buf)
      (hr : buf.hasRemaining = false) (hop : s.sendOps = .finish t :: ops) :
      Move id ok l { l with
        send := some { s with held := none, sendOps := ops, finished := true }
        hist := .resolve t (.ok ()) :: l.hist }
  | hold (l : Line) (s : StreamSendState) (buf : WriteBuf) (t : Nat) (p : Option Nat)
      (ops : List SendOp) (hs : l.send = some s) (ho : s.Open) (hh : s.held = none)
      (hop : s.sendOps = .write buf t p :: ops) (hr : 0 < buf.remaining) :
      Move id ok l { l with
        send := some { s with sendOps := ops, held := some buf }
        hist := .resolve t (.ok ()) :: l.hist }
  | offer (l : Line) (s : StreamSendState) (buf : WriteBuf) (t : Nat) (p : Option Nat)
      (ops : List SendOp) (n : Nat) (hs : l.send = some s) (ho : s.Open) (hh : s.held = none)
      (hop : s.sendOps = .write buf t p :: ops) (hn : ok buf.offered n)
      (hm : (buf.advance n).hasRemaining = true) :
      Move id ok l { l with
        send := some { s with sendOps := .write (buf.advance n) t p :: ops }
        hist := .streamSend id buf.offered false (.ok n) :: l.hist }
  | accept (l : Line) (s : StreamSendState) (buf : WriteBuf) (t : Nat) (p : Option Nat)
      (ops : List SendOp) (n : Nat) (hs : l.send = some s) (ho : s.Open) (hh : s.held = none)
      (hop : s.sendOps = .write buf t p :: ops) (hr : buf.hasRemaining = true)
      (hn : ok buf.offered n) (hm : (buf.advance n).hasRemaining = false) :
      Move id ok l { l with
        send := some { s with sendOps := ops }
        hist := .resolve t (.ok ()) :: .streamSend id buf.offered false (.ok n) :: l.hist }
  | skipWrite (l : Line) (s : StreamSendState) (buf : WriteBuf) (t : Nat) (p : Option Nat)
      (ops : List SendOp) (hs : l.send = some s) (ho : s.Open) (hh : s.held = none)
      (hop : s.sendOps = .write buf t p :: ops) (hr : buf.hasRemaining = false) :
      Move id ok l { l with
        send := some { s with sendOps := ops }, hist := .resolve t (.ok ()) :: l.hist }

abbrev Moves (id : Nat) (ok : Bytes → Nat → Prop) : Line → Line → Prop :=
  Relation.ReflTransGen (Move id ok)

variable {id : Nat} {ok : Bytes → Nat → Prop} {l l' : Line}

theorem suffix_cons_cons (a b : Event) (tr : List Event) : tr <:+ a :: b :: tr :=
  ⟨[a, b], rfl⟩

theorem Move.suffix (h : Move id ok l l') : l.hist <:+ l'.hist := by
  cases h with
  | beside tr hg => exact hg.suffix
  | front v cs tr hv hf =>
    subst hv
    exact hf.grows.suffix
  | reclaim s hs hf =>
    have hcan : l.hist <:+ cancelled s.sendOps l.hist :=
      (World.grows_cancelled (C := fun _ => True) _ _ fun _ _ => trivial).suffix
    exact hcan.trans (List.suffix_cons _ _)
  | ended s e reset fin tr hs ho hc => exact hc.suffix.trans (Life.suffix_resolved _ _ _)
  | opened | retained | flushFin | loneFin | accept => exact suffix_cons_cons _ _ _
  | _ => first | exact List.suffix_rfl | exact List.suffix_cons _ _

/-- An entry keeps its status cell, and a new one is recorded with its own. -/
theorem Move.status (h : Move id ok l l') : ∀ s', l'.send = some s' →
    (∃ s, l.send = some s ∧ s'.status = s.status) ∨ .sendOpen id s'.status ∈ l'.hist := by
  intro s' hs'
  have hkeep {s x : StreamSendState} (hs : l.send = some s) (hx : some x = some s')
      (hst : x.status = s.status) : (∃ s, l.send = some s ∧ s'.status = s.status) ∨
        .sendOpen id s'.status ∈ l'.hist := by
    cases hx
    exact .inl ⟨s, hs, hst⟩
  cases h with
  | beside | front | skip | retained | sendErr => exact .inl ⟨s', hs', rfl⟩
  | make c | opened c =>
    cases hs'
    exact .inr List.mem_cons_self
  | lapse | reclaim => cases hs'
  | queue _ _ _ _ _ _ hs | refuse _ _ _ _ _ _ _ hs | ended _ _ _ _ _ hs | served _ _ hs
  | flush _ _ _ _ hs | flushFin _ _ _ _ _ hs | emptyHeld _ _ hs | loneFin _ _ _ _ hs
  | emptyFin _ _ _ _ hs | hold _ _ _ _ _ hs | offer _ _ _ _ _ _ hs | accept _ _ _ _ _ _ hs
  | skipWrite _ _ _ _ _ hs => exact hkeep hs hs' rfl

/-- **An invariant of one step of the line, under a condition on what happens, is one of every
sequence of steps along which the condition always held.** -/
theorem Moves.induct {P : Event → List Event → Prop} {I : Line → Prop}
    (hI : ∀ l l', Move id ok l l' → Always P l'.hist → I l → I l')
    (h : Moves id ok l l') (hP : Always P l'.hist) (hl : I l) : I l' := by
  induction h with
  | refl => exact hl
  | tail _ hm ih => exact hI _ _ hm hP (ih (hP.suffix hm.suffix))

end Line

/-! ## 2. The moves of a stream, on its line -/

namespace Life

variable {v v' v'' : Life} {srv : Bool} {id : Nat} {ok : Bytes → Nat → Prop}

/-- The line of `v'` is one that steps of the line of `v` lead to. -/
abbrev LineMoves (id : Nat) (ok : Bytes → Nat → Prop) (v v' : Life) : Prop :=
  Line.Moves id ok v.line v'.line

theorem beside_of_foreign {tr : List Event} (e : Event) (h : e.foreign id tr) : e.beside id tr := by
  cases e with
  | streamShutdown i d code => trivial
  | _ => first | exact h | trivial

namespace LineMoves

/-- Nothing that the line has changes but the history, by events that are not about it. -/
theorem beside (hs : v'.send = v.send) (hc : v'.cmds = v.cmds)
    (hg : Grows (Event.beside id v.hist) v.hist v'.hist) : LineMoves id ok v v' := by
  have hl : v'.line = { v.line with hist := v'.hist } := by
    unfold line
    rw [hs, hc]
  unfold LineMoves
  rw [hl]
  exact .single (.beside _ _ hg)

theorem same (h : v'.line = v.line) : LineMoves id ok v v' := by
  unfold LineMoves
  rw [h]

theorem trans (h : LineMoves id ok v v') (h' : LineMoves id ok v' v'') : LineMoves id ok v v'' :=
  Relation.ReflTransGen.trans h h'

theorem one (h : Line.Move id ok v.line v'.line) : LineMoves id ok v v' := .single h

theorem emit (v : Life) (e : Event) (he : e.beside id v.hist) : LineMoves id ok v (v.emit e) :=
  beside rfl rfl (.one he)

theorem closeRecv (v : Life) (id : Nat) : LineMoves id ok v (v.closeRecv id) := by
  unfold Life.closeRecv
  split
  · exact same rfl
  · exact beside rfl rfl (.one trivial)

theorem settle (v : Life) (id : Nat) : LineMoves id ok v (v.settle id) := by
  unfold Life.settle
  split
  · exact closeRecv { v with admission := none } id
  · exact same rfl

theorem reclaim (v : Life) (id : Nat) : LineMoves id ok v (v.reclaim id) := by
  unfold Life.reclaim
  split
  · rename_i s hs
    split
    · rename_i hf
      refine one ?_
      have hl : ({ v.closeSend id with admission := none } : Life).line = { v.line with
          send := none, hist := .sendClose id s.status :: cancelled s.sendOps v.hist } := by
        simp only [Life.closeSend, hs]
        rfl
      rw [hl]
      exact .reclaim v.line s hs hf.1
    · exact same rfl
  · exact same rfl

theorem recvDone (v : Life) (id : Nat) : LineMoves id ok v (v.recvDone id) := by
  have h1 : LineMoves id ok v ((v.closeRecv id).emit (.recvDone id)) :=
    (closeRecv v id).trans (emit _ _ trivial)
  unfold Life.recvDone
  refine LineMoves.trans ?_ ((settle _ id).trans (reclaim _ id))
  exact h1

/-- The mark of a finished direction, on an entry that has it already. -/
theorem sendDone {s : StreamSendState} (hs : v.send = some s) (hf : s.finished = true) :
    LineMoves id ok v (v.sendDone id) := by
  have hmap : v.send.map finish = v.send := by
    rw [hs]
    cases s
    cases hf
    rfl
  unfold Life.sendDone
  rw [hmap]
  refine LineMoves.trans ?_ (settle _ id)
  exact beside rfl rfl (.one trivial)

/-- The end of the direction looks only at whether there is an entry. -/
theorem sendDone_finish {s : StreamSendState} (hs : v.send = some s) :
    v.sendDone id = ({ v with send := some (finish s) } : Life).sendDone id := by
  unfold Life.sendDone
  rw [hs]
  rfl

/-- The steps that complete a `Finish`: the line has taken it when the direction is marked. -/
theorem completeFinish {s : StreamSendState} {op : SendOp} {ops : List SendOp}
    (hs : v.send = some s) (hop : s.sendOps = op :: ops) (h : LineMoves id ok v'' { v with
      send := some { s with sendOps := ops, finished := true }
      hist := .resolve op.tok (.ok ()) :: v.hist }) :
    LineMoves id ok v'' (v.completeFinish id) := by
  have hpop : v.popOp = { v with
      send := some { s with sendOps := ops }, hist := .resolve op.tok (.ok ()) :: v.hist } := by
    simp only [Life.popOp, hs, hop]
  unfold Life.completeFinish
  rw [hpop, sendDone_finish rfl]
  exact (h.trans (sendDone rfl rfl)).trans (reclaim _ id)

theorem openRecv (v : Life) (id h : Nat) : LineMoves id ok v (v.openRecv id h) :=
  (closeRecv v id).trans (beside rfl rfl (.one trivial))

theorem openSend (hs : v.send = none) {c : Nat} (hc : FreshCell c v.hist) (r : Option SendEnd) :
    LineMoves id ok v (v.openSend id c r) := by
  cases r with
  | some e => exact one (.retained v.line c e hc)
  | none =>
    have hl : (v.openSend id c none).line = { v.line with
        send := some (.new c), hist := .sendOpen id c :: .handle id c :: v.hist } := by
      simp only [Life.openSend, Life.emit, Life.closeSend, hs]
      rfl
    refine one ?_
    rw [hl]
    exact .opened v.line c hs hc

theorem openRecv_send (v : Life) (id h : Nat) : (v.openRecv id h).send = v.send := by
  unfold Life.openRecv Life.closeRecv
  split <;> rfl

/-- The cells of a stream are as fresh as they were before its receive half is made. -/
theorem openRecv_fresh {c : Nat} (hc : FreshCell c v.hist) (id h : Nat) :
    FreshCell c (v.openRecv id h).hist := by
  refine ⟨fun i hi => hc.1 i ?_, fun hp => hc.2 ?_⟩
  · unfold Life.openRecv Life.closeRecv at hi
    dsimp only at hi
    split at hi <;> simpa [CellOf] using hi
  · unfold Life.openRecv Life.closeRecv at hp
    dsimp only at hp
    split at hp <;> simpa [Published] using hp

theorem openLocal (hs : v.send = none) {c : Nat} (hc : FreshCell c v.hist) (h : Nat) (b : Bool) :
    LineMoves id ok v (if b then
      ((v.emit (.streamPriority id true)).openRecv id h).openSend id c none
      else (v.emit (.streamPriority id true)).openSend id c none) := by
  have h1 : LineMoves id ok v (v.emit (.streamPriority id true)) := emit _ _ trivial
  have hc1 : FreshCell c (v.emit (.streamPriority id true)).hist := by
    refine ⟨fun i hi => hc.1 i ?_, fun hp => hc.2 ?_⟩
    · simpa [CellOf, Life.emit] using hi
    · simpa [Published, Life.emit] using hp
  split
  · refine (h1.trans (openRecv _ id h)).trans (openSend ?_ (openRecv_fresh hc1 id h) none)
    rw [openRecv_send]
    exact hs
  · have hs1 : (v.emit (.streamPriority id true)).send = none := hs
    exact h1.trans (openSend hs1 hc1 none)

theorem ensure {c : Nat} (v : Life) (hc : FreshCell c v.hist) :
    LineMoves id ok v (v.ensure id c) := by
  unfold Life.ensure
  split
  · exact same rfl
  · rename_i hs
    exact one (.make v.line c hs hc)

theorem fresh_emit {c : Nat} (hc : FreshCell c v.hist) (cmd : DriverCommand) :
    FreshCell c (v.emit (.applied cmd)).hist := by
  refine ⟨fun i hi => hc.1 i ?_, fun hp => hc.2 ?_⟩
  · simpa [CellOf, Life.emit] using hi
  · simpa [Published, Life.emit] using hp

/-- A command is recorded and its entry made before it leaves the channel. -/
theorem ensure_pop (v : Life) (id c : Nat) (cmd : DriverCommand) (rest : List DriverCommand) :
    (v.pop cmd rest).ensure id c = { (v.emit (.applied cmd)).ensure id c with cmds := rest } := by
  unfold Life.ensure Life.pop Life.emit
  dsimp only
  split <;> rfl

theorem ensure_cmds (v : Life) (id c : Nat) : (v.ensure id c).cmds = v.cmds := by
  unfold Life.ensure
  split <;> rfl

theorem ensure_some (v : Life) (id c : Nat) : ∃ s, (v.ensure id c).send = some s := by
  unfold Life.ensure
  split
  · rename_i s hs
    exact ⟨s, hs⟩
  · exact ⟨_, rfl⟩

theorem enqueue {c : Nat} {cmd : DriverCommand} {rest : List DriverCommand} {op : SendOp}
    (hc : v.cmds = cmd :: rest) (hop : cmd.op = some (id, op)) (hn : FreshCell c v.hist) :
    LineMoves id ok v ((v.pop cmd rest).enqueue id c op) := by
  have h1 : LineMoves id ok v ((v.emit (.applied cmd)).ensure id c) :=
    (emit v (.applied cmd) trivial).trans (ensure _ (fresh_emit hn cmd))
  obtain ⟨s, hs⟩ := ensure_some (v.emit (.applied cmd)) id c
  have hcmds := (ensure_cmds (v.emit (.applied cmd)) id c).trans hc
  refine h1.trans ?_
  unfold Life.enqueue
  rw [ensure_pop]
  generalize (v.emit (.applied cmd)).ensure id c = u at hs hcmds
  simp only [hs]
  split
  · rename_i e ht
    exact one (.refuse u.line cmd rest op s e hcmds hop hs ht)
  · rename_i ht
    exact one (.queue u.line cmd rest op s hcmds hop hs ht)

/-- The cleanup of an open nobody waits for: its `Finish` is on its way. -/
theorem undeliver {c : Nat} (hs : v.send = some (.new c))
    (hf : ∃ t, .submit (.finish id t) ∈ v.hist) (b : Bool) :
    LineMoves id ok v (v.undeliver id b) := by
  have hl : (v.closeSend id).line =
      { v.line with send := none, hist := .sendClose id c :: v.hist } := by
    simp only [Life.closeSend, hs]
    rfl
  have h1 : LineMoves id ok v (v.closeSend id) := by
    refine one ?_
    rw [hl]
    exact .lapse v.line c hs hf
  have h2 := h1.trans (emit _ (.streamShutdown id .write h3RequestCancelled) trivial)
  unfold Life.undeliver
  dsimp only
  split
  · exact (h2.trans (closeRecv _ id)).trans (emit _ _ trivial)
  · exact h2

theorem take {b : Bool} {p : PeerStream} (ht : Take v b p v') : v'.line = v.line := by
  cases ht <;> rfl

/-- What a batch of front-end actions puts in. -/
theorem front {cs : List DriverCommand} {tr : List Event} (hf : Front id v cs tr) :
    LineMoves id ok v (v.submit cs tr) := one (.front v.line v cs tr rfl hf)

end LineMoves

/-- **What a move does to the line**, if a send half is built only where there is no entry. -/
theorem Move.line (hm : Move srv id ok v v') (htake : ∀ b p v1, Take v b p v1 → v.send = none)
    (hopen : serverInitiated id = srv → .streamPriority id true :: v.hist <:+ v'.hist →
      v.send = none) : LineMoves id ok v v' := by
  cases hm with
  | other tr hg => exact .beside rfl rfl (hg.mono beside_of_foreign)
  | front cs tr hf => exact .front hf
  | turn | capacity => exact .emit _ _ trivial
  | readable | mergePending | mergeParked => exact .beside rfl rfl (.one trivial)
  | writable ans hs hb ha hp =>
    exact .beside rfl rfl (.cons trivial (.one trivial))
  | repark v1 b p ht => exact LineMoves.trans (.same (LineMoves.take ht)) (.same rfl)
  | tear v1 b p ht =>
    refine LineMoves.trans (.same (LineMoves.take ht)) (.beside rfl rfl ?_)
    dsimp only
    split
    · exact .cons trivial (.one trivial)
    · exact .one trivial
  | admitBidi v1 b p j c cs tr ht hb hc v2 hv hf =>
    have hline := LineMoves.take ht
    have hs : v1.send = none := (congrArg Line.send hline).trans (htake b p v1 ht)
    have h1 : LineMoves id ok v v1 := .same hline
    have h2 : LineMoves id ok v1 v2 := by
      rw [hv]
      refine (LineMoves.openRecv v1 id j).trans (.openSend ?_ (LineMoves.openRecv_fresh hc id j) _)
      rw [LineMoves.openRecv_send]
      exact hs
    exact (h1.trans h2).trans ((LineMoves.front hf).trans (.emit _ _ trivial))
  | admitUni v1 b p j cs tr ht hb v2 hv hf =>
    have h1 : LineMoves id ok v v1 := .same (LineMoves.take ht)
    have h2 : LineMoves id ok v1 v2 := by
      rw [hv]
      exact .openRecv v1 id j
    exact (h1.trans h2).trans ((LineMoves.front hf).trans (.emit _ _ trivial))
  | clean tr hg park pend hn hpark hpend hs =>
    exact .beside rfl rfl (hg.mono (of_passing beside_of_foreign fun _ => trivial))
  | settle => exact .settle v id
  | openBidi j c hl hb hc => exact .openLocal (hopen hl (open_grows v id j c true).suffix) hc j true
  | openUni c hl hb hc => exact .openLocal (hopen hl (open_grows v id 0 c false).suffix) hc 0 false
  | undeliver j c cs tr hl hc v2 hv hf hd hs hfin =>
    have hsend : v.send = none := by
      refine hopen hl (List.IsSuffix.trans ?_ (hf.grows.suffix.trans
        (undeliver_suffix (v2.submit cs tr) id _)))
      rw [hv]
      exact (open_grows v id j c (isBidi id)).suffix
    have h1 : LineMoves id ok v v2 := by
      rw [hv]
      exact .openLocal hsend hc j (isBidi id)
    have h2 := h1.trans (.front hf)
    have hnew2 : (v2.submit cs tr).send = some (.new c) := by
      change v2.send = _
      rw [hv]
      split <;> rfl
    exact h2.trans (.undeliver hnew2 hfin _)
  | recvEnd j tr hr hg hs =>
    have h1 : LineMoves id ok v { v with hist := tr } :=
      .beside rfl rfl (hg.mono beside_of_foreign)
    exact h1.trans (.recvDone _ id)
  | abandon j hr hd =>
    have h1 : LineMoves id ok v (v.emit (.streamShutdown id .read h3NoError)) := .emit _ _ trivial
    exact h1.trans (.recvDone _ id)
  | applyResume rest hc =>
    have h1 : LineMoves id ok v (v.emit (.applied (.recvResume id))) := .emit _ _ trivial
    exact h1.trans (.one (.skip _ (.recvResume id) rest hc rfl))
  | applySend _ _ _ _ _ hc hn | applyFinish _ _ _ hc hn => exact .enqueue hc rfl hn
  | applyReset code rest c hc hn =>
    have h1 : LineMoves id ok v ((v.emit (.applied (.reset id code))).ensure id c) :=
      LineMoves.trans (.emit v (.applied (.reset id code)) trivial)
        (.ensure _ (LineMoves.fresh_emit hn _))
    refine h1.trans ?_
    rw [LineMoves.ensure_pop]
    have hcmds := (LineMoves.ensure_cmds (v.emit (.applied (.reset id code))) id c).trans hc
    exact .one (.skip _ (.reset id code) rest hcmds rfl)
  | applyStop code rest hc =>
    have h1 : LineMoves id ok v (v.emit (.applied (.stopSending id code))) := .emit _ _ trivial
    have h2 : LineMoves id ok (v.emit (.applied (.stopSending id code)))
        (v.pop (.stopSending id code) rest) := .one (.skip _ (.stopSending id code) rest hc rfl)
    have h3 := (h1.trans h2).trans (.emit _ (.streamShutdown id .read code) trivial)
    exact h3.trans (.recvDone _ id)
  | resetEntry s code tr hs ho ha hc =>
    exact .one (.ended v.line s (.reset code) (some code) s.finished tr hs ho hc)
  | sendErr s data fin err hs ho hw => exact .one (.sendErr v.line s data fin err hs ho hw)
  | flush s buf fin n hs ho hh hr hf hn hm =>
    exact .one (.flush v.line s buf fin n hs ho hh hr hn hm)
  | flushFin s buf n t ops hs ho hh hr hop hn hm =>
    exact .completeFinish rfl hop (.one (.flushFin v.line s buf n t ops hs ho hh hr hop hn hm))
  | emptyHeld s buf hs ho hh hr => exact .one (.emptyHeld v.line s buf hs hh hr)
  | emptyFin s buf t ops hs ho hh hr hop =>
    exact .completeFinish rfl hop (.one (.emptyFin v.line s buf t ops hs ho hh hr hop))
  | loneFin s n t ops hs ho hh hop hn =>
    exact .completeFinish hs hop (.one (.loneFin v.line s n t ops hs ho hh hop hn))
  | hold s buf t p ops hs ho hh hop hr => exact .one (.hold v.line s buf t p ops hs ho hh hop hr)
  | offer s buf t p ops n hs ho hh hop hr hn hm =>
    exact .one (.offer v.line s buf t p ops n hs ho hh hop hn hm)
  | accept s buf t p ops n hs ho hh hop hr hn hm =>
    exact .one (.accept v.line s buf t p ops n hs ho hh hop hr hn hm)
  | skipWrite s buf t p ops hs ho hh hop hr =>
    exact .one (.skipWrite v.line s buf t p ops hs ho hh hop hr)
  | sendEnd s e tr hs ho hc =>
    unfold Life.sendEnd
    rw [LineMoves.sendDone_finish rfl]
    refine LineMoves.trans ?_ (.sendDone rfl rfl)
    exact .one (.ended v.line s e s.pendingReset true tr hs ho hc)
  | resetTurn s code hs hp =>
    rw [LineMoves.sendDone_finish rfl]
    refine LineMoves.trans ?_ (.sendDone rfl rfl)
    have h1 : LineMoves id ok v { v with
        send := some { s with pendingReset := none, finished := true } } :=
      .one (.served v.line s code hs hp)
    have h2 := h1.trans (.emit _ (.turn id) trivial)
    exact h2.trans (.emit _ (.streamShutdown id .write code) trivial)
  | _ => exact .same rfl

end Life

/-! ## 3. Streams that are opened once -/

/-- A stream with halves was opened by the driver or reported as a new one. -/
def Born (id : Nat) (v : Life) : Prop := Known id v.hist → Opened id v.hist ∨ Discovered id v.hist

section Born

variable {v v' : Life} {srv : Bool} {id : Nat} {ok : Bytes → Nat → Prop}

theorem Born.move (h : Born id v) (hslot : Slot srv id v) (hm : Life.Move srv id ok v v') :
    Born id v' := by
  have hsub := hm.suffix.subset
  by_cases hk : Known id v.hist
  · exact fun _ => (h hk).imp (hsub ·) fun hd => hd.mono hsub
  -- nothing of the stream is there, so the move is none that needs a half or a command
  have hgrow (hg : Grows (Event.slotFree id) v.hist v'.hist) : Born id v' :=
    fun hk' => absurd ((known_iff hg).mp hk') hk
  have hsend {s : StreamSendState} (hs : v.send = some s) : False :=
    hk (hslot.sendKnown (by rw [hs]; rfl))
  have hcmd {cmd : DriverCommand} {rest : List DriverCommand} (hc : v.cmds = cmd :: rest) : False :=
    hk (hslot.cmdsKnown (by simp [hc]))
  have htake {b : Bool} {p : PeerStream} {v1 : Life} (ht : Life.Take v b p v1) :
      Discovered id v.hist := ht.hist ▸ (hslot.take ht).2.1.discovered
  cases hm with
  | other tr hg => exact hgrow (hg.mono slotFree_of_foreign)
  | front cs tr hf => exact hgrow (hf.grows.mono slotFree_of_isFront)
  | turn | mergePending | mergeParked => exact hgrow (.one trivial)
  | readable hr ha hp => exact fun _ => .inr (.inl List.mem_cons_self)
  | writable ans hs hb ha hp =>
    exact fun _ => .inr (.inr (List.mem_cons_of_mem _ List.mem_cons_self))
  | repark _ _ _ ht | tear _ _ _ ht | admitBidi _ _ _ _ _ _ _ ht | admitUni _ _ _ _ _ _ ht =>
    exact fun _ => .inr ((htake ht).mono hsub)
  | clean tr hg => exact hgrow (hg.mono (of_passing slotFree_of_foreign fun _ => trivial))
  | settle =>
    have hd : allDone (isBidi id) v.admission = false := by
      by_contra hx
      obtain ⟨sd, rd, ha⟩ := Handed.registered_of_allDone (by simpa using hx)
      exact hk (hslot.reg sd rd ha).2.1
    have hv : v.settle id = v := if_neg (by simp [hd])
    rw [hv]
    exact h
  | openBidi j c => exact fun _ => .inl ((Life.open_grows v id j c true).subset List.mem_cons_self)
  | openUni c => exact fun _ => .inl ((Life.open_grows v id 0 c false).subset List.mem_cons_self)
  | undeliver j c cs tr hl hc v2 hv hf =>
    have h1 : .streamPriority id true ∈ v2.hist := by
      rw [hv]
      exact (Life.open_grows v id j c (isBidi id)).subset List.mem_cons_self
    exact fun _ => .inl ((Life.undeliver_suffix (v2.submit cs tr) id _).subset (hf.grows.mem h1))
  | recvEnd _ _ hr | abandon _ hr => exact (hk (hslot.recvKnown (by rw [hr]; rfl))).elim
  | applyResume _ hc | applySend _ _ _ _ _ hc | applyFinish _ _ _ hc | applyReset _ _ _ hc
  | applyStop _ _ hc => exact (hcmd hc).elim
  | capacity ans hs => exact (hk (hslot.sendKnown hs)).elim
  | resetEntry _ _ _ hs | sendErr _ _ _ _ hs | flush _ _ _ _ hs | flushFin _ _ _ _ _ hs
  | emptyHeld _ _ hs | emptyFin _ _ _ _ hs | loneFin _ _ _ _ hs | hold _ _ _ _ _ hs
  | offer _ _ _ _ _ _ hs | accept _ _ _ _ _ _ hs | skipWrite _ _ _ _ _ hs | sendEnd _ _ _ hs
  | resetTurn _ _ hs => exact (hsend hs).elim
  | _ => exact hgrow (.refl _ _)

theorem Born.init (id : Nat) : Born id .fresh := by
  rintro (⟨x, hx⟩ | ⟨x, hx⟩ | ⟨x, hx⟩) <;> cases hx

/-- **A stream that is opened once moves as its line does.** -/
theorem Slot.line (h : Slot srv id v) (hborn : Born id v) (hfresh : Always (FreshFor srv id) v.hist)
    (hm : Life.Move srv id ok v v') (honce : Always OpenOnce v'.hist) :
    Life.LineMoves id ok v v' := by
  refine hm.line (fun b p v1 ht => ?_) fun hl hsuf => ?_
  · exact (congrArg Line.send (Life.LineMoves.take ht)).symm.trans (h.take ht).2.1.send
  · by_contra hx
    obtain ⟨post, hpost⟩ := hsuf
    rcases hborn (h.sendKnown (Option.isSome_iff_ne_none.mpr hx)) with ho | hd
    · exact always_iff.mp honce post _ _ hpost.symm id rfl ho
    · exact peer_of_discovered hfresh hd hl

end Born

end QuicheH3
