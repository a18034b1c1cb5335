/-
# What can happen to a send entry

Some thirty moves of a stream touch its send entry, or leave it alone.  Seen from the entry there
are nine steps, and this module says once which of them a move takes.  A property of entries that
the nine steps keep holds of every entry in every run (`entry_steps`).

Contents
  1  the steps, 2 the moves
  3  every run; a reset that waits for its turn has published its terminal
-/
import QuicheH3.Life.Fate

namespace QuicheH3

open Lib

/-! ## 1. The steps -/

/-- One step of the send entry of a stream. -/
inductive EntryStep : Option StreamSendState → Option StreamSendState → Prop
  | gone (o : Option StreamSendState) : EntryStep o none
  | fresh (o : Option StreamSendState) (c : Nat) : EntryStep o (some (.new c))
  | finish (s : StreamSendState) : EntryStep (some s) (some { s with finished := true })
  | enqueue (s : StreamSendState) (op : SendOp) (ht : s.terminal = none) :
      EntryStep (some s) (some { s with sendOps := s.sendOps ++ [op] })
  -- a write is held only while bytes of it are left
  | progress (s : StreamSendState) (ops : List SendOp) (held : Option WriteBuf) (ho : s.Open)
      (hh : ∀ buf, held = some buf → buf.hasRemaining = true) :
      EntryStep (some s) (some { s with sendOps := ops, held := held })
  -- the head operation of a finished direction is completed
  | pop (s : StreamSendState) (op : SendOp) (ops : List SendOp) (ho : s.sendOps = op :: ops) :
      EntryStep (some s) (some { s with sendOps := ops })
  | terminate (s : StreamSendState) (e : SendEnd) (ho : s.Open) :
      EntryStep (some s) (some { s with terminal := some e, held := none, sendOps := [] })
  | reset (s : StreamSendState) (code : Nat) (ho : s.Open) :
      EntryStep (some s) (some { s with
        pendingReset := some code, terminal := some (.reset code), sendOps := [], held := none })
  | serve (s : StreamSendState) (code : Nat) (hp : s.pendingReset = some code) :
      EntryStep (some s) (some { s with pendingReset := none })

abbrev EntrySteps : Option StreamSendState → Option StreamSendState → Prop :=
  Relation.ReflTransGen EntryStep

namespace Life

variable {v v' : Life} {srv : Bool} {id : Nat} {ok : Bytes → Nat → Prop}

/-- The entry of `v'` is one that steps of the entry of `v` lead to. -/
def EntryMoves (v v' : Life) : Prop := EntrySteps v.send v'.send

namespace EntryMoves

theorem refl (v : Life) : EntryMoves v v := Relation.ReflTransGen.refl

theorem trans {v'' : Life} (h : EntryMoves v v') (h' : EntryMoves v' v'') : EntryMoves v v'' :=
  Relation.ReflTransGen.trans h h'

theorem of_eq (h : v'.send = v.send) : EntryMoves v v' := by
  unfold EntryMoves
  rw [h]

theorem one (h : EntryStep v.send v'.send) : EntryMoves v v' := .single h

theorem some {s s' : StreamSendState} (hs : v.send = some s) (hs' : v'.send = some s')
    (h : EntryStep (some s) (some s')) : EntryMoves v v' := one (by rw [hs, hs']; exact h)

theorem closeRecv (v : Life) (id : Nat) : EntryMoves v (v.closeRecv id) := by
  unfold Life.closeRecv
  split <;> exact of_eq rfl

theorem closeSend (v : Life) (id : Nat) : EntryMoves v (v.closeSend id) := by
  unfold Life.closeSend
  split
  · exact refl v
  · exact one (.gone _)

theorem settle (v : Life) (id : Nat) : EntryMoves v (v.settle id) := by
  unfold Life.settle
  split
  · exact closeRecv { v with admission := none } id
  · exact refl v

theorem reclaim (v : Life) (id : Nat) : EntryMoves v (v.reclaim id) := by
  unfold Life.reclaim
  split
  · split
    · exact closeSend v id
    · exact refl v
  · exact refl v

theorem recvDone (v : Life) (id : Nat) : EntryMoves v (v.recvDone id) := by
  unfold Life.recvDone
  refine EntryMoves.trans ?_ ((settle _ id).trans (reclaim _ id))
  exact closeRecv v id

theorem sendDone (v : Life) (id : Nat) : EntryMoves v (v.sendDone id) := by
  refine EntryMoves.trans ?_ (settle _ id)
  cases hs : v.send with
  | none => exact of_eq (by simp [hs])
  | some s => exact some hs rfl (.finish s)

theorem completeFinish (v : Life) (id : Nat) : EntryMoves v (v.completeFinish id) := by
  unfold Life.completeFinish Life.popOp
  refine EntryMoves.trans ?_ ((sendDone _ id).trans (reclaim _ id))
  split
  · rename_i s hs
    split
    · rename_i op ops ho
      exact some hs rfl (.pop s op ops ho)
    · exact refl v
  · exact refl v

theorem openRecv (v : Life) (id h : Nat) : EntryMoves v (v.openRecv id h) := closeRecv v id

theorem openSend (v : Life) (id c : Nat) (retained : Option SendEnd) :
    EntryMoves v (v.openSend id c retained) := by
  cases retained with
  | some e => exact of_eq rfl
  | none => exact (closeSend (v.emit (.handle id c)) id).trans (one (.fresh _ c))

theorem openLocal (v : Life) (id h c : Nat) (b : Bool) :
    EntryMoves v (if b then ((v.emit (.streamPriority id true)).openRecv id h).openSend id c none
      else (v.emit (.streamPriority id true)).openSend id c none) := by
  split
  · exact (openRecv (v.emit (.streamPriority id true)) id h).trans (openSend _ id c none)
  · exact openSend (v.emit (.streamPriority id true)) id c none

theorem ensure (v : Life) (id c : Nat) : EntryMoves v (v.ensure id c) := by
  unfold Life.ensure
  split
  · exact refl v
  · exact one (.fresh _ c)

theorem enqueue (v : Life) (id c : Nat) (op : SendOp) : EntryMoves v (v.enqueue id c op) := by
  refine (ensure v id c).trans ?_
  unfold Life.enqueue
  dsimp only
  split
  · exact refl _
  · rename_i s hs
    split
    · exact of_eq rfl
    · rename_i ht
      exact some hs rfl (.enqueue s op ht)

theorem undeliver (v : Life) (id : Nat) (b : Bool) : EntryMoves v (v.undeliver id b) := by
  have h1 := closeSend v id
  cases b with
  | true => exact h1.trans (closeRecv ((v.closeSend id).emit _) id)
  | false => exact h1

theorem take {b : Bool} {p : PeerStream} (ht : Take v b p v') : EntryMoves v v' :=
  of_eq (Handed.take ht).2.1

end EntryMoves

/-! ## 2. The moves -/

/-- **What a move does to the entry.** -/
theorem Move.entry (hm : Move srv id ok v v') : EntryMoves v v' := by
  cases hm with
  | repark _ _ _ ht | tear _ _ _ ht => exact (EntryMoves.take ht).trans (.of_eq rfl)
  | admitBidi v1 b p h c cs tr ht hb hc v2 hv hf =>
    subst hv
    exact (EntryMoves.take ht).trans ((EntryMoves.openRecv v1 id h).trans (.openSend _ id c _))
  | admitUni v1 b p h cs tr ht hb v2 hv hf =>
    subst hv
    exact (EntryMoves.take ht).trans (.openRecv v1 id h)
  | settle => exact .settle v id
  | openBidi h c hl hb hc => exact .openLocal v id h c true
  | openUni c hl hb hc => exact .openLocal v id 0 c false
  | undeliver h c cs tr hl hc v2 hv hf hd hs =>
    have h1 : EntryMoves v v2 := hv ▸ .openLocal v id h c (isBidi id)
    exact h1.trans (.undeliver (v2.submit cs tr) id _)
  | recvEnd h tr hr hg hs => exact .recvDone { v with hist := tr } id
  | abandon h hr hd => exact .recvDone (v.emit _) id
  | applySend _ _ _ rest c | applyFinish _ rest c => exact .enqueue (v.pop _ rest) id c _
  | applyReset code rest c hc hn => exact .ensure (v.pop _ rest) id c
  | applyStop code rest hc => exact .recvDone ((v.pop _ rest).emit _) id
  | resetEntry s code tr hs ho ha hc => exact .some hs rfl (.reset s code ho)
  | flush s buf fin n hs ho hh hr hf hn hm =>
    refine .some hs rfl (.progress s s.sendOps _ ho fun b hb => ?_)
    split at hb
    · rename_i hadv
      exact Option.some.inj hb ▸ hadv
    · cases hb
  | flushFin s buf n t ops hs ho hh hr hop hn hm =>
    have h1 : EntryMoves v (v.offered id buf.offered (buf.offerFin true) n
        { s with held := none }) := .some hs rfl (.progress s s.sendOps none ho nofun)
    exact h1.trans (.completeFinish _ id)
  | emptyHeld s buf hs ho hh hr => exact .some hs rfl (.progress s s.sendOps none ho nofun)
  | emptyFin s buf t ops hs ho hh hr hop =>
    have h1 : EntryMoves v { v with send := Option.some { s with held := none } } :=
      .some hs rfl (.progress s s.sendOps none ho nofun)
    exact h1.trans (.completeFinish _ id)
  | loneFin s n t ops hs ho hh hop hn => exact .completeFinish (v.emit _) id
  | hold s buf t p ops hs ho hh hop hr =>
    refine .some hs rfl (.progress s ops (Option.some buf) ho fun b hb => ?_)
    exact Option.some.inj hb ▸ decide_eq_true hr
  | offer s buf t p ops n hs ho hh hop hr hn hm =>
    exact .some hs rfl (.progress s _ s.held ho fun b hb => by rw [hh] at hb; cases hb)
  | accept s _ _ _ ops _ hs ho hh | skipWrite s _ _ _ ops hs ho hh =>
    exact .some hs rfl (.progress s ops s.held ho fun b hb => by rw [hh] at hb; cases hb)
  | sendEnd s e tr hs ho hc =>
    refine EntryMoves.trans ?_ (.sendDone _ id)
    exact .some hs rfl (.terminate s e ho)
  | resetTurn s code hs hp =>
    refine EntryMoves.trans ?_ (.sendDone _ id)
    exact .some hs rfl (.serve s code hp)
  | _ => exact .of_eq rfl

end Life

/-! ## 3. Every run -/

/-- A property of entries kept by the steps holds of the entry they lead to. -/
theorem EntrySteps.keeps {P : StreamSendState → Prop}
    (hP : ∀ s s', EntryStep (some s) (some s') → P s → P s') (hn : ∀ c, P (.new c))
    {o o' : Option StreamSendState} (h : EntrySteps o o') (h0 : ∀ s, o = some s → P s) :
    ∀ s, o' = some s → P s := by
  induction h with
  | refl => exact h0
  | tail _ hs ih =>
    rintro s rfl
    cases hs with
    | fresh o c => exact hn c
    | finish s1 => exact hP _ _ (.finish s1) (ih _ rfl)
    | enqueue s1 op ht => exact hP _ _ (.enqueue s1 op ht) (ih _ rfl)
    | progress s1 ops held ho hh => exact hP _ _ (.progress s1 ops held ho hh) (ih _ rfl)
    | pop s1 op ops ho => exact hP _ _ (.pop s1 op ops ho) (ih _ rfl)
    | terminate s1 e ho => exact hP _ _ (.terminate s1 e ho) (ih _ rfl)
    | reset s1 code ho => exact hP _ _ (.reset s1 code ho) (ih _ rfl)
    | serve s1 code hp => exact hP _ _ (.serve s1 code hp) (ih _ rfl)

namespace World

variable {σ : Type} {T : QuicConn σ} {w : World σ}

end World

end QuicheH3
