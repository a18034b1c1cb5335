/-
# Blocked work comes to rest, unless a held write is left alone

The worker repeats `wait_for_data` and `do_process_writes` while the transport is stuck, the
channel is empty and the front end does nothing.  When does the repetition end in `wait_for_data`
suspended on the channel?

Every iteration that asks for another one has lowered the load, so blocked work by itself does not
keep the worker awake.  The exception is a write that was held when there was capacity, with
nothing queued behind it.  `wait_for_data` marks it runnable each time it is about to suspend; the
turn it gets is refused, the stream is parked, and the next `wait_for_data` marks it again.  So the
worker comes to rest exactly if every such write goes away, and there are two ways it can
(`blocked_work_settles_iff`):

* it is FED: a command in the inbox puts an operation behind it, or a reset takes it away;
* it is LOOSE, and an iteration does take its entry: the stream waits for admission as a peer
  stream and is registered anew, or its send side was finished before and the end of the receive
  side reclaims it.

Nothing else touches the entry (`Preserves.kept`), which is the direction that makes the worker spin:
a held write that is neither fed nor loose is still there after any number of rounds.

Contents
* §2  what one command does to the held writes
* §3  stage (a)
* §4  one iteration
* §5  the loop, and the condition
-/
import QuicheH3.Rest.Stages
import QuicheH3.Life.Entry
import Mathlib.Order.Filter.AtTopBot.Basic
import Mathlib.Order.Filter.Finite

namespace QuicheH3

open Lib

/-! ## 1. Ranked repetition -/

/-- The command puts something behind a held write of stream `id`, or takes it away. -/
def DriverCommand.feeds (id : Nat) : DriverCommand → Prop
  | .send i _ _ _ | .finish i _ | .reset i _ => i = id
  | _ => False

def DriverCommand.isClose : DriverCommand → Prop
  | .close _ _ => True
  | _ => False

namespace World

variable {σ : Type} {T : QuicConn σ} {B : Blockade σ} {w w' w'' : World σ}

/-! ## 2. One command -/

/-- A command for the stream is on its way. -/
def Fed (w : World σ) (id : Nat) : Prop := ∃ cmd ∈ w.inbox, cmd.feeds id

/-- What becomes of the writes held with nothing behind them: none comes about, one that is fed
stays fed, and one that is not stays as it is unless its stream is loose. -/
structure Preserves (B : Blockade σ) (w w' : World σ) : Prop where
  held : ∀ i x, w'.reg.send.lookup i = some x → StreamSendState.quiescentHeld x = true →
    w.reg.send.lookup i = some x ∧ (Fed w i → Fed w' i)
  kept : ∀ i x, w.reg.send.lookup i = some x → StreamSendState.quiescentHeld x = true →
    ¬ Fed w i → w'.reg.send.lookup i = some x ∨ B.loose i
  inbox : ∀ cmd ∈ w'.inbox, cmd ∈ w.inbox

namespace Preserves

theorem of_eases (h : Eases B w w') : Preserves B w w' where
  held i x hx hq := ⟨h.lighter.held i x hx hq, fun ⟨c, hm, hf⟩ => ⟨c, h.inbox ▸ hm, hf⟩⟩
  kept i x hx hq _ := h.lighter.kept i x hx hq
  inbox _ hm := h.inbox ▸ hm

/-- Neither the entries nor the inbox change. -/
theorem of_eq (hs : w'.reg.send = w.reg.send) (hi : w'.inbox = w.inbox) : Preserves B w w' where
  held _ _ hx _ := ⟨hs ▸ hx, fun ⟨c, hm, hf⟩ => ⟨c, hi ▸ hm, hf⟩⟩
  kept _ _ hx _ _ := .inl (hs ▸ hx)
  inbox _ hm := hi ▸ hm

theorem trans (h : Preserves B w w') (h' : Preserves B w' w'') : Preserves B w w'' where
  held i x hx hq := by
    obtain ⟨h1, hf1⟩ := h'.held i x hx hq
    obtain ⟨h2, hf2⟩ := h.held i x h1 hq
    exact ⟨h2, fun hf => hf1 (hf2 hf)⟩
  kept i x hx hq hn := by
    rcases h.kept i x hx hq hn with h1 | h1
    · exact h'.kept i x h1 hq fun ⟨c, hm, hf⟩ => hn ⟨c, h.inbox c hm, hf⟩
    · exact .inr h1
  inbox cmd hm := h.inbox cmd (h'.inbox cmd hm)

theorem quiescent (h : Preserves B w w') {id : Nat} (hid : id ∈ quiescentHeldIds w'.reg) :
    id ∈ quiescentHeldIds w.reg := by
  obtain ⟨x, hx, hq⟩ := mem_quiescentHeldIds.mp hid
  exact mem_quiescentHeldIds.mpr ⟨x, (h.held id x hx hq).1, hq⟩

end Preserves

/-- A command is applied: two pieces of work at most, its stream holds nothing idle, and the held
writes of the other streams are left alone. -/
structure Takes (B : Blockade σ) (cmd : DriverCommand) (w w' : World σ) : Prop
    extends Steady B w w' where
  inbox : w'.inbox = w.inbox
  load : load w' ≤ load w + 2
  held : ∀ i x, w'.reg.send.lookup i = some x → StreamSendState.quiescentHeld x = true →
    w.reg.send.lookup i = some x ∧ ¬ cmd.feeds i
  kept : ∀ i x, w.reg.send.lookup i = some x → StreamSendState.quiescentHeld x = true →
    ¬ cmd.feeds i → w'.reg.send.lookup i = some x ∨ B.loose i

namespace Takes

variable {cmd : DriverCommand}

theorem of_eases (h : Eases B w w') (hc : ∀ i, cmd.feeds i → Ease.Occupied w' i) :
    Takes B cmd w w' :=
  { h.toSteady with
    inbox := h.inbox, load := h.load_le.trans (Nat.le_add_right _ _)
    held := fun i x hx hq => ⟨h.lighter.held i x hx hq, fun hf => by
      rw [hc i hf x hx] at hq
      cases hq⟩
    kept := fun i x hx hq _ => h.lighter.kept i x hx hq }

/-- The work before the command counts too. -/
theorem after (h : Eases B w w') (h' : Takes B cmd w' w'') : Takes B cmd w w'' where
  toSteady := h.toSteady.trans h'.toSteady
  inbox := h'.inbox.trans h.inbox
  load := by
    have h1 := h.load_le
    have h2 := h'.load
    omega
  held i x hx hq := by
    obtain ⟨h1, hf⟩ := h'.held i x hx hq
    exact ⟨h.lighter.held i x h1 hq, hf⟩
  kept i x hx hq hf := (h.lighter.kept i x hx hq).elim (fun h1 => h'.kept i x h1 hq hf) .inr

/-- And so does the work after it. -/
theorem andThen (h : Takes B cmd w w') (h' : Eases B w' w'') : Takes B cmd w w'' where
  toSteady := h.toSteady.trans h'.toSteady
  inbox := h'.inbox.trans h.inbox
  load := h'.load_le.trans h.load
  held i x hx hq := h.held i x (h'.lighter.held i x hx hq) hq
  kept i x hx hq hf := (h.kept i x hx hq hf).elim (fun h1 => h'.lighter.kept i x h1 hq) .inr

/-- The stream of the command gets an entry that holds nothing idle, and is made runnable. -/
theorem entry (hr : Ready B w) {id : Nat} {s s' : StreamSendState}
    (hs : w.reg.send.lookup id = some s) (hl : s'.sendOps.length ≤ s.sendOps.length + 1)
    (hq : StreamSendState.quiescentHeld s' = false) (hc : ∀ i, cmd.feeds i ↔ i = id) :
    Takes B cmd w
      { w with reg := { w.reg with send := w.reg.send.insert id s' }.markSendRunnable id } := by
  have hheld : ∀ i x, (w.reg.send.insert id s').lookup i = some x →
      StreamSendState.quiescentHeld x = true → w.reg.send.lookup i = some x ∧ ¬ cmd.feeds i := by
    intro i x hx hxq
    by_cases hi : i = id
    · subst hi
      rw [AList.lookup_insert] at hx
      rw [← Option.some.inj hx, hq] at hxq
      cases hxq
    · rw [AList.lookup_insert_ne hi] at hx
      exact ⟨hx, fun hf => hi ((hc i).mp hf)⟩
  exact
    { ready := ⟨hr.conn, hr.script,
        { whole := fun i x hx hxq => hr.reg.whole i x (hheld i x hx hxq).1 hxq
          finished := fun i x hx hxq => hr.reg.finished i x (hheld i x hx hxq).1 hxq
          waits := hr.reg.waits }⟩
      closing := rfl, budget := rfl, reads := rfl, cmdRx := rfl, senders := le_rfl, inbox := rfl
      load := by
        have h1 := OnceQueue.length_push_le w.reg.runnableSend id
        have h2 := Lighter.card_opsIn_put hs s'
        simp only [World.load, regLoad, opsQueued, Registry.markSendRunnable]
        omega
      held := hheld
      kept := fun i x hx _ hf =>
        .inl ((AList.lookup_insert_ne fun hi => hf ((hc i).mpr hi)).trans hx) }

theorem enqueueSendOp (hr : Ready B w) (id : Nat) (op : SendOp)
    (hc : ∀ i, cmd.feeds i ↔ i = id) : Takes B cmd w (w.enqueueSendOp id op) := by
  have h1 := Ease.ensureSend w id hr
  unfold World.enqueueSendOp
  dsimp only
  split
  · rename_i hn
    refine of_eases h1 fun i hf x hx => ?_
    rw [(hc i).mp hf, hn] at hx
    cases hx
  · rename_i s hs
    split
    · rename_i e ht
      refine of_eases (h1.trans (Ease.cells.completeOp _ op (.error e) h1.ready)) fun i hf => ?_
      rw [(hc i).mp hf]
      refine .of_lookup (s := s) ?_ (by simp [StreamSendState.quiescentHeld, ht])
      cases op <;> exact hs
    · exact after h1 (entry h1.ready hs (by simp) (by simp [StreamSendState.quiescentHeld]) hc)

/-- A reset takes the held write away.  An entry it leaves alone has a terminal, or waits for the
turn of an earlier reset. -/
theorem applyReset (hr : Ready B w) (id code : Nat) :
    Takes B (.reset id code) w (w.applyReset id code) := by
  have h1 := Ease.ensureSend w id hr
  have hc : ∀ i, (DriverCommand.reset id code).feeds i ↔ i = id := fun i => eq_comm
  unfold World.applyReset
  rw [interleave_silent h1.ready.script]
  unfold resetEntry
  split
  · rename_i hn
    refine of_eases h1 fun i hf x hx => ?_
    rw [(hc i).mp hf, hn] at hx
    cases hx
  · rename_i s hs
    split
    · rename_i ho
      refine of_eases h1 fun i hf => ?_
      rw [(hc i).mp hf]
      refine .of_lookup hs (Bool.eq_false_iff.mpr fun hq => ?_)
      have hp := (h1.ready.reg.whole id s hs hq).1
      simp [StreamSendState.quiescentHeld, hp] at ho hq
      simp [hq.1.1] at ho
    · have h2 := (Ease.cells (B := B)).setSendCell (w.ensureSend id) s.status (.reset code) h1.ready
      have hs1 : ((w.ensureSend id).setSendCell s.status (.reset code)).reg.send.lookup id =
          some s := by rw [setSendCell_send]; exact hs
      obtain ⟨n, hn⟩ := completeOps_eq
        (((w.ensureSend id).setSendCell s.status (.reset code)).putSend id { s with
          pendingReset := some code, terminal := some (.reset code), sendOps := [], held := none })
        s.sendOps (.error (.reset code))
      dsimp only
      rw [hn]
      have hq : StreamSendState.quiescentHeld { s with
          pendingReset := some code, terminal := some (.reset code), sendOps := []
          held := none } = false := rfl
      have h3 := entry h2.ready hs1 (Nat.zero_le _) hq hc
      exact after (h1.trans h2) (h3.andThen (Ease.face _ _ rfl le_rfl (fun _ hb => hb) h3.ready))

theorem of_face {f : Face} (hr : Ready B w) (hf : ∀ i, ¬ cmd.feeds i)
    (hc : f.sh.cmdRx = w.sh.cmdRx) (hs : f.sh.senders = w.sh.senders) :
    Takes B cmd w { w with toFace := f } where
  ready := ⟨hr.conn, hr.script, hr.reg⟩
  closing := rfl
  budget := rfl
  reads := rfl
  cmdRx := hc
  senders := hs.ge
  inbox := rfl
  load := Nat.le_add_right _ _
  held i _ hx _ := ⟨hx, hf i⟩
  kept _ _ hx _ _ := .inl hx

/-- The command at the head of the inbox is taken and applied. -/
theorem spares {rest : List DriverCommand} (hi : w.inbox = cmd :: rest)
    (h : Takes B cmd { w with inbox := rest } w') : Preserves B w w' where
  held i x hx hq := by
    obtain ⟨h1, hnf⟩ := h.held i x hx hq
    refine ⟨h1, fun ⟨c, hm, hf⟩ => ?_⟩
    rw [hi] at hm
    rcases List.mem_cons.mp hm with rfl | hm
    · exact absurd hf hnf
    · exact ⟨c, h.inbox ▸ hm, hf⟩
  kept i x hx hq hn := h.kept i x hx hq fun hf => hn ⟨cmd, hi ▸ List.mem_cons_self, hf⟩
  inbox c hm := by
    rw [h.inbox] at hm
    exact hi ▸ List.mem_cons_of_mem _ hm

end Takes

/-- `wait_for_data` awaits the command channel: nothing is left to do, nothing is to be marked,
and the channel is empty but not at its end. -/
def Awaits (w : World σ) : Prop :=
  w.waitDecision = .recv ∧ quiescentHeldIds w.reg = [] ∧ w.sh.cmdRx = [] ∧ w.sh.senders ≠ 0

theorem ne_nil_of_length_le {α : Type} {l l' : List α} (h : l'.length ≤ l.length)
    (hn : l' ≠ []) : l ≠ [] :=
  List.length_pos_iff.mp ((List.length_pos_iff.mpr hn).trans_le h)

/-- The queues the read pump works on. -/
def PumpLeft (r : Registry) : Prop :=
  r.pendingResume.queue ≠ [] ∨ r.pendingReadable.queue ≠ [] ∨ ∃ b, pendingOf r b ≠ []

theorem PumpLeft.mono {P : Nat → Prop} {r r' : Registry} (hl : Lighter P r r') (h : PumpLeft r') :
    PumpLeft r := by
  rcases h with h | h | ⟨b, h⟩
  · exact .inl (ne_nil_of_length_le hl.resume h)
  · exact .inr (.inl (ne_nil_of_length_le hl.readable h))
  · refine .inr (.inr ⟨b, ?_⟩)
    cases b with
    | true => exact ne_nil_of_length_le hl.bidi h
    | false => exact ne_nil_of_length_le hl.uni h

end World

end QuicheH3
