/-
# What `on_conn_close` adds to the history

The last callback publishes terminals, completes what is queued with an error and answers the
open requests.  It makes no transport call, places no chunk, opens and drops no entry.

Results about a run are carried over the close by this: what the history says about reads, writes,
entries and calls when the connection ends is what it says for good.
-/
import QuicheH3.Driver.Sides

namespace QuicheH3

open Lib

/-- Events of `on_conn_close` and of the front end. -/
def Event.isClose : Event → Prop
  | .recvSet _ (.conn _) | .sendSet _ (.conn _) | .resolve _ (.error _) | .answer _ (some _) => True
  | e => e.isFront

theorem isClose_of_isFront (e : Event) (h : e.isFront) : e.isClose := by
  cases e <;> first | exact h | exact h.elim

namespace World

variable {σ : Type} {w : World σ}

/-- The history grows by events of the close. -/
def CloseGrows (w w' : World σ) : Prop := Grows Event.isClose w.trace w'.trace

namespace CloseGrows

variable {w' w'' : World σ}

theorem refl (w : World σ) : CloseGrows w w := Grows.refl _ _

theorem trans (h : CloseGrows w w') (h' : CloseGrows w' w'') : CloseGrows w w'' :=
  Grows.trans h h'

theorem of_eq (h : w'.trace = w.trace) : CloseGrows w w' := by
  unfold CloseGrows
  rw [h]
  exact .refl _ _

theorem cons {e : Event} (h : w'.trace = e :: w.trace) (he : e.isClose) : CloseGrows w w' := by
  unfold CloseGrows
  rw [h]
  exact .one he

theorem foldl {α : Type} (g : World σ → α → World σ) (hg : ∀ w x, CloseGrows w (g w x)) :
    ∀ (l : List α) (w : World σ), CloseGrows w (l.foldl g w)
  | [], w => refl w
  | x :: l, w => (hg w x).trans (foldl g hg l (g w x))

end CloseGrows

theorem interleave_close (w : World σ) : CloseGrows w w.interleave :=
  (Face.fronts_rel (w.ctl.script.headD []) w.toFace).grows.mono isClose_of_isFront

theorem front_close (w : World σ) (a : FrontAct) : CloseGrows w (w.front a) :=
  (Face.front_rel w.toFace a).grows.mono isClose_of_isFront

theorem completeOp_close (w : World σ) (op : SendOp) (e : SendEnd) :
    CloseGrows w (w.completeOp op (.error e)) := by
  cases op <;> exact .cons rfl trivial

theorem publishRecvTerminal_close (w : World σ) (id : Nat) (t : ConnTerminal) :
    CloseGrows w (w.publishRecvTerminal id (.conn t)) := by
  unfold publishRecvTerminal setRecvCell
  split
  · split
    · exact .refl w
    · exact .cons rfl trivial
  · exact .refl w

theorem setSendCell_close (w : World σ) (c : Nat) (t : ConnTerminal) :
    CloseGrows w (w.setSendCell c (.conn t)) := by
  unfold setSendCell
  split
  · exact .refl w
  · exact .cons rfl trivial

theorem closeSendEntry_close (t : ConnTerminal) (x : World σ × List SendOp) (id : Nat) :
    CloseGrows x.1 (closeSendEntry t x id).1 := by
  have h1 := interleave_close x.1
  unfold closeSendEntry
  dsimp only
  split
  · exact h1
  · exact (h1.trans (setSendCell_close _ _ t)).trans (.of_eq rfl)

theorem closeSendEntries_close (t : ConnTerminal) : ∀ (ids : List Nat) (x : World σ × List SendOp),
    CloseGrows x.1 (ids.foldl (closeSendEntry t) x).1
  | [], x => .refl x.1
  | id :: ids, x => (closeSendEntry_close t x id).trans (closeSendEntries_close t ids _)

theorem replyErr_close (w : World σ) (r : Nat) (t : ConnTerminal) :
    CloseGrows w (w.replyErr r t) := by
  have h1 := interleave_close w
  unfold replyErr
  dsimp only
  split
  · exact h1.trans (.cons rfl trivial)
  · exact h1

theorem completeCommandOnClose_close (t : ConnTerminal) (w : World σ) (cmd : DriverCommand) :
    CloseGrows w (completeCommandOnClose t w cmd) := by
  cases cmd with
  | send | finish => exact completeOp_close w _ _
  | openBidi r | openUni r => exact replyErr_close w r t
  | _ => exact .refl w

theorem publishConnTerminal_close (w : World σ) (t : ConnTerminal) :
    CloseGrows w (w.publishConnTerminal t) := by
  have h1 := interleave_close w
  have h2 : CloseGrows w.interleave { w.interleave with
    sh.connTerminal := cellSet w.interleave.sh.connTerminal t } := .of_eq rfl
  generalize hw1 : ({ w.interleave with
    sh.connTerminal := cellSet w.interleave.sh.connTerminal t } : World σ) = w1 at h2
  have h3 := (h1.trans h2).trans (interleave_close w1)
  have h4 : CloseGrows w1.interleave { w1.interleave with
    sh.acceptTerminalBidi := cellSet w1.interleave.sh.acceptTerminalBidi t } := .of_eq rfl
  generalize hw2 : ({ w1.interleave with
    sh.acceptTerminalBidi := cellSet w1.interleave.sh.acceptTerminalBidi t } : World σ) = w2 at h4
  have he : w.publishConnTerminal t = { w2.interleave with
      sh.acceptTerminalUni := cellSet w2.interleave.sh.acceptTerminalUni t } := by
    rw [← hw2, ← hw1]
    rfl
  rw [he]
  exact ((h3.trans h4).trans (interleave_close w2)).trans (.of_eq rfl)

theorem publishRecvs_close (w : World σ) (t : ConnTerminal) : CloseGrows w (w.publishRecvs t) :=
  .foldl _ (fun w id => (interleave_close w).trans (publishRecvTerminal_close _ id t)) _ w

theorem publishSends_close (w : World σ) (t : ConnTerminal) : CloseGrows w (w.publishSends t) := by
  have h1 := closeSendEntries_close t w.reg.send.keys (w, [])
  exact h1.trans (.foldl _ (fun w op => completeOp_close w op _) _ _)

theorem closeIngress_close (w : World σ) (t : ConnTerminal) : CloseGrows w (w.closeIngress t) := by
  have h1 := interleave_close w
  have h2 : CloseGrows w.interleave { w.interleave with
    sh := { w.interleave.sh with cmdRxClosed := true, cmdRx := [] }, inbox := [] } := .of_eq rfl
  exact (h1.trans h2).trans (.foldl _ (completeCommandOnClose_close t) _ _)

theorem failOpens_close (w : World σ) (t : ConnTerminal) : CloseGrows w (w.failOpens t) := by
  have h1 : CloseGrows w { w with openBidi := [], openUni := [] } := .of_eq rfl
  exact h1.trans (.foldl _ (fun w r => replyErr_close w r t) _ _)

/-- **`on_conn_close` adds only events of its own and of the front end.** -/
theorem doOnConnClose_close (T : QuicConn σ) (w : World σ) : CloseGrows w (w.doOnConnClose T) := by
  have h1 := publishConnTerminal_close w (classifyConnTerminal T w.ctl)
  have h2 := h1.trans (publishRecvs_close _ (classifyConnTerminal T w.ctl))
  have h3 := h2.trans (publishSends_close _ (classifyConnTerminal T w.ctl))
  have h4 := h3.trans (closeIngress_close _ (classifyConnTerminal T w.ctl))
  exact h4.trans (failOpens_close _ (classifyConnTerminal T w.ctl))

theorem runClosed_close (T : QuicConn σ) (w : World σ) (ticks : List (Tick σ))
    (rest : List FrontAct) : CloseGrows (w.run T ticks) (w.runClosed T ticks rest) :=
  (doOnConnClose_close T _).trans (.foldl front front_close rest _)

end World

end QuicheH3
