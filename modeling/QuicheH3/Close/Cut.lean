/-
# The cut

`on_conn_close` closes the command channel in its middle.  What was submitted before that CUT is
drained and answered; what is submitted after it is refused, and the object that submitted it has
to find out from the cells why.  This module is about both sides of the cut as the front end sees
them.

`CloseFrame` and `DrainFrame` do for the close what `Frame` does for the stages: a relation that
contains the updates the close is made of contains the publication of the terminals, and the drain
behind the cut.  `Hushed` is the relation the refusals need.  Nothing is refused before the cut
(`unrefused_steps`), and a refusal behind it carries what the cell of its half held AT the cut.
-/
import QuicheH3.Driver.StepFrame
import QuicheH3.Driver.Close
import QuicheH3.Open.Slots

namespace QuicheH3

open Lib

/-! ## 1. Frames of the close -/

namespace World

variable {σ : Type} {T : QuicConn σ} {t : ConnTerminal}

/-- A relation that contains what the publication of the terminal is made of. -/
structure CloseFrame (t : ConnTerminal) (R : World σ → World σ → Prop) : Prop
    extends Composes R where
  interleave : ∀ w, R w w.interleave
  connCell : ∀ w, R w { w with sh.connTerminal := cellSet w.sh.connTerminal t }
  acceptCellBidi : ∀ w, R w { w with sh.acceptTerminalBidi := cellSet w.sh.acceptTerminalBidi t }
  acceptCellUni : ∀ w, R w { w with sh.acceptTerminalUni := cellSet w.sh.acceptTerminalUni t }
  recvCell : ∀ w h, R w (w.setRecvCell h (.conn t))
  sendCell : ∀ w c, R w (w.setSendCell c (.conn t))
  putSend : ∀ w id s, R w (w.putSend id s)
  completeOp : ∀ w op, R w (w.completeOp op (.error (.conn t)))

/-- ... and the drain behind the cut. -/
structure DrainFrame (t : ConnTerminal) (R : World σ → World σ → Prop) : Prop
    extends CloseFrame t R where
  answer : ∀ w r, w.sh.replies r = .waiting →
    R w ((w.setReply r (.failed t)).emit (.answer r (some t)))

/-- The command channel closes, and its commands and those of the inbox are taken out. -/
def cut (w : World σ) : World σ :=
  { w with sh := { w.sh with cmdRxClosed := true, cmdRx := [] }, inbox := [] }

/-- What follows the close is a batch of the front end. -/
theorem runClosed_eq (T : QuicConn σ) (w : World σ) (ticks : List (Tick σ)) (rest : List FrontAct) :
    w.runClosed T ticks rest = ((w.run T ticks).doOnConnClose T).fronts rest := by
  have h : ∀ (acts : List FrontAct) (u : World σ), acts.foldl front u = u.fronts acts := by
    intro acts
    induction acts with
    | nil => exact fun _ => rfl
    | cons a acts ih => exact fun u => ih (u.front a)
  exact h rest _

namespace CloseFrame

variable {R : World σ → World σ → Prop} (F : CloseFrame t R)

include F

theorem publishConnTerminal (w : World σ) : R w (w.publishConnTerminal t) := by
  have h1 := F.trans (F.interleave w) (F.connCell _)
  have h2 := F.trans h1 (F.trans (F.interleave _) (F.acceptCellBidi _))
  exact F.trans h2 (F.trans (F.interleave _) (F.acceptCellUni _))

theorem publishRecvs (w : World σ) : R w (w.publishRecvs t) := by
  refine F.foldl _ (fun w id => F.trans (F.interleave w) ?_) _ w
  unfold publishRecvTerminal
  split
  · exact F.recvCell _ _
  · exact F.refl _

theorem closeSendEntry (x : World σ × List SendOp) (id : Nat) :
    R x.1 (World.closeSendEntry t x id).1 := by
  have h1 := F.interleave x.1
  unfold World.closeSendEntry
  dsimp only
  split
  · exact h1
  · exact F.trans h1 (F.trans (F.sendCell _ _) (F.putSend _ id _))

theorem closeSendEntries : ∀ (ids : List Nat) (x : World σ × List SendOp),
    R x.1 (ids.foldl (World.closeSendEntry t) x).1
  | [], x => F.refl x.1
  | id :: ids, x => F.trans (F.closeSendEntry x id) (closeSendEntries ids _)

theorem publishSends (w : World σ) : R w (w.publishSends t) :=
  F.trans (F.closeSendEntries w.reg.send.keys (w, [])) (F.foldl _ F.completeOp _ _)

/-- Everything before the cut. -/
theorem publish (w : World σ) :
    R w (((w.publishConnTerminal t).publishRecvs t).publishSends t).interleave :=
  F.trans (F.publishConnTerminal w)
    (F.trans (F.publishRecvs _) (F.trans (F.publishSends _) (F.interleave _)))

end CloseFrame

namespace DrainFrame

variable {R : World σ → World σ → Prop} (F : DrainFrame t R)

include F

theorem replyErr (w : World σ) (r : Nat) : R w (w.replyErr r t) := by
  unfold World.replyErr
  dsimp only
  split
  · rename_i hw
    exact F.trans (F.interleave w) (F.answer _ r hw)
  · exact F.interleave w

theorem completeCommandOnClose (w : World σ) (cmd : DriverCommand) :
    R w (completeCommandOnClose t w cmd) := by
  cases cmd with
  | send id buf done permit => exact F.completeOp w (.write buf done permit)
  | finish id done => exact F.completeOp w (.finish done)
  | openBidi r | openUni r => exact F.replyErr w r
  | _ => exact F.refl w

/-- The commands that were taken out at the cut. -/
theorem ingress (w : World σ) : R w.interleave.cut (w.closeIngress t) :=
  F.foldl _ F.completeCommandOnClose (w.interleave.inbox ++ w.interleave.sh.cmdRx) _

theorem failOpens (w : World σ) :
    R { w with openBidi := [], openUni := [] } (w.failOpens t) :=
  F.foldl _ F.replyErr _ _

omit F in
/-- The whole of the close, for a relation that contains the cut. -/
theorem doOnConnClose {T : QuicConn σ} {w : World σ}
    (F : DrainFrame (classifyConnTerminal T w.ctl) R)
    (hcut : ∀ w, R w w.cut) (hopens : ∀ w, R w { w with openBidi := [], openUni := [] }) :
    R w (w.doOnConnClose T) := by
  have h1 := F.trans (F.publish w) (hcut _)
  have h2 := F.trans h1 (F.ingress _)
  exact F.trans h2 (F.trans (hopens _) (F.failOpens _))

end DrainFrame

end World

/-! ## 2. Refusals -/

/-- A submission the channel did not take. -/
def Event.isRefusal : Event → Prop
  | .sendRefused _ _ | .openRefused _ => True
  | _ => False

/-- Nobody learns less: handles only go, cells once written keep what they hold, and what is
refused on the way carries what the cells of `f` hold. -/
structure Hushed (f f' : Face) : Prop where
  closed : f'.sh.cmdRxClosed = f.sh.cmdRxClosed
  sendRef : ∀ c, f'.sendRef c → f.sendRef c
  id : ∀ c, (f'.sh.sendHalves c).id = (f.sh.sendHalves c).id
  status : ∀ c x, (f.sh.sendHalves c).status = some x → (f'.sh.sendHalves c).status = some x
  set : ∀ c x, (f'.sh.sendHalves c).status = some x →
    (f.sh.sendHalves c).status = some x ∨ .sendSet c x ∈ f'.trace
  conn : ∀ t, f.sh.connTerminal = some t → f'.sh.connTerminal = some t
  final : f.Final → f'.Final
  suffix : f.trace <:+ f'.trace
  refusedSend : ∀ id e, .sendRefused id e ∈ f'.trace → .sendRefused id e ∈ f.trace ∨
    f.sh.cmdRxClosed = true ∧ ∃ c, f.sendRef c ∧ (f.sh.sendHalves c).id = id ∧
      (f.Final → ∀ x, (f.sh.sendHalves c).status = some x → e = some x)
  refusedOpen : ∀ e, .openRefused e ∈ f'.trace → .openRefused e ∈ f.trace ∨
    f.sh.cmdRxClosed = true ∧ ∀ t, f.sh.connTerminal = some t → e = some t

namespace Hushed

variable {f f' f'' : Face}

theorem trans (h : Hushed f f') (h' : Hushed f' f'') : Hushed f f'' where
  closed := h'.closed.trans h.closed
  sendRef c hc := h.sendRef c (h'.sendRef c hc)
  id c := (h'.id c).trans (h.id c)
  status c x hx := h'.status c x (h.status c x hx)
  set c x hx := by
    rcases h'.set c x hx with hx | hx
    · exact (h.set c x hx).imp_right fun hm => h'.suffix.subset hm
    · exact .inr hx
  conn t ht := h'.conn t (h.conn t ht)
  final hf := h'.final (h.final hf)
  suffix := h.suffix.trans h'.suffix
  refusedSend id e he := by
    rcases h'.refusedSend id e he with he | ⟨hc, c, hr, hid, hx⟩
    · exact h.refusedSend id e he
    · exact .inr ⟨h.closed.symm.trans hc, c, h.sendRef c hr, (h.id c).symm.trans hid,
        fun hf x hs => hx (h.final hf) x (h.status c x hs)⟩
  refusedOpen e he := by
    rcases h'.refusedOpen e he with he | ⟨hc, hx⟩
    · exact h.refusedOpen e he
    · exact .inr ⟨h.closed.symm.trans hc, fun t ht => hx t (h.conn t ht)⟩

theorem of_rel (h : FrontRel f f') : Hushed f f' where
  closed := h.closed
  sendRef := h.sendRef
  id := h.id_send
  status c x hx := (h.status c).trans hx
  set c x hx := .inl ((h.status c).symm.trans hx)
  conn t ht := h.connTerminal.trans ht
  final := h.final
  suffix := h.grows.suffix
  refusedSend id e he := by
    rcases h.refusedSend id e he with he | ⟨hc, c, hr, hid, hx⟩
    · exact .inl he
    · exact .inr ⟨hc, c, hr, hid, fun hf x hs => (hx hf).trans hs⟩
  refusedOpen e he := by
    rcases h.refusedOpen e he with he | ⟨hc, hx⟩
    · exact .inl he
    · exact .inr ⟨hc, fun t ht => hx.trans ht⟩

/-- Nothing happens to a send half: at most a slot is answered with a failure. -/
theorem aside (hc : f'.sh.cmdRxClosed = f.sh.cmdRxClosed) (hs : f'.sh.sendHalves = f.sh.sendHalves)
    (ha : f'.sh.acceptBidi = f.sh.acceptBidi)
    (hr : ∀ r, f'.sh.replies r = f.sh.replies r ∨ ∃ t, f'.sh.replies r = .failed t)
    (hconn : ∀ t, f.sh.connTerminal = some t → f'.sh.connTerminal = some t)
    (hg : Grows (fun e => ¬ e.isRefusal) f.trace f'.trace) : Hushed f f' where
  closed := hc
  sendRef c h := by
    unfold Face.sendRef at h ⊢
    rw [hs, ha] at h
    rcases h with h | h | ⟨r, i, h⟩ | ⟨r, h⟩
    · exact .inl h
    · exact .inr (.inl h)
    · rcases hr r with he | ⟨t, he⟩
      · exact .inr (.inr (.inl ⟨r, i, he.symm.trans h⟩))
      · rw [he] at h
        cases h
    · rcases hr r with he | ⟨t, he⟩
      · exact .inr (.inr (.inr ⟨r, he.symm.trans h⟩))
      · rw [he] at h
        cases h
  id c := by rw [hs]
  status c x hx := by rw [hs]; exact hx
  set c x hx := .inl (by rw [hs] at hx; exact hx)
  conn := hconn
  final hf c := by rw [hs]; exact hf c
  suffix := hg.suffix
  refusedSend id e he := .inl (hg.old he (not_not_intro trivial))
  refusedOpen e he := .inl (hg.old he (not_not_intro trivial))

theorem refl (f : Face) : Hushed f f :=
  aside rfl rfl rfl (fun _ => .inl rfl) (fun _ h => h) (.refl _ _)

/-- Nothing is refused while the channel is open. -/
theorem unrefused (h : Hushed f f') (hc : f.sh.cmdRxClosed = false)
    (hnone : ∀ e ∈ f.trace, ¬ e.isRefusal) (e : Event) (he : e ∈ f'.trace) : ¬ e.isRefusal := by
  intro hr
  cases e with
  | sendRefused id x =>
    rcases h.refusedSend id x he with ha | ⟨hx, -⟩
    · exact hnone _ ha hr
    · rw [hc] at hx
      cases hx
  | openRefused x =>
    rcases h.refusedOpen x he with ha | ⟨hx, -⟩
    · exact hnone _ ha hr
    · rw [hc] at hx
      cases hx
  | _ => exact hr

end Hushed

theorem cellSet_of_some {α : Type} {old : Option α} {x y : α} (h : old = some x) :
    cellSet old y = some x := by
  rw [h]
  rfl

namespace World

variable {σ : Type} {T : QuicConn σ} {w w' : World σ} {t : ConnTerminal}

theorem setSendCell_hushed (w : World σ) (c : Nat) (e : SendEnd) :
    Hushed w.toFace (w.setSendCell c e).toFace := by
  unfold setSendCell
  split
  · exact .refl _
  · rename_i hn
    have hself : ((w.modSend c fun s => { s with status := some e }).sh.sendHalves c) =
        { w.sh.sendHalves c with status := some e } := by
      simp [modSend, Face.modSend]
    have hne : ∀ i, i ≠ c →
        (w.modSend c fun s => { s with status := some e }).sh.sendHalves i = w.sh.sendHalves i := by
      intro i hi
      simp [modSend, Face.modSend, hi]
    -- everything but the one cell is as before
    have hcell : ∀ i, ∃ x, (w.modSend c fun s => { s with status := some e }).sh.sendHalves i =
        { w.sh.sendHalves i with status := x } := by
      intro i
      by_cases hi : i = c
      · subst hi
        exact ⟨_, hself⟩
      · exact ⟨_, hne i hi⟩
    have hold : ∀ i x, (w.sh.sendHalves i).status = some x → i ≠ c := by
      rintro i x hx rfl
      rw [hn] at hx
      cases hx
    refine ⟨rfl, fun i hi => ?_, fun i => ?_, fun i x hx => ?_, fun i x hx => ?_, fun _ ht => ht,
      fun hf i => ?_, List.suffix_cons _ _, fun id x hx => .inl ?_, fun x hx => .inl ?_⟩
    · obtain ⟨x, hx⟩ := hcell i
      rcases hi with hi | hi
      · refine .inl ?_
        have hholder := congrArg SendHalf.holder hx
        exact hholder ▸ hi
      · exact .inr hi
    · obtain ⟨x, hx⟩ := hcell i
      have hid := congrArg SendHalf.id hx
      exact hid
    · exact (congrArg SendHalf.status (hne i (hold i x hx))).trans hx
    · by_cases hi : i = c
      · subst hi
        have hx' : some e = some x := (congrArg SendHalf.status hself).symm.trans hx
        cases hx'
        exact .inr List.mem_cons_self
      · exact .inl ((congrArg SendHalf.status (hne i hi)).symm.trans hx)
    · obtain ⟨x, hx⟩ := hcell i
      exact hx ▸ hf i
    · exact (List.mem_cons.mp hx).resolve_left (by simp)
    · exact (List.mem_cons.mp hx).resolve_left (by simp)

theorem drainFrame_hushed :
    DrainFrame t fun w w' : World σ => Hushed w.toFace w'.toFace where
  refl _ := .refl _
  trans h h' := h.trans h'
  interleave w := .of_rel w.interleave_rel
  connCell _ := .aside rfl rfl rfl (fun _ => .inl rfl) (fun _ => cellSet_of_some) (.refl _ _)
  acceptCellBidi _ := .aside rfl rfl rfl (fun _ => .inl rfl) (fun _ => id) (.refl _ _)
  acceptCellUni _ := .aside rfl rfl rfl (fun _ => .inl rfl) (fun _ => id) (.refl _ _)
  recvCell w h := by
    unfold setRecvCell
    split
    · exact .refl _
    · exact .aside rfl rfl rfl (fun _ => .inl rfl) (fun _ => id) (.one not_false)
  sendCell w c := setSendCell_hushed w c _
  putSend _ _ _ := .refl _
  completeOp w op := by
    cases op <;>
      exact .aside rfl rfl rfl (fun _ => .inl rfl) (fun _ => id) (.one not_false)
  answer w r hw := by
    refine .aside rfl rfl rfl (fun i => ?_) (fun _ => id) (.one not_false)
    by_cases hi : i = r
    · subst hi
      exact .inr ⟨t, Function.update_self ..⟩
    · exact .inl (Function.update_of_ne hi ..)

/-! ## 3. Nothing is refused before the cut -/

/-- While the channel is open nothing is refused. -/
def Unrefused (w w' : World σ) : Prop :=
  w.sh.cmdRxClosed = false →
    w'.sh.cmdRxClosed = false ∧ ∀ e ∈ w'.trace, e.isRefusal → e ∈ w.trace

namespace Unrefused

theorem of_grows (hc : w'.sh.cmdRxClosed = w.sh.cmdRxClosed)
    (hg : Grows (fun e => ¬ e.isRefusal) w.trace w'.trace) : Unrefused w w' :=
  fun h => ⟨hc.trans h, fun _ he hr => hg.old he (not_not_intro hr)⟩

theorem same (hc : w'.sh.cmdRxClosed = w.sh.cmdRxClosed) (ht : w'.trace = w.trace) :
    Unrefused w w' := of_grows hc (ht ▸ .refl _ _)

theorem of_rel {f : Face} (hr : FrontRel w.toFace f) (hw : w'.toFace = f) : Unrefused w w' := by
  subst hw
  refine fun h => ⟨hr.closed.trans h, fun e he hx => ?_⟩
  cases e with
  | sendRefused id x =>
    refine (hr.refusedSend id x he).resolve_right fun hc => ?_
    rw [h] at hc
    cases hc.1
  | openRefused x =>
    refine (hr.refusedOpen x he).resolve_right fun hc => ?_
    rw [h] at hc
    cases hc.1
  | _ => exact hx.elim

end Unrefused

theorem not_isRefusal_of_isStage (e : Event) (h : e.isStage) : ¬ e.isRefusal := by
  cases e <;> first | exact not_false | exact h.elim

/-- What is dropped on the worker's side submits and is not told of a refusal. -/
theorem cmdSend_quiet (f : Face) (cmd : DriverCommand) :
    (f.cmdSend cmd).sh.cmdRxClosed = f.sh.cmdRxClosed ∧
    Grows (fun e => ¬ e.isRefusal) f.trace (f.cmdSend cmd).trace := by
  unfold Face.cmdSend
  split
  · exact ⟨rfl, .refl _ _⟩
  · exact ⟨rfl, .one not_false⟩

theorem dropSendHandoff_quiet (f : Face) (c : Nat) :
    (f.dropSendHandoff c).sh.cmdRxClosed = f.sh.cmdRxClosed ∧
    Grows (fun e => ¬ e.isRefusal) f.trace (f.dropSendHandoff c).trace := by
  obtain ⟨hc, hg⟩ := cmdSend_quiet ((f.modSend c fun s => { s with holder := .gone }).emit
    (.sendDropped c)) (.finish (f.sh.sendHalves c).id f.sh.nextTok)
  have h1 : Grows (fun e => ¬ e.isRefusal) f.trace
      ((f.modSend c fun s => { s with holder := .gone }).emit (.sendDropped c)).trace :=
    .one not_false
  exact ⟨hc, h1.trans hg⟩

theorem dropRecvHandoff_quiet (f : Face) (h : Nat) :
    (f.dropRecvHandoff h).sh.cmdRxClosed = f.sh.cmdRxClosed ∧
    Grows (fun e => ¬ e.isRefusal) f.trace (f.dropRecvHandoff h).trace := by
  obtain ⟨hc, hg⟩ := cmdSend_quiet ((f.modRecv h fun r =>
    { r with holder := .gone, bytes := [] }).emit
    (.recvDropped h)) (.stopSending (f.sh.recvHalves h).id 0)
  have h1 : Grows (fun e => ¬ e.isRefusal) f.trace
      ((f.modRecv h fun r => { r with holder := .gone, bytes := [] }).emit
        (.recvDropped h)).trace :=
    .one not_false
  exact ⟨hc, h1.trans hg⟩

theorem dropAnswer_unrefused (w : World σ) (ans : Reply) : Unrefused w (w.dropAnswer ans) := by
  cases ans with
  | bidi h c =>
    obtain ⟨hc, hg⟩ := dropSendHandoff_quiet w.toFace c
    obtain ⟨hc', hg'⟩ := dropRecvHandoff_quiet (w.toFace.dropSendHandoff c) h
    exact .of_grows (hc'.trans hc) (hg.trans hg')
  | uni c =>
    exact .of_grows (dropSendHandoff_quiet w.toFace c).1 (dropSendHandoff_quiet w.toFace c).2
  | _ => exact .same rfl rfl

theorem stepFrame_unrefused : StepFrame (Unrefused (σ := σ)) where
  refl _ := .same rfl rfl
  trans h h' hc := ⟨(h' (h hc).1).1, fun e he hr => (h hc).2 e ((h' (h hc).1).2 e he hr) hr⟩
  interleave w := .of_rel w.interleave_rel rfl
  qconn _ _ := .same rfl rfl
  iterate _ := .same rfl rfl
  emit _ e he := .of_grows rfl (.one (not_isRefusal_of_isStage e he))
  place _ _ _ _ := .of_grows rfl (.one not_false)
  halves _ _ _ _ _ _ _ _ _ _ := .same rfl rfl
  reg _ _ _ := .same rfl rfl
  reply _ _ _ := .same rfl rfl
  dropAnswer := dropAnswer_unrefused
  opens _ _ _ _ _ := .same rfl rfl
  pending _ _ _ := .same rfl rfl
  parked _ _ _ := .same rfl rfl
  acceptFlag _ bidi _ := by cases bidi <;> exact .same rfl rfl
  handBidi _ _ _ := .of_grows rfl (.one not_false)
  handUni _ _ _ := .of_grows rfl (.one not_false)
  ctl _ _ := .same rfl rfl
  probe w e he := by
    refine .of_grows rfl (.one ?_)
    cases e <;> first | exact not_false | exact he.elim
  applied _ _ := .of_grows rfl (.one not_false)
  commands _ _ _ := .same rfl rfl
  fronts w acts := .of_rel (Face.fronts_rel acts w.toFace) rfl

/-- **Nothing is refused before the cut**, at any point of any run. -/
theorem unrefused_steps {isServer : Bool} {bidiCap uniCap depth : Nat} {cap : Option Nat} {c : σ}
    {script : List (List FrontAct)}
    (hw : Steps T (withBuffers isServer bidiCap uniCap depth cap c script) w) :
    w.sh.cmdRxClosed = false ∧ ∀ e ∈ w.trace, ¬ e.isRefusal := by
  obtain ⟨hc, hr⟩ := stepFrame_unrefused.steps hw rfl
  refine ⟨hc, fun e he hx => ?_⟩
  cases hr e he hx

end World

end QuicheH3
