/-
# The accept side of the shared memory

Each class of peer streams has a door: a bounded accept queue, a resume bit, and the place the
accepting task has reached after its last dequeue.  Front-end actions that are not accept polls
and do not drop the connection leave both doors alone, whatever else they do, and the poll
actions of one class leave the door of the other alone.  `FrontDoor` lists what is left.

Whatever is shown about admission and parking is shown against this list: the accepting task takes
a handoff, swaps the resume bit, signals, and, when the connection is dropped, closes both doors.

Contents
  1  actions that stay outside
  2  every action
-/
import QuicheH3.Driver.FrontRel

namespace QuicheH3

open Lib

/-- One class of peer streams as worker and accepting task share it. -/
@[ext]
structure Door where
  waiting : Nat
  cap : Nat
  isOpen : Bool
  resume : Bool
  pc : AcceptPc
  deriving DecidableEq

def Shared.door (sh : Shared) : Bool → Door
  | true =>
    ⟨sh.acceptBidi.length, sh.acceptBidiCap, sh.acceptBidiOpen, sh.acceptBidiResume,
      sh.acceptBidiPc⟩
  | false =>
    ⟨sh.acceptUni.length, sh.acceptUniCap, sh.acceptUniOpen, sh.acceptUniResume, sh.acceptUniPc⟩

/-- The command the accepting task of a class sends. -/
def resumeCmd : Bool → DriverCommand
  | true => .acceptBidiResume
  | false => .acceptUniResume

/-- The cells of the connection. -/
def Shared.cells (sh : Shared) : Option ConnTerminal × Option ConnTerminal × Option ConnTerminal :=
  (sh.connTerminal, sh.acceptTerminalBidi, sh.acceptTerminalUni)

/-- What the accept side of a face consists of. -/
def Face.hall (f : Face) : (Bool → Door) × ConnStage × Bool ×
    Option ConnTerminal × Option ConnTerminal × Option ConnTerminal :=
  (f.sh.door, f.sh.connStage, f.sh.cmdRxClosed, f.sh.cells)

namespace Face

variable {f f' : Face}

/-! ## 1. Actions that stay outside -/

/-- The accept side is as before and commands were only appended. -/
structure Outside (f f' : Face) : Prop where
  hall : f'.hall = f.hall
  appends : f.sh.cmdRx <+: f'.sh.cmdRx

namespace Outside

theorem refl (f : Face) : Outside f f := ⟨rfl, List.prefix_rfl⟩

theorem trans {f'' : Face} (h : Outside f f') (h' : Outside f' f'') : Outside f f'' :=
  ⟨h'.hall.trans h.hall, h.appends.trans h'.appends⟩

theorem modRecv (f : Face) (h : Nat) (g : RecvHalf → RecvHalf) : Outside f (f.modRecv h g) :=
  ⟨rfl, List.prefix_rfl⟩

theorem modSend (f : Face) (c : Nat) (g : SendHalf → SendHalf) : Outside f (f.modSend c g) :=
  ⟨rfl, List.prefix_rfl⟩

theorem emit (f : Face) (e : Event) : Outside f (f.emit e) := ⟨rfl, List.prefix_rfl⟩

theorem setReply (f : Face) (r : Nat) (x : Reply) : Outside f (f.setReply r x) :=
  ⟨rfl, List.prefix_rfl⟩

theorem dropSender (f : Face) : Outside f f.dropSender := ⟨rfl, List.prefix_rfl⟩

theorem cmdSend (f : Face) (cmd : DriverCommand) : Outside f (f.cmdSend cmd) := by
  unfold Face.cmdSend
  split
  · exact refl f
  · exact ⟨rfl, List.prefix_append _ _⟩

theorem cmdSendFinish (f : Face) (id : Nat) : Outside f (f.cmdSendFinish id) :=
  (cmdSend f (.finish id f.sh.nextTok)).trans ⟨rfl, List.prefix_rfl⟩

theorem dropSendHandoff (f : Face) (c : Nat) : Outside f (f.dropSendHandoff c) := by
  have h1 := (modSend f c fun s => { s with holder := .gone }).trans (emit _ (.sendDropped c))
  exact h1.trans ((cmdSendFinish _ _).trans (dropSender _))

theorem dropRecvHandoff (f : Face) (h : Nat) : Outside f (f.dropRecvHandoff h) := by
  have h1 := (modRecv f h fun r => { r with holder := .gone, bytes := [] }).trans
    (emit _ (.recvDropped h))
  exact h1.trans ((cmdSend _ _).trans (dropSender _))

theorem dropBidiHandoff (f : Face) (x : Nat × Nat) : Outside f (f.dropBidiHandoff x) :=
  (dropSendHandoff f x.2).trans (dropRecvHandoff _ x.1)

theorem foldl {α : Type} (g : Face → α → Face) (hg : ∀ f x, Outside f (g f x)) :
    ∀ (l : List α) (f : Face), Outside f (l.foldl g f)
  | [], f => refl f
  | x :: l, f => (hg f x).trans (foldl g hg l (g f x))

end Outside

/-! ## 2. Every action -/

/-- What one action does to the doors: nothing, a step of an accept poll, or a step of the
drop of the connection. -/
inductive FrontDoor (f : Face) : Face → Prop
  | outside {f' : Face} (h : Outside f f') : FrontDoor f f'
  | dequeue {f' : Face} (b : Bool) (n : Nat) (hs : f.sh.connStage = .alive)
      (hp : (f.sh.door b).pc = .idle) (hw : (f.sh.door b).waiting = n + 1)
      (h : f'.hall = (Function.update f.sh.door b
        { f.sh.door b with waiting := n, pc := .dequeued }, f.hall.2))
      (hc : f'.sh.cmdRx = f.sh.cmdRx) : FrontDoor f f'
  | swap {f' : Face} (b : Bool) (hp : (f.sh.door b).pc = .dequeued)
      (h : f'.hall = (Function.update f.sh.door b { f.sh.door b with
        resume := true, pc := if (f.sh.door b).resume then .idle else .swapped }, f.hall.2))
      (hc : f'.sh.cmdRx = f.sh.cmdRx) : FrontDoor f f'
  | signal {f' : Face} (b : Bool) (hp : (f.sh.door b).pc = .swapped)
      (h : f'.hall = (Function.update f.sh.door b { f.sh.door b with pc := .idle }, f.hall.2))
      (hc : f'.sh.cmdRx = if f.sh.cmdRxClosed then f.sh.cmdRx
        else f.sh.cmdRx ++ [resumeCmd b]) : FrontDoor f f'
  | leave {f' : Face} (hs : f.sh.connStage = .alive)
      (h : f'.hall = (f.sh.door, .dropping, f.hall.2.2))
      (hc : f'.sh.cmdRx = if f.sh.cmdRxClosed then f.sh.cmdRx
        else f.sh.cmdRx ++ [.connectionDropped]) : FrontDoor f f'
  | shut {f' : Face} (b : Bool) (st : ConnStage) (hs : f.sh.connStage = .dropping)
      (hst : st ≠ .alive)
      (hd : st = .dropped → ∀ c, c ≠ b → (f.sh.door c).isOpen = false)
      (hu : b = false → st = .dropped)
      (h : f'.hall = (Function.update f.sh.door b
        { f.sh.door b with waiting := 0, isOpen := false }, st, f.hall.2.2))
      (hc : f.sh.cmdRx <+: f'.sh.cmdRx) : FrontDoor f f'

theorem FrontDoor.refl (f : Face) : FrontDoor f f := .outside (.refl f)

/-- A guarded action that stays outside. -/
theorem outside_ite {p : Prop} [Decidable p] (h : Outside f f') :
    Outside f (if p then f' else f) := by
  split
  · exact h
  · exact .refl f

theorem sendData_outside (f : Face) (c : Nat) (buf : WriteBuf) : Outside f (f.sendData c buf) := by
  unfold sendData
  dsimp only
  split
  · split
    · exact .refl f
    · split
      · exact .emit f _
      · refine (Outside.cmdSend f (.send (f.sh.sendHalves c).id buf f.sh.nextTok
          (some buf.remaining))).trans ?_
        exact ⟨rfl, List.prefix_rfl⟩
  · exact .refl f

theorem sendFinish_outside (f : Face) (c : Nat) : Outside f (f.sendFinish c) := by
  have h1 := Outside.modSend f c fun s => { s with finalized := true }
  unfold sendFinish
  dsimp only
  split
  · split
    · exact h1.trans (.emit _ _)
    · exact h1.trans (.cmdSendFinish _ _)
  · exact .refl f

theorem sendDrop_outside (f : Face) (c : Nat) : Outside f (f.sendDrop c) := by
  unfold sendDrop
  dsimp only
  split
  · split
    · exact ((Outside.modSend f c _).trans (.emit _ (.sendDropped c))).trans (.dropSender _)
    · exact (Outside.modSend f c _).trans (.emit _ (.sendDropped c))
  · exact .refl f

theorem recvDrop_outside (f : Face) (h : Nat) : Outside f (f.recvDrop h) := by
  unfold recvDrop
  dsimp only
  split
  · split
    · exact (Outside.modRecv f h _).trans (.emit _ (.recvDropped h))
    · exact (Outside.modRecv f h _).trans (.emit _ (.recvDropped h))
  · exact .refl f

theorem openSend_outside (f : Face) (cmd : Nat → DriverCommand) : Outside f (f.openSend cmd) := by
  unfold openSend
  split
  · split
    · exact .emit f _
    · have h1 := (Outside.setReply f f.sh.nextReply .waiting).trans
        (.cmdSend _ (cmd f.sh.nextReply))
      exact h1.trans ⟨rfl, List.prefix_rfl⟩
  · exact .refl f

theorem takeReply_outside (f : Face) (r : Nat) : Outside f (f.takeReply r) := by
  unfold takeReply
  split
  · exact ((Outside.modRecv f _ _).trans (.modSend _ _ _)).trans (.setReply _ r _)
  · exact (Outside.modSend f _ _).trans (.setReply _ r _)
  · exact .setReply f r _
  · exact .refl f

theorem dropReply_outside (f : Face) (r : Nat) : Outside f (f.dropReply r) := by
  unfold dropReply
  split
  · exact .setReply f r _
  · exact (Outside.dropBidiHandoff f _).trans (.setReply _ r _)
  · exact (Outside.dropSendHandoff f _).trans (.setReply _ r _)
  · exact .setReply f r _
  · exact .refl f

theorem acceptBidi_door (f : Face) : FrontDoor f f.acceptBidi := by
  unfold acceptBidi
  split
  · rename_i hg
    split
    · exact .refl f
    · rename_i h c rest hq
      refine .dequeue true rest.length hg.1 hg.2 (congrArg List.length hq) ?_ rfl
      refine Prod.ext (funext fun b => ?_) rfl
      cases b <;> rfl
  · exact .refl f

theorem acceptUni_door (f : Face) : FrontDoor f f.acceptUni := by
  unfold acceptUni
  split
  · rename_i hg
    split
    · exact .refl f
    · rename_i h rest hq
      refine .dequeue false rest.length hg.1 hg.2 (congrArg List.length hq) ?_ rfl
      refine Prod.ext (funext fun b => ?_) rfl
      cases b <;> rfl
  · exact .refl f

theorem acceptBidiSwap_door (f : Face) : FrontDoor f f.acceptBidiSwap := by
  unfold acceptBidiSwap
  split
  · rename_i hp
    refine .swap true hp (Prod.ext (funext fun b => ?_) rfl) rfl
    cases b <;> rfl
  · exact .refl f

theorem acceptUniSwap_door (f : Face) : FrontDoor f f.acceptUniSwap := by
  unfold acceptUniSwap
  split
  · rename_i hp
    refine .swap false hp (Prod.ext (funext fun b => ?_) rfl) rfl
    cases b <;> rfl
  · exact .refl f

theorem cmdRx_cmdSend (f : Face) (cmd : DriverCommand) : (f.cmdSend cmd).sh.cmdRx =
    if f.sh.cmdRxClosed then f.sh.cmdRx else f.sh.cmdRx ++ [cmd] := by
  unfold cmdSend
  split <;> rfl

theorem acceptBidiSignal_door (f : Face) : FrontDoor f f.acceptBidiSignal := by
  unfold acceptBidiSignal
  split
  · rename_i hp
    refine .signal true hp ?_ (cmdRx_cmdSend _ _)
    rw [(Outside.cmdSend _ _).hall]
    refine Prod.ext (funext fun b => ?_) rfl
    cases b <;> rfl
  · exact .refl f

theorem acceptUniSignal_door (f : Face) : FrontDoor f f.acceptUniSignal := by
  unfold acceptUniSignal
  split
  · rename_i hp
    refine .signal false hp ?_ (cmdRx_cmdSend _ _)
    rw [(Outside.cmdSend _ _).hall]
    refine Prod.ext (funext fun b => ?_) rfl
    cases b <;> rfl
  · exact .refl f

theorem dropConnection_door (f : Face) : FrontDoor f f.dropConnection := by
  unfold dropConnection
  split
  · rename_i hg
    refine .leave hg.1 ?_ (cmdRx_cmdSend _ _)
    rw [(Outside.cmdSend _ _).hall]
    rfl
  · exact .refl f

theorem closeAcceptBidi_door (f : Face) : FrontDoor f f.closeAcceptBidi := by
  have hd := Outside.foldl dropBidiHandoff Outside.dropBidiHandoff f.sh.acceptBidi f
  unfold closeAcceptBidi
  split
  · rename_i hg
    refine .shut true f.sh.connStage hg.1 (by rw [hg.1]; simp) (by rw [hg.1]; simp)
      (fun h => nomatch h) ?_ hd.appends
    have hh := hd.hall
    generalize f.sh.acceptBidi.foldl dropBidiHandoff f = f1 at hh
    have hdoor : f1.sh.door = f.sh.door := congrArg Prod.fst hh
    have hrest : f1.hall.2 = f.hall.2 := congrArg Prod.snd hh
    refine Prod.ext (funext fun b => ?_) hrest
    cases b with
    | true =>
      have ht := congrFun hdoor true
      simp only [Function.update_self, ← ht]
      rfl
    | false => exact congrFun hdoor false
  · exact .refl f

theorem closeAcceptUni_door (f : Face) : FrontDoor f f.closeAcceptUni := by
  have hd := Outside.foldl dropRecvHandoff Outside.dropRecvHandoff f.sh.acceptUni f
  unfold closeAcceptUni
  split
  · rename_i hg
    refine .shut false .dropped hg.1 (by simp) (fun _ c hc => ?_) (fun _ => rfl) ?_ hd.appends
    · cases c with
      | true => exact hg.2
      | false => exact absurd rfl hc
    have hh := hd.hall
    generalize f.sh.acceptUni.foldl dropRecvHandoff f = f1 at hh
    have hdoor : f1.sh.door = f.sh.door := congrArg Prod.fst hh
    have hrest : f1.hall.2.2 = f.hall.2.2 := congrArg (fun x => x.2.2) hh
    refine Prod.ext (funext fun b => ?_) (Prod.ext rfl hrest)
    cases b with
    | false =>
      have ht := congrFun hdoor false
      simp only [Function.update_self, ← ht]
      rfl
    | true => exact congrFun hdoor true
  · exact .refl f

/-- **One action of the front end, at the doors.** -/
theorem front_door (f : Face) (a : FrontAct) : FrontDoor f (f.front a) := by
  cases a with
  | acceptBidi => exact acceptBidi_door f
  | acceptBidiSwap => exact acceptBidiSwap_door f
  | acceptBidiSignal => exact acceptBidiSignal_door f
  | acceptUni => exact acceptUni_door f
  | acceptUniSwap => exact acceptUniSwap_door f
  | acceptUniSignal => exact acceptUniSignal_door f
  | dropConnection => exact dropConnection_door f
  | closeAcceptBidi => exact closeAcceptBidi_door f
  | closeAcceptUni => exact closeAcceptUni_door f
  | recvDequeue h | recvSwapBlocked h | recvSwapResume h | recvSeeTerminal h =>
    exact .outside (outside_ite (.modRecv f h _))
  | recvSendResume h | recvStopSending h | recvDropStop h =>
    exact .outside (outside_ite ((Outside.modRecv f h _).trans (.cmdSend _ _)))
  | recvDrop h => exact .outside (recvDrop_outside f h)
  | recvDropClose h =>
    exact .outside (outside_ite ((Outside.modRecv f h _).trans (.dropSender _)))
  | sendData c buf => exact .outside (sendData_outside f c buf)
  | sendFinish c => exact .outside (sendFinish_outside f c)
  | sendFinishSeen c => exact .outside (outside_ite (.modSend f c _))
  | sendReset c code =>
    exact .outside (outside_ite ((Outside.modSend f c _).trans (.cmdSend _ _)))
  | sendDrop c => exact .outside (sendDrop_outside f c)
  | sendDropFinish c =>
    exact .outside (outside_ite (((Outside.modSend f c _).trans (.cmdSendFinish _ _)).trans
      (.dropSender _)))
  | openBidi => exact .outside (openSend_outside f .openBidi)
  | openUni => exact .outside (openSend_outside f .openUni)
  | takeReply r => exact .outside (takeReply_outside f r)
  | dropReply r => exact .outside (dropReply_outside f r)
  | close code reason => exact .outside (outside_ite (.cmdSend f _))
  | cloneOpener | dropOpener => exact .outside (outside_ite ⟨rfl, List.prefix_rfl⟩)

theorem FrontDoor.cells (h : FrontDoor f f') : f'.sh.cells = f.sh.cells := by
  have key (g : Face) : g.sh.cells = g.hall.2.2.2 := rfl
  cases h with
  | outside h => rw [key, key, h.hall]
  | dequeue _ _ _ _ _ h | swap _ _ h | signal _ _ h | leave _ h | shut _ _ _ _ _ _ h =>
    rw [key, key, h]

theorem fronts_cells : ∀ (acts : List FrontAct) (f : Face),
    (acts.foldl front f).sh.cells = f.sh.cells
  | [], _ => rfl
  | a :: acts, f => (fronts_cells acts (f.front a)).trans (front_door f a).cells

end Face

end QuicheH3
