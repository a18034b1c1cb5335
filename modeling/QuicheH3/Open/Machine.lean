/-
# Open requests as a machine of their own

What becomes of a request to open a stream, seen without the rest of the driver: it is a command
on its way, then an index in one of two queues, then an answer in its reply slot, unless the
requester gives up first.  The machine also has the two counters the ids of local streams come
from, since they move when a request is served.

`Counters` is what the counters guarantee: local ids are of the right class and initiator
whatever happens, and no id is used twice as long as the transport opens no id that QUIC does
not have (ids stay below 2^62, so the wrapping addition does not wrap).
-/
import QuicheH3.Driver.Steps
import Mathlib.Data.Nat.Bitwise

namespace QuicheH3

open Lib

/-! ## 1. Queries of the history -/

/-- The transport opened stream `id` for the driver. -/
def Opened (id : Nat) (tr : List Event) : Prop := .streamPriority id true ∈ tr

/-- The transport opens only ids that QUIC has. -/
def NoWrap (tr : List Event) : Prop := ∀ id, Opened id tr → id < 2 ^ 62

/-- The stream that is opened. -/
def Event.opened : Event → Option Nat
  | .streamPriority id true => some id
  | _ => none

theorem noWrap_iff {tr : List Event} : NoWrap tr ↔ ∀ e ∈ tr, ∀ id ∈ e.opened, id < 2 ^ 62 := by
  constructor
  · intro h e he id hid
    unfold Event.opened at hid
    split at hid
    · cases hid
      exact h id he
    · cases hid
  · exact fun h id hid => h _ hid id rfl

instance (tr : List Event) : Decidable (NoWrap tr) := decidable_of_iff _ noWrap_iff.symm

/-- A stream is opened once. -/
def OpenOnce (e : Event) (pre : List Event) : Prop :=
  ∀ id, e = .streamPriority id true → ¬ Opened id pre

/-- Events that neither serve nor answer a request. -/
def Event.isInner : Event → Prop
  | .submit _ | .applied _ | .answer _ _ | .sendRefused _ _ | .openRefused _
  | .streamPriority _ true => False
  | _ => True

/-- The halves an answer or a handoff carries were made for stream `id`. -/
def Made (id : Nat) (tr : List Event) : Reply → Prop
  | .bidi h c => .recvOpen id h ∈ tr ∧ .handle id c ∈ tr
  | .uni c => .handle id c ∈ tr
  | _ => False

theorem Made.mono {id : Nat} {tr tr' : List Event} {ans : Reply} (h : Made id tr ans)
    (hs : tr ⊆ tr') : Made id tr' ans := by
  cases ans with
  | bidi i c => exact ⟨hs h.1, hs h.2⟩
  | uni c => exact hs h
  | _ => exact h

theorem Made.answered {id : Nat} {tr : List Event} {ans : Reply} (h : Made id tr ans) :
    ans.Answered := by
  constructor <;> (rintro rfl; exact h)

/-! ## 2. The machine -/

/-- The requests waiting, the answers given, and the counters of local ids. -/
structure OpenView where
  queue : Bool → List Nat
  cmds : List DriverCommand
  replies : Nat → Reply
  nextReply : Nat
  nextId : Bool → Nat
  srv : Bool
  closed : Bool
  hist : List Event

namespace OpenView

/-- What a command adds to the queue of class `b`. -/
def requests (b : Bool) : DriverCommand → List Nat
  | .openBidi r => if b then [r] else []
  | .openUni r => if b then [] else [r]
  | _ => []

/-- A batch of front-end actions. -/
structure Front (v v' : OpenView) : Prop where
  queue : v'.queue = v.queue
  nextId : v'.nextId = v.nextId
  srv : v'.srv = v.srv
  closed : v'.closed = v.closed
  grows : Grows Event.isFront v.hist v'.hist
  nextReply : v.nextReply ≤ v'.nextReply
  reply : ∀ r < v.nextReply, ReplyLe (v.replies r) (v'.replies r)
  newReply : ∀ r, v.nextReply ≤ r → r < v'.nextReply →
    v'.replies r = .waiting ∨ v'.replies r = .cancelled
  freeReply : (∀ r, v.nextReply ≤ r → v.replies r = .cancelled) →
    ∀ r, v'.nextReply ≤ r → v'.replies r = .cancelled
  appends : ∃ cs, v'.cmds = v.cmds ++ cs ∧ submitted v'.hist = cs.reverse ++ submitted v.hist ∧
    (cs.filterMap DriverCommand.reply).Nodup ∧
    ∀ r, r ∈ cs.filterMap DriverCommand.reply ↔ v.nextReply ≤ r ∧ r < v'.nextReply

/-- The head of the queue of class `b` is taken up and the next id of the class is used;
`tr` is the history with the halves of the new stream. -/
def serve (v : OpenView) (b : Bool) (rest : List Nat) (tr : List Event) : OpenView :=
  { v with
    queue := Function.update v.queue b rest
    nextId := Function.update v.nextId b (World.wrappingAdd4 (v.nextId b))
    hist := tr }

/-- What can happen to requests and their answers. -/
inductive Move : OpenView → OpenView → Prop
  | inner (v : OpenView) (tr : List Event) (hg : Grows Event.isInner v.hist tr) :
      Move v { v with hist := tr }
  | front (v v' : OpenView) (hf : Front v v') : Move v v'
  | pop (v : OpenView) (cmd : DriverCommand) (rest : List DriverCommand)
      (hc : v.cmds = cmd :: rest) :
      Move v { v with
        cmds := rest, hist := .applied cmd :: v.hist
        queue := fun b => v.queue b ++ requests b cmd }
  | skip (v : OpenView) (b : Bool) (r : Nat) (rest : List Nat) (hq : v.queue b = r :: rest)
      (hw : v.replies r ≠ .waiting) : Move v { v with queue := Function.update v.queue b rest }
  | fail (v : OpenView) (b : Bool) (r : Nat) (rest : List Nat) (t : ConnTerminal)
      (hq : v.queue b = r :: rest) (hw : v.replies r = .waiting) :
      Move v { v with
        queue := Function.update v.queue b rest
        replies := Function.update v.replies r (.failed t)
        hist := .answer r (some t) :: v.hist }
  | deliver (v : OpenView) (b : Bool) (r : Nat) (rest : List Nat) (tr : List Event) (ans : Reply)
      (v' : OpenView) (hq : v.queue b = r :: rest)
      (hg : Grows Event.isInner (.streamPriority (v.nextId b) true :: v.hist) tr)
      (hf : Front (v.serve b rest tr) v') (hw : v'.replies r = .waiting)
        (hm : Made (v.nextId b) tr ans) :
      Move v { v' with
        replies := Function.update v'.replies r ans, hist := .answer r none :: v'.hist }
  | lapse (v : OpenView) (b : Bool) (r : Nat) (rest : List Nat) (tr : List Event)
      (v' : OpenView) (hq : v.queue b = r :: rest)
      (hg : Grows Event.isInner (.streamPriority (v.nextId b) true :: v.hist) tr)
      (hf : Front (v.serve b rest tr) v') (hw : v'.replies r ≠ .waiting) : Move v v'

abbrev Moves : OpenView → OpenView → Prop := Relation.ReflTransGen Move

/-- The role of the driver and the end of the channel are not the machine's to change. -/
theorem Move.fixed {v v' : OpenView} (h : Move v v') : v'.srv = v.srv ∧ v'.closed = v.closed := by
  cases h with
  | front _ hf | deliver _ _ _ _ _ _ _ _ hf | lapse _ _ _ _ _ _ _ hf => exact ⟨hf.srv, hf.closed⟩
  | _ => exact ⟨rfl, rfl⟩

theorem Moves.fixed {v v' : OpenView} (h : Moves v v') : v'.srv = v.srv ∧ v'.closed = v.closed := by
  induction h with
  | refl => exact ⟨rfl, rfl⟩
  | tail _ hm ih => exact ⟨hm.fixed.1.trans ih.1, hm.fixed.2.trans ih.2⟩

end OpenView

/-! ## 3. The counters -/

theorem isBidi_eq (id : Nat) : isBidi id = decide (id / 2 % 2 = 0) := by
  have h := Nat.and_two_pow id 1
  unfold isBidi
  rw [show (0x2 : Nat) = 2 ^ 1 from rfl, h, Nat.testBit_eq_decide_div_mod_eq]
  rcases Nat.mod_two_eq_zero_or_one (id / 2) with h | h <;> simp [h]

theorem serverInitiated_eq (id : Nat) : serverInitiated id = decide (id % 2 = 1) := by
  have h := Nat.and_two_pow id 0
  unfold serverInitiated
  rw [show (0x1 : Nat) = 2 ^ 0 from rfl, h, Nat.testBit_eq_decide_div_mod_eq]
  rcases Nat.mod_two_eq_zero_or_one id with h | h <;> simp [h]

/-- The next id of a class is of the same class and initiator. -/
theorem isBidi_wrappingAdd4 (id : Nat) : isBidi (World.wrappingAdd4 id) = isBidi id := by
  rw [isBidi_eq, isBidi_eq, decide_eq_decide]
  unfold World.wrappingAdd4
  omega

theorem serverInitiated_wrappingAdd4 (id : Nat) :
    serverInitiated (World.wrappingAdd4 id) = serverInitiated id := by
  rw [serverInitiated_eq, serverInitiated_eq, decide_eq_decide]
  unfold World.wrappingAdd4
  omega

/-- Local ids are of their class, and new as long as the counters do not wrap. -/
structure Counters (v : OpenView) : Prop where
  cls : ∀ b, isBidi (v.nextId b) = b ∧ serverInitiated (v.nextId b) = v.srv
  loc : ∀ id, Opened id v.hist → serverInitiated id = v.srv
  fresh : NoWrap v.hist → ∀ id, Opened id v.hist → id < v.nextId (isBidi id)
  once : NoWrap v.hist → Always OpenOnce v.hist

namespace Counters

variable {v v' : OpenView}

/-- Nothing is opened. -/
theorem grows (h : Counters v) (hn : v'.nextId = v.nextId) (hs : v'.srv = v.srv)
    (hg : Grows (fun e => ∀ id, e ≠ .streamPriority id true) v.hist v'.hist) : Counters v' := by
  have ho : ∀ id, Opened id v'.hist → Opened id v.hist := fun id hm =>
    hg.old hm fun h => h id rfl
  have hnw : NoWrap v'.hist → NoWrap v.hist := fun hw id hm => hw id (hg.mem hm)
  refine ⟨fun b => ?_, fun id hm => hs ▸ h.loc id (ho id hm), fun hw id hm => ?_, fun hw => ?_⟩
  · rw [hn, hs]
    exact h.cls b
  · rw [hn]
    exact h.fresh (hnw hw) id (ho id hm)
  · exact hg.always (fun e pre he id hid => absurd hid (he id)) (h.once (hnw hw))

theorem ne_of_isInner {e : Event} (h : e.isInner) (id : Nat) : e ≠ .streamPriority id true := by
  rintro rfl
  exact h

theorem ne_of_isFront {e : Event} (h : e.isFront) (id : Nat) : e ≠ .streamPriority id true := by
  rintro rfl
  exact h

theorem front (h : Counters v) (hf : OpenView.Front v v') : Counters v' :=
  h.grows hf.nextId hf.srv (hf.grows.mono fun _ he => ne_of_isFront he)

/-- The next id of a class is used. -/
theorem serve (h : Counters v) {b : Bool} {rest : List Nat} {tr : List Event}
    (hg : Grows Event.isInner (.streamPriority (v.nextId b) true :: v.hist) tr) :
    Counters (v.serve b rest tr) := by
  have h1 : Counters { v with
      queue := Function.update v.queue b rest
      nextId := Function.update v.nextId b (World.wrappingAdd4 (v.nextId b))
      hist := .streamPriority (v.nextId b) true :: v.hist } := by
    have hsub : NoWrap (.streamPriority (v.nextId b) true :: v.hist) →
        NoWrap v.hist ∧ v.nextId b < 2 ^ 62 := fun hw =>
      ⟨fun id hm => hw id (List.mem_cons_of_mem _ hm), hw _ List.mem_cons_self⟩
    refine ⟨fun c => ?_, fun id hm => ?_, fun hw id hm => ?_, fun hw => ?_⟩
    · dsimp only
      by_cases hc : c = b
      · subst hc
        rw [Function.update_self, isBidi_wrappingAdd4, serverInitiated_wrappingAdd4]
        exact h.cls c
      · rw [Function.update_of_ne hc]
        exact h.cls c
    · rcases List.mem_cons.mp hm with hm | hm
      · cases hm
        exact (h.cls b).2
      · exact h.loc id hm
    · obtain ⟨hw0, hlt⟩ := hsub hw
      have hadd : World.wrappingAdd4 (v.nextId b) = v.nextId b + 4 := by
        unfold World.wrappingAdd4
        omega
      dsimp only
      rcases List.mem_cons.mp hm with hm | hm
      · cases hm
        rw [(h.cls b).1, Function.update_self, hadd]
        omega
      · have hid := h.fresh hw0 id hm
        by_cases hc : isBidi id = b
        · rw [hc, Function.update_self, hadd]
          rw [hc] at hid
          omega
        · rw [Function.update_of_ne hc]
          exact hid
    · obtain ⟨hw0, -⟩ := hsub hw
      refine ⟨fun id hid hm => ?_, h.once hw0⟩
      cases hid
      have hid := h.fresh hw0 _ hm
      rw [(h.cls b).1] at hid
      exact lt_irrefl _ hid
  exact h1.grows rfl rfl (hg.mono fun _ he => ne_of_isInner he)

theorem move (h : Counters v) (hm : OpenView.Move v v') : Counters v' := by
  cases hm with
  | inner tr hg => exact h.grows rfl rfl (hg.mono fun _ he => ne_of_isInner he)
  | front _ hf => exact h.front hf
  | pop | fail => exact h.grows rfl rfl (.one (by simp))
  | skip b r rest hq hw => exact h.grows rfl rfl (.refl _ _)
  | deliver b r rest tr ans v1 hq hg hf hw ha =>
    exact ((h.serve hg).front hf).grows rfl rfl (.one (by simp))
  | lapse b r rest tr _ hq hg hf hw => exact (h.serve hg).front hf

theorem moves (h : Counters v) (hm : v.Moves v') : Counters v' := by
  induction hm with
  | refl => exact h
  | tail _ hstep ih => exact ih.move hstep

end Counters

end QuicheH3
