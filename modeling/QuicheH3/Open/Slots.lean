/-
# The reply slots

A requester waits at a slot of its own until the worker writes an answer into it, or until the
requester gives up.  `Slots` says that the slots and the history agree: a slot somebody waits at
has had no answer, none ever gets two, and one that has had none is waited at or given up.

Together with the book of the requests (`Logged`) this says where an answer is still owed: a
request somebody waits for is in its queue, or is a command on its way there (`Slots.queued`).
When the channel is closed no slot is added any more, so what is owed is a list that only gets
shorter (`Awaits`); `Close/Resolve.lean` takes it through the close.

The history reads a delivery off the stream opened last (`deliveries`).  `Slots.carried` says that
this is what the requester finds: an answer that lies in a slot carries halves made for the very
stream delivered to it, and with what is known of halves (`Origin`) these have its id
(`reply_carries`).

Contents
  1  the answers to a request
  2  slots and history agree (`Slots`), move by move
  3  what is still owed (`Awaits`)
  4  runs
-/
import QuicheH3.Open.Order
import QuicheH3.Life.Fate

namespace QuicheH3

open Lib

/-! ## 1. The answers to a request -/

/-- The answer the event gives to request `r`: a failure, or a stream (`none`). -/
def Event.answerTo (r : Nat) : Event → Option (Option ConnTerminal)
  | .answer r' a => if r' = r then some a else none
  | _ => none

/-- The answers to request `r`, newest first. -/
def answersTo (r : Nat) (tr : List Event) : List (Option ConnTerminal) :=
  tr.filterMap (Event.answerTo r)

theorem answersTo_answer_self (r : Nat) (a : Option ConnTerminal) (tr : List Event) :
    answersTo r (.answer r a :: tr) = a :: answersTo r tr := by
  simp [answersTo, Event.answerTo]

theorem answersTo_answer_ne {r r' : Nat} (h : r' ≠ r) (a : Option ConnTerminal) (tr : List Event) :
    answersTo r (.answer r' a :: tr) = answersTo r tr := by
  simp [answersTo, Event.answerTo, h]

theorem mem_answersTo {r : Nat} {a : Option ConnTerminal} {tr : List Event} :
    a ∈ answersTo r tr ↔ .answer r a ∈ tr := by
  simp only [answersTo, List.mem_filterMap]
  constructor
  · rintro ⟨e, he, ha⟩
    cases e with
    | answer r' b =>
      by_cases hr : r' = r
      · simp only [Event.answerTo, hr, if_true, Option.some.injEq] at ha
        subst hr ha
        exact he
      · simp [Event.answerTo, hr] at ha
    | _ => cases ha
  · exact fun h => ⟨_, h, by simp [Event.answerTo]⟩

/-- Events that answer nobody. -/
def Event.isSilent : Event → Prop
  | .answer _ _ => False
  | _ => True

theorem isSilent_of_isInner (e : Event) (h : e.isInner) : e.isSilent := by
  cases e <;> trivial

theorem isSilent_of_isFront (e : Event) (h : e.isFront) : e.isSilent := by
  cases e <;> trivial

theorem blind_answersTo (r : Nat) : Blind Event.isSilent (answersTo r) := by
  intro e tr he
  cases e with
  | answer r' a => exact he.elim
  | _ => rfl

theorem ReplyLe.waiting_of {x y : Reply} (h : ReplyLe x y) (hy : y = .waiting) : x = .waiting := by
  by_contra hx
  exact World.not_waiting_of_replyLe h hx hy

/-! ## 2. Slots and history agree -/

theorem blind_silent_deliveries (b : Bool) : Blind Event.isSilent (deliveries b) := by
  intro e tr he
  cases e with
  | answer r' a => exact he.elim
  | _ => rfl

/-- The answer is a stream. -/
def Reply.Carries : Reply → Prop
  | .bidi _ _ | .uni _ => True
  | _ => False

/-- A reply slot is written once, for the request it was made for. -/
structure Slots (v : OpenView) : Prop where
  waits : ∀ r, v.replies r = .waiting → answersTo r v.hist = []
  once : ∀ r, (answersTo r v.hist).length ≤ 1
  silent : ∀ r, answersTo r v.hist = [] → v.replies r = .waiting ∨ v.replies r = .cancelled
  -- the slots not made yet, and those made
  free : ∀ r, v.nextReply ≤ r → v.replies r = .cancelled
  fresh : ∀ r, v.nextReply ≤ r → answersTo r v.hist = []
  made : ∀ r < v.nextReply, r ∈ (submitted v.hist).filterMap DriverCommand.reply
  -- an answer not taken yet carries the halves of the stream delivered to the slot
  carried : ∀ r, (v.replies r).Carries →
    ∃ id, (r, id) ∈ deliveries (isBidi id) v.hist ∧ Made id v.hist (v.replies r)

namespace Slots

variable {v v' : OpenView}

/-- Nobody is answered, and no slot changes. -/
theorem grows (h : Slots v) (hr : v'.replies = v.replies) (hn : v'.nextReply = v.nextReply)
    (hg : Grows Event.isSilent v.hist v'.hist) (hs : submitted v'.hist = submitted v.hist) :
    Slots v' := by
  have ha : ∀ r, answersTo r v'.hist = answersTo r v.hist := fun r => (blind_answersTo r).grows hg
  have hc := fun b => (blind_silent_deliveries b).grows hg
  constructor <;> simp only [hr, hn, ha, hs, hc]
  · exact h.waits
  · exact h.once
  · exact h.silent
  · exact h.free
  · exact h.fresh
  · exact h.made
  · intro r hr
    obtain ⟨id, hd, hm⟩ := h.carried r hr
    exact ⟨id, hd, hm.mono hg.subset⟩

theorem inner (h : Slots v) {tr : List Event} (hg : Grows Event.isInner v.hist tr)
    {v' : OpenView} (hr : v'.replies = v.replies) (hn : v'.nextReply = v.nextReply)
    (ht : v'.hist = tr) : Slots v' := by
  subst ht
  exact h.grows hr hn (hg.mono isSilent_of_isInner)
    (blind_submitted.grows (hg.mono ne_submit_of_isInner))

theorem front (h : Slots v) (hf : OpenView.Front v v') : Slots v' := by
  obtain ⟨cs, -, hrec, -, hmem⟩ := hf.appends
  have ha : ∀ r, answersTo r v'.hist = answersTo r v.hist := fun r =>
    (blind_answersTo r).grows (hf.grows.mono isSilent_of_isFront)
  have hfree := hf.freeReply h.free
  refine ⟨fun r hr => ?_, fun r => ?_, fun r hr => ?_, hfree, fun r hr => ?_, fun r hr => ?_,
    fun r hr => ?_⟩
  · rw [ha]
    by_cases hlt : r < v.nextReply
    · exact h.waits r ((hf.reply r hlt).waiting_of hr)
    · exact h.fresh r (Nat.not_lt.mp hlt)
  · rw [ha]
    exact h.once r
  · rw [ha] at hr
    by_cases hlt : r < v.nextReply
    · exact (hf.reply r hlt).of_pending (h.silent r hr)
    · by_cases hlt' : r < v'.nextReply
      · exact hf.newReply r (Nat.not_lt.mp hlt) hlt'
      · exact .inr (hfree r (Nat.not_lt.mp hlt'))
  · rw [ha]
    exact h.fresh r (Nat.le_trans hf.nextReply hr)
  · rw [hrec, List.filterMap_append, List.filterMap_reverse]
    by_cases hlt : r < v.nextReply
    · exact List.mem_append_right _ (h.made r hlt)
    · refine List.mem_append_left _ (List.mem_reverse.mpr ?_)
      exact (hmem r).mpr ⟨Nat.not_lt.mp hlt, hr⟩
  · -- an answer found in a slot was there before
    have hsame : v'.replies r = v.replies r := by
      by_cases hlt : r < v.nextReply
      · rcases hf.reply r hlt with he | ⟨-, he⟩ | ⟨-, he | he⟩
        · exact he.symm
        all_goals exact absurd hr (by simp [he, Reply.Carries])
      · have hno : v'.replies r = .waiting ∨ v'.replies r = .cancelled := by
          by_cases hlt' : r < v'.nextReply
          · exact hf.newReply r (Nat.not_lt.mp hlt) hlt'
          · exact .inr (hfree r (Nat.not_lt.mp hlt'))
        rcases hno with he | he <;> exact absurd hr (by simp [he, Reply.Carries])
    rw [hsame] at hr ⊢
    obtain ⟨id, hd, hm⟩ := h.carried r hr
    refine ⟨id, ?_, hm.mono hf.grows.subset⟩
    rwa [(blind_silent_deliveries _).grows (hf.grows.mono isSilent_of_isFront)]

/-- A slot somebody waits at is answered. -/
theorem answer (h : Slots v) {r : Nat} {x : Reply} {a : Option ConnTerminal}
    (hw : v.replies r = .waiting) (hx : x.Answered)
      (hr : v'.replies = Function.update v.replies r x)
    (hn : v'.nextReply = v.nextReply) (ht : v'.hist = .answer r a :: v.hist)
    (hc : x.Carries → ∃ id, a = none ∧ lastOpened v.hist = some id ∧ Made id v.hist x) :
    Slots v' := by
  have hlt : r < v.nextReply := by
    by_contra hge
    have hfree := h.free r (Nat.not_lt.mp hge)
    rw [hw] at hfree
    cases hfree
  have hself : answersTo r v'.hist = [a] := by
    rw [ht, answersTo_answer_self, h.waits r hw]
  have hne :
      ∀ i, i ≠ r → answersTo i v'.hist = answersTo i v.hist ∧ v'.replies i = v.replies i := by
    intro i hi
    rw [ht, hr, answersTo_answer_ne (Ne.symm hi), Function.update_of_ne hi]
    exact ⟨rfl, rfl⟩
  have hsub : submitted v'.hist = submitted v.hist := by
    rw [ht]
    rfl
  have hsuf : ∀ b, ∃ l, deliveries b v'.hist = deliveries b v.hist ++ l := by
    intro b
    rw [ht]
    cases a with
    | none => exact ⟨_, rfl⟩
    | some t => exact ⟨[], by simp [deliveries]⟩
  refine ⟨fun i hi => ?_, fun i => ?_, fun i hi => ?_, fun i hi => ?_, fun i hi => ?_, ?_,
    fun i hi => ?_⟩
  · by_cases hir : i = r
    · subst hir
      rw [hr, Function.update_self] at hi
      exact absurd hi hx.1
    · rw [(hne i hir).2] at hi
      rw [(hne i hir).1]
      exact h.waits i hi
  · by_cases hir : i = r
    · subst hir
      rw [hself]
      exact le_rfl
    · rw [(hne i hir).1]
      exact h.once i
  · by_cases hir : i = r
    · subst hir
      rw [hself] at hi
      cases hi
    · rw [(hne i hir).1] at hi
      rw [(hne i hir).2]
      exact h.silent i hi
  · rw [hn] at hi
    have hir : i ≠ r := by omega
    rw [(hne i hir).2]
    exact h.free i hi
  · rw [hn] at hi
    have hir : i ≠ r := by omega
    rw [(hne i hir).1]
    exact h.fresh i hi
  · rw [hn, hsub]
    exact h.made
  · by_cases hir : i = r
    · subst hir
      rw [hr, Function.update_self] at hi ⊢
      obtain ⟨id, rfl, hlast, hm⟩ := hc hi
      rw [ht]
      refine ⟨id, ?_, hm.mono (List.subset_cons_self _ _)⟩
      simp [deliveries, hlast]
    · rw [(hne i hir).2] at hi ⊢
      obtain ⟨id, hd, hm⟩ := h.carried i hi
      obtain ⟨l, hl⟩ := hsuf (isBidi id)
      refine ⟨id, hl ▸ List.mem_append_left _ hd, hm.mono ?_⟩
      rw [ht]
      exact List.subset_cons_self _ _

/-- The next id of a class is used: no answer yet. -/
theorem serve (h : Slots v) {b : Bool} {rest : List Nat} {tr : List Event}
    (hg : Grows Event.isInner (.streamPriority (v.nextId b) true :: v.hist) tr) :
    Slots (v.serve b rest tr) := by
  have h1 : Slots { v with hist := .streamPriority (v.nextId b) true :: v.hist } :=
    h.grows rfl rfl (.one trivial) rfl
  exact h1.inner hg rfl rfl rfl

theorem move (h : Slots v) (hm : OpenView.Move v v') : Slots v' := by
  cases hm with
  | inner tr hg => exact h.inner hg rfl rfl rfl
  | front _ hf => exact h.front hf
  | pop cmd rest hc => exact h.grows rfl rfl (.one trivial) rfl
  | skip b r rest hq hw => exact h.grows rfl rfl (.refl _ _) rfl
  | fail b r rest t hq hw =>
    exact h.answer hw (by simp [Reply.Answered]) rfl rfl rfl fun h => h.elim
  | deliver b r rest tr ans v1 hq hg hf hw hm =>
    refine ((h.serve hg).front hf).answer hw hm.answered rfl rfl rfl fun _ => ?_
    exact ⟨v.nextId b, rfl, lastOpened_served hg hf, hm.mono hf.grows.subset⟩
  | lapse b r rest tr _ hq hg hf hw => exact (h.serve hg).front hf

theorem moves (h : Slots v) (hm : v.Moves v') : Slots v' := by
  induction hm with
  | refl => exact h
  | tail _ hstep ih => exact ih.move hstep

/-- A slot nobody waits at has its one answer, or was given up without one. -/
theorem settled (h : Slots v) {r : Nat} (hr : v.replies r ≠ .waiting) :
    (∃ a, answersTo r v.hist = [a]) ∨ answersTo r v.hist = [] ∧ v.replies r = .cancelled := by
  have hle := h.once r
  match ha : answersTo r v.hist with
  | [] => exact .inr ⟨rfl, (h.silent r ha).resolve_left hr⟩
  | [a] => exact .inl ⟨a, rfl⟩
  | a :: b :: l => simp [ha] at hle

/-- **Where an answer is owed.**  A request somebody waits for is queued, or on its way. -/
theorem queued (h : Slots v) {log : OpenLog} (hl : Logged v log none) {r : Nat}
    (hr : v.replies r = .waiting) :
    ∃ b, r ∈ v.queue b ++ v.cmds.flatMap (OpenView.requests b) := by
  have hlt : r < v.nextReply := by
    by_contra hge
    have hfree := h.free r (Nat.not_lt.mp hge)
    rw [hr] at hfree
    cases hfree
  have hmade := (requested_perm v.hist).mem_iff.mpr (h.made r hlt)
  have hreq : ∃ b, r ∈ requested b v.hist := by
    rcases List.mem_append.mp hmade with hm | hm
    · exact ⟨true, hm⟩
    · exact ⟨false, hm⟩
  obtain ⟨b, hb⟩ := hreq
  rw [hl.fifo b, List.append_assoc] at hb
  rcases List.mem_append.mp hb with hb | hb
  · -- a request in the book is answered or given up
    obtain ⟨x, hx, rfl⟩ := List.mem_map.mp hb
    have hfate := hl.fate b x hx (by simp)
    have hnone : ∀ a, .answer x.1 a ∉ v.hist := by
      intro a ha
      have hm := mem_answersTo.mpr ha
      rw [h.waits _ hr] at hm
      cases hm
    obtain ⟨r, f⟩ := x
    cases f with
    | gaveUp | undelivered => exact absurd (hr.symm.trans hfate) (by simp)
    | declined | delivered => exact absurd hfate (hnone _)
  · exact ⟨b, hb⟩

end Slots

/-! ## 3. What is still owed -/

/-- The slots somebody waits at are among `S`. -/
structure Awaits (S : List Nat) (v : OpenView) : Prop extends Slots v where
  only : ∀ r, v.replies r = .waiting → r ∈ S

namespace Awaits

variable {v v' : OpenView} {S : List Nat} {r : Nat}

theorem grows (h : Awaits S v) (hr : v'.replies = v.replies) (hn : v'.nextReply = v.nextReply)
    (hg : Grows Event.isSilent v.hist v'.hist) (hs : submitted v'.hist = submitted v.hist) :
    Awaits S v' :=
  ⟨h.toSlots.grows hr hn hg hs, fun r hw => h.only r (hr ▸ hw)⟩

/-- The front end adds no slot, because it submits nothing. -/
theorem front (h : Awaits S v) (hf : OpenView.Front v v') (hn : v'.nextReply = v.nextReply) :
    Awaits S v' := by
  have hs := h.toSlots.front hf
  refine ⟨hs, fun r hw => ?_⟩
  have hlt : r < v.nextReply := by
    by_contra hge
    have hfree := hs.free r (hn ▸ Nat.not_lt.mp hge)
    rw [hw] at hfree
    cases hfree
  exact h.only r ((hf.reply r hlt).waiting_of hw)

/-- The first slot owed is answered. -/
theorem answer (h : Awaits (r :: S) v) {x : Reply} {a : Option ConnTerminal}
    (hw : v.replies r = .waiting) (hx : x.Answered)
      (hr : v'.replies = Function.update v.replies r x)
    (hn : v'.nextReply = v.nextReply) (ht : v'.hist = .answer r a :: v.hist) (hc : ¬ x.Carries) :
    Awaits S v' := by
  refine ⟨h.toSlots.answer hw hx hr hn ht fun h => absurd h hc, fun i hi => ?_⟩
  have hir : i ≠ r := by
    rintro rfl
    rw [hr, Function.update_self] at hi
    exact hx.1 hi
  rw [hr, Function.update_of_ne hir] at hi
  exact (List.mem_cons.mp (h.only i hi)).resolve_left hir

/-- The first slot owed has been given up. -/
theorem skip (h : Awaits (r :: S) v) (hw : v.replies r ≠ .waiting) : Awaits S v := by
  refine ⟨h.toSlots, fun i hi => ?_⟩
  refine (List.mem_cons.mp (h.only i hi)).resolve_left ?_
  rintro rfl
  exact hw hi

end Awaits

/-! ## 4. Runs -/

namespace World

variable {σ : Type} {T : QuicConn σ}

theorem slots_withBuffers (isServer : Bool) (bidiCap uniCap depth : Nat) (cap : Option Nat) (c : σ)
    (script : List (List FrontAct)) :
    Slots (withBuffers isServer bidiCap uniCap depth cap c script).oview :=
  ⟨fun _ _ => rfl, fun _ => Nat.zero_le _, fun _ _ => .inr rfl, fun _ _ => rfl, fun _ _ => rfl,
    fun _ h => absurd h (Nat.not_lt_zero _), fun _ h => h.elim⟩

/-- **What is delivered is what is carried.**  In every state of every run, the halves in a reply
slot have the id of the stream the history says was delivered to that slot. -/
theorem reply_carries {isServer : Bool} {bidiCap uniCap depth : Nat} {cap : Option Nat} {c : σ}
    {script : List (List FrontAct)} {w : World σ}
    (hs : Steps T (withBuffers isServer bidiCap uniCap depth cap c script) w) (r : Nat)
    (hr : (w.sh.replies r).Carries) :
    ∃ id, (r, id) ∈ deliveries (isBidi id) w.trace ∧
      (∀ h c, w.sh.replies r = .bidi h c →
        (w.sh.recvHalves h).id = id ∧ (w.sh.sendHalves c).id = id) ∧
      ∀ c, w.sh.replies r = .uni c → (w.sh.sendHalves c).id = id := by
  have hslots := (slots_withBuffers isServer bidiCap uniCap depth cap c script).moves
    (openMoves_steps hs)
  have ho := (sound_steps hs (sound_withBuffers isServer bidiCap uniCap depth cap c script)).origin
  obtain ⟨id, hd, hm⟩ := hslots.carried r hr
  change Made id w.trace (w.sh.replies r) at hm
  refine ⟨id, hd, fun h c he => ?_, fun c he => ?_⟩
  · rw [he] at hm
    exact ⟨(ho.face.recvMade id h hm.1).2, (ho.face.sendMade id c (.inl hm.2)).2⟩
  · rw [he] at hm
    exact (ho.face.sendMade id c (.inl hm)).2

end World

end QuicheH3
