/-
# The accept queues hold what was handed over

The results about admission speak of hand-overs as events of the history, the accepting task finds
halves in a queue.  This module ties the two.  In every state of every run, inside a callback too,
the queue of a class holds the halves of the streams of that class handed over last, in the order
they were handed over: the task takes them off the front, dropping the connection throws the rest
away, and nothing but a hand-over adds one.

The argument has two parts.  Every step but a hand-over lets the queues only lose handoffs at the
front and hands nothing over (`Keeps`, a `PlainFrame`).  A hand-over adds the stream to queue and
history together, with the halves just made for it (`Offered.handsOver`).

Contents
  1  a queue that follows a record (`Follows`): a general fact about lists
  2  the steps that hand nothing over
  3  the hand-over, and every run (`accept_queues_handed`)
-/
import QuicheH3.Accept.Admission
import QuicheH3.Driver.StepFrame

namespace QuicheH3

open Lib

/-! ## 1. A queue that follows a record -/

/-- The elements of `q` belong, one by one and in order, to the end of the record `l`. -/
def Follows {α β : Type} (P : α → β → Prop) (q : List α) (l : List β) : Prop :=
  ∃ last, last <:+ l ∧ List.Forall₂ P q last

namespace Follows

variable {α β : Type} {P P' : α → β → Prop} {q q' : List α} {l : List β}

theorem lose (h : Follows P q l) (hq : q' <:+ q) : Follows P q' l := by
  obtain ⟨last, hl, hf⟩ := h
  obtain ⟨front, rfl⟩ := hq
  refine ⟨last.drop front.length, (List.drop_suffix _ _).trans hl, ?_⟩
  simpa using List.forall₂_drop front.length hf

theorem mono (h : Follows P q l) (hP : ∀ x y, P x y → P' x y) : Follows P' q l := by
  obtain ⟨last, hl, hf⟩ := h
  exact ⟨last, hl, hf.imp hP⟩

/-- Queue and record grow together. -/
theorem push (h : Follows P q l) {x : α} {y : β} (hx : P x y) :
    Follows P (q ++ [x]) (l ++ [y]) := by
  obtain ⟨last, hl, hf⟩ := h
  exact ⟨last ++ [y], List.suffix_append_self_iff.mpr hl, List.rel_append hf (.cons hx .nil)⟩

/-- Where the elements determine what they belong to, the queue itself is the end of the record. -/
theorem map_suffix (h : Follows P q l) {f : α → β} (hf : ∀ x y, P x y → f x = y) :
    q.map f <:+ l := by
  obtain ⟨last, hl, h2⟩ := h
  have hmap : List.Forall₂ (· = ·) (q.map f) last := List.forall₂_map_left_iff.mpr (h2.imp hf)
  rw [List.forall₂_eq_eq_eq] at hmap
  exact hmap ▸ hl

end Follows

/-- The streams of class `b` handed over, oldest first. -/
def handedOf (b : Bool) (tr : List Event) : List Nat := (handOversOf tr).filter (isBidi · = b)

theorem handedOf_grows {tr tr' : List Event} (hg : Grows Event.offHandOver tr tr') (b : Bool) :
    handedOf b tr' = handedOf b tr := by
  obtain ⟨evs, rfl, hev⟩ := hg
  have hno : picked Event.handOverOf evs = [] := handOversOf_offHandOver hev
  rw [handedOf, handOversOf, picked_append, hno, List.append_nil]
  rfl

theorem handedOf_handOver (b : Bool) (id : Nat) (tr : List Event) :
    handedOf b (.handOver id :: tr) = handedOf b tr ++ if isBidi id = b then [id] else [] := by
  rw [handedOf, handOversOf, picked_cons, List.filter_append]
  by_cases hb : isBidi id = b <;> simp [handedOf, handOversOf, Event.handOverOf, hb]

namespace World

variable {σ : Type} {T : QuicConn σ} {w w' w'' : World σ}

/-- What waits in the accept queues are halves of the streams handed over last. -/
structure Offered (w : World σ) : Prop where
  bidi : Follows (fun x id => Made id w.trace (.bidi x.1 x.2)) w.sh.acceptBidi
    (handedOf true w.trace)
  uni : Follows (fun h id => .recvOpen id h ∈ w.trace) w.sh.acceptUni (handedOf false w.trace)

/-! ## 2. The steps that hand nothing over -/

/-- Handoffs leave the accept queues at the front only, and no stream is handed over. -/
structure Keeps (w w' : World σ) : Prop where
  bidi : w'.sh.acceptBidi <:+ w.sh.acceptBidi
  uni : w'.sh.acceptUni <:+ w.sh.acceptUni
  grows : Grows Event.offHandOver w.trace w'.trace

namespace Keeps

theorem trans (h : Keeps w w') (h' : Keeps w' w'') : Keeps w w'' :=
  ⟨h'.bidi.trans h.bidi, h'.uni.trans h.uni, h.grows.trans h'.grows⟩

theorem same (hb : w'.sh.acceptBidi = w.sh.acceptBidi) (hu : w'.sh.acceptUni = w.sh.acceptUni)
    (hg : Grows Event.offHandOver w.trace w'.trace) : Keeps w w' :=
  ⟨hb ▸ List.suffix_rfl, hu ▸ List.suffix_rfl, hg⟩

theorem refl (w : World σ) : Keeps w w := same rfl rfl (.refl _ _)

theorem offHandOver_of_isFront (e : Event) (h : e.isFront) : e.offHandOver := by
  cases e <;> first | exact h.elim | trivial

theorem fronts (w : World σ) (acts : List FrontAct) : Keeps w (w.fronts acts) := by
  have hf := Face.fronts_rel acts w.toFace
  exact ⟨hf.acceptBidi, hf.acceptUni, hf.grows.mono offHandOver_of_isFront⟩

theorem dropAnswer (w : World σ) (ans : Reply) : Keeps w (w.dropAnswer ans) := by
  have hg := (dropAnswer_grows w ans).mono offHandOver_of_isFront
  cases ans with
  | bidi h c =>
    exact same (w.toFace.dropBidiHandoff_accept (h, c)).1 (w.toFace.dropBidiHandoff_accept (h, c)).2
      hg
  | uni c =>
    exact same (w.toFace.dropSendHandoff_accept c).1 (w.toFace.dropSendHandoff_accept c).2 hg
  | _ => exact refl w

theorem frame : PlainFrame (Keeps (σ := σ)) where
  refl := refl
  trans := trans
  interleave w :=
    have h := fronts w (w.ctl.script.headD [])
    ⟨h.bidi, h.uni, h.grows⟩
  qconn _ _ := same rfl rfl (.refl _ _)
  iterate _ := same rfl rfl (.refl _ _)
  emit _ e he := same rfl rfl (.one (by cases e <;> first | exact he.elim | trivial))
  place _ _ _ _ := same rfl rfl (.one trivial)
  halves _ _ _ _ _ _ _ _ _ _ := same rfl rfl (.refl _ _)
  reg _ _ _ := same rfl rfl (.refl _ _)
  reply _ _ _ := same rfl rfl (.refl _ _)
  dropAnswer := dropAnswer
  opens _ _ _ _ _ := same rfl rfl (.refl _ _)
  pending _ _ _ := same rfl rfl (.refl _ _)
  parked _ _ _ := same rfl rfl (.refl _ _)
  acceptFlag _ b _ := by cases b <;> exact same rfl rfl (.refl _ _)
  ctl _ _ := same rfl rfl (.refl _ _)
  probe _ e he := same rfl rfl (.one (by cases e <;> first | exact he.elim | trivial))
  applied _ _ := same rfl rfl (.one trivial)
  commands _ _ _ := same rfl rfl (.refl _ _)
  fronts := fronts

end Keeps

theorem Offered.keeps (h : Offered w) (hk : Keeps w w') : Offered w' := by
  constructor <;> rw [handedOf_grows hk.grows]
  · exact (h.bidi.lose hk.bidi).mono fun _ _ hm => hm.mono hk.grows.subset
  · exact (h.uni.lose hk.uni).mono fun _ _ hm => hk.grows.mem hm

/-! ## 3. The hand-over, and every run -/

/-- The halves handed over are the ones just made, and the front end had its chance meanwhile. -/
theorem Offered.handsOver (h : Offered w) (hs : Sound w) (hh : HandsOver w w') : Offered w' := by
  have hcons {tr : List Event} (e : Event) : tr ⊆ e :: tr := List.subset_cons_self _ _
  cases hh with
  | bidi b id peer r acts ht hb =>
    have hreg : r.send = w.reg.send := by cases ht <;> cases b <;> rfl
    have ho : Origin { w with reg := r } := hs.origin.still (.reg rfl hreg rfl)
    obtain ⟨-, hm⟩ := ho.buildPeerBidi (ht.peerOk hs.peers).2
    have hf := Keeps.frame.fronts (({ w with reg := r } : World σ).buildPeerBidi peer).2 acts
    have h1 := ((h.keeps (Keeps.frame.take ht)).keeps (Keeps.frame.buildPeerBidi _ peer)).keeps hf
    have hm' := hm.mono hf.grows.subset
    constructor <;> refine handedOf_handOver _ peer.id _ ▸ ?_
    · rw [if_pos hb]
      exact (h1.bidi.push hm').mono fun _ _ hx => hx.mono (hcons _)
    · rw [if_neg (by simp [hb]), List.append_nil]
      exact h1.uni.mono fun _ _ hx => hcons _ hx
  | uni b id peer r acts ht hb =>
    have hreg : r.send = w.reg.send := by cases ht <;> cases b <;> rfl
    have ho : Origin { w with reg := r } := hs.origin.still (.reg rfl hreg rfl)
    obtain ⟨-, hm⟩ := ho.buildPeerUni (ht.peerOk hs.peers).2
    have hf := Keeps.frame.fronts (({ w with reg := r } : World σ).buildPeerUni peer).2 acts
    have h1 := ((h.keeps (Keeps.frame.take ht)).keeps (Keeps.frame.buildPeerUni _ peer)).keeps hf
    constructor <;> refine handedOf_handOver _ peer.id _ ▸ ?_
    · rw [if_neg (by simp [hb]), List.append_nil]
      exact h1.bidi.mono fun _ _ hx => hx.mono (hcons _)
    · rw [if_pos hb]
      exact (h1.uni.push (hf.grows.mem hm)).mono fun _ _ hx => hcons _ hx

theorem offered_steps (hs : Steps T w w') (h : Offered w) (hw : Sound w) : Offered w' := by
  induction hs with
  | refl => exact h
  | @tail u v hu hstep ih =>
    by_cases hh : HandsOver u v
    · exact ih.handsOver (sound_steps hu hw) hh
    · exact ih.keeps (Keeps.frame.step hstep hh)

/-- **The accept queues hold what was handed over last.**  In every state of every run the ids of
the halves waiting in the accept queue of a class are the end of the list of streams of that class
handed over, in order; the two halves of a handoff are of one stream. -/
theorem accept_queues_handed {isServer : Bool} {bidiCap uniCap depth : Nat} {cap : Option Nat}
    {c : σ} {script : List (List FrontAct)}
    (hs : Steps T (withBuffers isServer bidiCap uniCap depth cap c script) w) :
    w.sh.acceptBidi.map (fun x => (w.sh.recvHalves x.1).id) <:+ handedOf true w.trace ∧
    w.sh.acceptBidi.map (fun x => (w.sh.sendHalves x.2).id) <:+ handedOf true w.trace ∧
    w.sh.acceptUni.map (fun h => (w.sh.recvHalves h).id) <:+ handedOf false w.trace := by
  have h0 := sound_withBuffers isServer bidiCap uniCap depth cap c script
  have hw := offered_steps hs ⟨⟨[], List.nil_suffix, .nil⟩, ⟨[], List.nil_suffix, .nil⟩⟩ h0
  have ho := (sound_steps hs h0).origin.face
  refine ⟨hw.bidi.map_suffix fun x id hm => ?_, hw.bidi.map_suffix fun x id hm => ?_,
    hw.uni.map_suffix fun h id hm => ?_⟩
  · exact (ho.recvMade id x.1 hm.1).2
  · exact (ho.sendMade id x.2 (.inl hm.2)).2
  · exact (ho.recvMade id h hm).2

end World

end QuicheH3
