/-
# Who keeps the command channel alive

The worker holds only a weak sender of its own command channel and upgrades it for every handoff
it makes.  The upgrade succeeds while some strong sender is left, and a strong sender is held by
every stream object, by every handoff on its way, by every opener and by the connection.

`Backed` says that the strong count covers them: there is a finite set of SEATS in which every
object sits, and the count is at least its size.  Only an inequality is needed, so a seat may
stay reserved after its object is gone, and nothing has to be known about who else refers to a
half.  While the connection is alive the count is therefore positive, and admission never fails
for want of a sender.

Contents
  1  seats
  2  pieces of the front end, 3 replies, 4 every action
  5  the worker
-/
import Mathlib.Data.Finset.Card
import QuicheH3.Accept.Doors
import QuicheH3.Driver.Frame
import QuicheH3.Driver.Refine

namespace QuicheH3

open Lib

/-! ## 1. Seats -/

/-- The places of the objects that hold a strong sender: a stream object at its half, a handoff
in the reply slot of an open. -/
inductive Seat
  | recv (h : Nat)
  | send (c : Nat)
  | replyRecv (r : Nat)
  | replySend (r : Nat)
  deriving DecidableEq

/-- The receive half and the send half an answer carries. -/
def Reply.hasRecv : Reply → Bool
  | .bidi _ _ => true
  | _ => false

def Reply.hasSend : Reply → Bool
  | .bidi _ _ | .uni _ => true
  | _ => false

/-- An object sits there. -/
def Shared.Seated (sh : Shared) : Seat → Prop
  | .recv h => (sh.recvHalves h).holder.Held
  | .send c => (sh.sendHalves c).holder.Held
  | .replyRecv r => (sh.replies r).hasRecv = true
  | .replySend r => (sh.replies r).hasSend = true

/-- The sender of the connection's own opener, the last of its fields to go. -/
def ConnStage.sender : ConnStage → ℕ
  | .dropped => 0
  | _ => 1

/-- The strong senders of the accept queues, the openers and the connection. -/
def Shared.standing (sh : Shared) : ℕ :=
  2 * sh.acceptBidi.length + sh.acceptUni.length + sh.openers + sh.connStage.sender

/-- The strong count covers all objects and `k` handoffs the worker has in hand. -/
def Shared.Backed (sh : Shared) (k : ℕ) : Prop :=
  ∃ seats : Finset Seat, (∀ s, sh.Seated s → s ∈ seats) ∧ seats.card + sh.standing + k ≤ sh.senders

namespace Shared.Backed

variable {sh sh' : Shared} {k : ℕ}

/-- While the connection is there, its own sender is. -/
theorem senders_pos (h : sh.Backed k) (hc : sh.connStage ≠ .dropped) : 0 < sh.senders := by
  obtain ⟨seats, -, hle⟩ := h
  unfold Shared.standing at hle
  have h1 : sh.connStage.sender = 1 := by
    cases hst : sh.connStage with
    | dropped => exact absurd hst hc
    | _ => rfl
  omega

/-- Nobody sits down; the count may change by as much as what stands does. -/
theorem mono {k' : ℕ} (h : sh.Backed k) (hs : ∀ s, sh'.Seated s → sh.Seated s)
    (hn : sh.senders + sh'.standing + k' ≤ sh'.senders + sh.standing + k) : sh'.Backed k' := by
  obtain ⟨seats, hcov, hle⟩ := h
  exact ⟨seats, fun s hs' => hcov s (hs s hs'), by omega⟩

/-- The objects in `S` get up: their senders are in hand. -/
theorem rise (h : sh.Backed k) (S : Finset Seat) (hS : ∀ s ∈ S, sh.Seated s)
    (hs : ∀ s, sh'.Seated s → sh.Seated s ∧ s ∉ S) (hq : sh'.standing = sh.standing)
    (hn : sh'.senders = sh.senders) : sh'.Backed (k + S.card) := by
  obtain ⟨seats, hcov, hle⟩ := h
  have hsub : S ⊆ seats := fun s hm => hcov s (hS s hm)
  have hcard := Finset.card_sdiff_add_card_eq_card hsub
  refine ⟨seats \ S, fun s hm => ?_, by rw [hq, hn]; omega⟩
  exact Finset.mem_sdiff.mpr ⟨hcov s (hs s hm).1, (hs s hm).2⟩

/-- Handoffs in hand sit down in `S`. -/
theorem sit (S : Finset Seat) (h : sh.Backed (k + S.card))
    (hs : ∀ s, sh'.Seated s → sh.Seated s ∨ s ∈ S) (hq : sh'.standing = sh.standing)
    (hn : sh'.senders = sh.senders) : sh'.Backed k := by
  obtain ⟨seats, hcov, hle⟩ := h
  have hcard := Finset.card_union_le seats S
  refine ⟨seats ∪ S, fun s hm => ?_, by rw [hq, hn]; omega⟩
  rcases hs s hm with hs | hs
  · exact Finset.mem_union_left S (hcov s hs)
  · exact Finset.mem_union_right seats hs

end Shared.Backed

/-! ## 2. Pieces of the front end -/

namespace Face

variable {f : Face} {k : ℕ}

/-- Who sits after a half was written to. -/
theorem seated_modRecv {i : Nat} {g : RecvHalf → RecvHalf} {s : Seat}
    (h : (f.modRecv i g).sh.Seated s) :
    (s = .recv i ∧ (g (f.sh.recvHalves i)).holder.Held) ∨ (s ≠ .recv i ∧ f.sh.Seated s) := by
  cases s with
  | recv j =>
    by_cases hj : j = i
    · subst hj
      exact .inl ⟨rfl, by simpa [modRecv, Shared.Seated] using h⟩
    · exact .inr ⟨by simpa using hj, by simpa [modRecv, Shared.Seated, hj] using h⟩
  | send | replyRecv | replySend => exact .inr ⟨by simp, h⟩

theorem seated_modSend {c : Nat} {g : SendHalf → SendHalf} {s : Seat}
    (h : (f.modSend c g).sh.Seated s) :
    (s = .send c ∧ (g (f.sh.sendHalves c)).holder.Held) ∨ (s ≠ .send c ∧ f.sh.Seated s) := by
  cases s with
  | send j =>
    by_cases hj : j = c
    · subst hj
      exact .inl ⟨rfl, by simpa [modSend, Shared.Seated] using h⟩
    · exact .inr ⟨by simpa using hj, by simpa [modSend, Shared.Seated, hj] using h⟩
  | recv | replyRecv | replySend => exact .inr ⟨by simp, h⟩

theorem seated_setReply {r : Nat} {y : Reply} {s : Seat} (h : (f.setReply r y).sh.Seated s) :
    (s = .replyRecv r ∧ y.hasRecv = true) ∨ (s = .replySend r ∧ y.hasSend = true) ∨
    (s ≠ .replyRecv r ∧ s ≠ .replySend r ∧ f.sh.Seated s) := by
  cases s with
  | recv | send => exact .inr (.inr ⟨by simp, by simp, h⟩)
  | replyRecv j =>
    by_cases hj : j = r
    · subst hj
      exact .inl ⟨rfl, by simpa [setReply, Shared.Seated] using h⟩
    · exact .inr (.inr ⟨by simpa using hj, by simp, by simpa [setReply, Shared.Seated, hj] using h⟩)
  | replySend j =>
    by_cases hj : j = r
    · subst hj
      exact .inr (.inl ⟨rfl, by simpa [setReply, Shared.Seated] using h⟩)
    · exact .inr (.inr ⟨by simp, by simpa using hj, by simpa [setReply, Shared.Seated, hj] using h⟩)

theorem backed_modRecv (h : f.sh.Backed k) (i : Nat) (g : RecvHalf → RecvHalf)
    (hg : (g (f.sh.recvHalves i)).holder.Held → (f.sh.recvHalves i).holder.Held) :
    (f.modRecv i g).sh.Backed k := by
  refine h.mono (fun s hs => ?_) (Nat.le_refl _)
  rcases seated_modRecv hs with ⟨rfl, hh⟩ | ⟨-, hs⟩
  · exact hg hh
  · exact hs

theorem backed_modSend (h : f.sh.Backed k) (c : Nat) (g : SendHalf → SendHalf)
    (hg : (g (f.sh.sendHalves c)).holder.Held → (f.sh.sendHalves c).holder.Held) :
    (f.modSend c g).sh.Backed k := by
  refine h.mono (fun s hs => ?_) (Nat.le_refl _)
  rcases seated_modSend hs with ⟨rfl, hh⟩ | ⟨-, hs⟩
  · exact hg hh
  · exact hs

theorem backed_emit (h : f.sh.Backed k) (e : Event) : (f.emit e).sh.Backed k := h

theorem backed_cmdSend (h : f.sh.Backed k) (cmd : DriverCommand) :
    (f.cmdSend cmd).sh.Backed k := by
  unfold cmdSend
  split
  · exact h
  · exact h.mono (fun s hs => by cases s <;> exact hs) (Nat.le_refl _)

theorem backed_cmdSendFinish (h : f.sh.Backed k) (id : Nat) : (f.cmdSendFinish id).sh.Backed k :=
  (backed_cmdSend h (.finish id f.sh.nextTok)).mono (fun s hs => by cases s <;> exact hs)
    (Nat.le_refl _)

theorem backed_dropSender (h : f.sh.Backed (k + 1)) : f.dropSender.sh.Backed k := by
  obtain ⟨seats, hcov, hle⟩ := h
  refine ⟨seats, fun s hs => hcov s (by cases s <;> exact hs), ?_⟩
  change seats.card + f.sh.standing + k ≤ f.sh.senders - 1
  omega

/-- A stream object that goes frees the sender it held. -/
theorem backed_freeRecv (h : f.sh.Backed k) {i : Nat} {g : RecvHalf → RecvHalf}
    (hi : (f.sh.recvHalves i).holder.Held) (hg : ¬ (g (f.sh.recvHalves i)).holder.Held) :
    (f.modRecv i g).sh.Backed (k + 1) := by
  refine h.rise {.recv i} (by simpa [Shared.Seated] using hi) (fun s hs => ?_) rfl rfl
  rcases seated_modRecv hs with ⟨-, hh⟩ | ⟨hne, hs⟩
  · exact absurd hh hg
  · exact ⟨hs, by simpa using hne⟩

theorem backed_freeSend (h : f.sh.Backed k) {c : Nat} {g : SendHalf → SendHalf}
    (hc : (f.sh.sendHalves c).holder.Held) (hg : ¬ (g (f.sh.sendHalves c)).holder.Held) :
    (f.modSend c g).sh.Backed (k + 1) := by
  refine h.rise {.send c} (by simpa [Shared.Seated] using hc) (fun s hs => ?_) rfl rfl
  rcases seated_modSend hs with ⟨-, hh⟩ | ⟨hne, hs⟩
  · exact absurd hh hg
  · exact ⟨hs, by simpa using hne⟩

/-- A handoff in hand becomes a stream object. -/
theorem backed_holdRecv (h : f.sh.Backed (k + 1)) (i : Nat) (g : RecvHalf → RecvHalf) :
    (f.modRecv i g).sh.Backed k := by
  refine Shared.Backed.sit {.recv i} h (fun s hs => ?_) rfl rfl
  rcases seated_modRecv hs with ⟨rfl, -⟩ | ⟨-, hs⟩
  · exact .inr (by simp)
  · exact .inl hs

theorem backed_holdSend (h : f.sh.Backed (k + 1)) (c : Nat) (g : SendHalf → SendHalf) :
    (f.modSend c g).sh.Backed k := by
  refine Shared.Backed.sit {.send c} h (fun s hs => ?_) rfl rfl
  rcases seated_modSend hs with ⟨rfl, -⟩ | ⟨-, hs⟩
  · exact .inr (by simp)
  · exact .inl hs

/-- A handoff in hand is dropped. -/
theorem backed_dropSendHandoff (h : f.sh.Backed (k + 1)) (c : Nat) :
    (f.dropSendHandoff c).sh.Backed k := by
  have h1 := backed_modSend h c (fun s => { s with holder := .gone }) fun hh => absurd rfl hh.1
  exact backed_dropSender (backed_cmdSendFinish (backed_emit h1 (.sendDropped c)) _)

theorem backed_dropRecvHandoff (h : f.sh.Backed (k + 1)) (i : Nat) :
    (f.dropRecvHandoff i).sh.Backed k := by
  have h1 := backed_modRecv h i (fun r => { r with holder := .gone, bytes := [] })
    fun hh => absurd rfl hh.1
  exact backed_dropSender (backed_cmdSend (backed_emit h1 (.recvDropped i)) _)

theorem backed_dropBidiHandoff (h : f.sh.Backed (k + 2)) (x : Nat × Nat) :
    (f.dropBidiHandoff x).sh.Backed k :=
  backed_dropRecvHandoff (backed_dropSendHandoff h x.2) x.1

/-! ## 3. Replies -/

/-- The handoffs of an answer. -/
def handoffs (x : Reply) : ℕ := (if x.hasRecv then 1 else 0) + if x.hasSend then 1 else 0

/-- The handoffs in slot `r` are taken in hand; the slot carries none afterwards. -/
theorem backed_takeFrom (h : f.sh.Backed k) (r : Nat) {y : Reply} (hr : y.hasRecv = false)
    (hs : y.hasSend = false) : (f.setReply r y).sh.Backed (k + handoffs (f.sh.replies r)) := by
  have hgone {s : Seat} (hm : (f.setReply r y).sh.Seated s) :
      s ≠ .replyRecv r ∧ s ≠ .replySend r ∧ f.sh.Seated s := by
    rcases seated_setReply hm with ⟨-, hy⟩ | ⟨-, hy⟩ | hm
    · rw [hr] at hy
      cases hy
    · rw [hs] at hy
      cases hy
    · exact hm
  have hnone (s : Seat) (hm : (f.setReply r y).sh.Seated s) : f.sh.Seated s := (hgone hm).2.2
  cases hx : f.sh.replies r with
  | bidi i c =>
    refine h.rise {.replyRecv r, .replySend r} ?_ (fun s hm => ⟨hnone s hm, ?_⟩) rfl rfl
    · intro s hm
      rcases Finset.mem_insert.mp hm with rfl | hm
      · simp [Shared.Seated, hx, Reply.hasRecv]
      · rw [Finset.mem_singleton.mp hm]
        simp [Shared.Seated, hx, Reply.hasSend]
    · simpa using ⟨(hgone hm).1, (hgone hm).2.1⟩
  | uni c =>
    refine h.rise {.replySend r} ?_ (fun s hm => ⟨hnone s hm, ?_⟩) rfl rfl
    · simp [Shared.Seated, hx, Reply.hasSend]
    · simpa using (hgone hm).2.1
  | _ => exact h.mono hnone (Nat.le_refl _)

/-- The handoffs in hand are put into slot `r`. -/
theorem backed_answer (r : Nat) (y : Reply) (h : f.sh.Backed (k + handoffs y)) :
    (f.setReply r y).sh.Backed k := by
  cases y with
  | bidi i c =>
    have h2 : f.sh.Backed (k + ({.replyRecv r, .replySend r} : Finset Seat).card) := h
    refine h2.sit _ (fun s hm => ?_) rfl rfl
    rcases seated_setReply hm with ⟨rfl, -⟩ | ⟨rfl, -⟩ | ⟨-, -, hm⟩
    · exact .inr (by simp)
    · exact .inr (by simp)
    · exact .inl hm
  | uni c =>
    have h1 : f.sh.Backed (k + ({.replySend r} : Finset Seat).card) := h
    refine h1.sit _ (fun s hm => ?_) rfl rfl
    rcases seated_setReply hm with ⟨-, hy⟩ | ⟨rfl, -⟩ | ⟨-, -, hm⟩
    · cases hy
    · exact .inr (by simp)
    · exact .inl hm
  | _ =>
    refine h.mono (fun s hm => ?_) (Nat.le_refl _)
    rcases seated_setReply hm with ⟨-, hy⟩ | ⟨-, hy⟩ | ⟨-, -, hm⟩
    · cases hy
    · cases hy
    · exact hm

/-! ## 4. Every action -/

theorem backed_ite {p : Prop} [Decidable p] {x y : Face} (hx : p → x.sh.Backed k)
    (hy : y.sh.Backed k) : (if p then x else y).sh.Backed k := by
  split
  · exact hx ‹p›
  · exact hy

/-- Fields that seat nobody changed. -/
theorem backed_plain {f' : Face} (h : f.sh.Backed k) (hr : f'.sh.recvHalves = f.sh.recvHalves)
    (hs : f'.sh.sendHalves = f.sh.sendHalves) (hp : f'.sh.replies = f.sh.replies)
    (hn : f.sh.senders + f'.sh.standing ≤ f'.sh.senders + f.sh.standing) : f'.sh.Backed k := by
  refine h.mono (fun s hm => ?_) (by omega)
  cases s with
  | recv i => simpa only [Shared.Seated, hr] using hm
  | send c => simpa only [Shared.Seated, hs] using hm
  | replyRecv | replySend => simpa only [Shared.Seated, hp] using hm

theorem held_stream {x : Holder} (h : x = .stream) : x.Held := by
  rw [h]
  exact ⟨by simp, by simp⟩

theorem held_dropping {x : Holder} (h : x = .dropping) : x.Held := by
  rw [h]
  exact ⟨by simp, by simp⟩

theorem held_closing {x : Holder} (h : x = .closing) : x.Held := by
  rw [h]
  exact ⟨by simp, by simp⟩

theorem not_held_gone : ¬ Holder.gone.Held := fun h => h.1 rfl

theorem backed_sendData (h : f.sh.Backed k) (c : Nat) (buf : WriteBuf) :
    (f.sendData c buf).sh.Backed k := by
  unfold sendData
  refine backed_ite (fun _ => ?_) h
  split
  · exact h
  · refine backed_ite (fun _ => h) ?_
    exact backed_plain (backed_cmdSend h _) rfl rfl rfl (Nat.le_refl _)

theorem backed_sendFinish (h : f.sh.Backed k) (c : Nat) : (f.sendFinish c).sh.Backed k := by
  have h1 := backed_modSend h c (fun s => { s with finalized := true }) id
  unfold sendFinish
  refine backed_ite (fun _ => backed_ite (fun _ => h1) ?_) h
  exact backed_cmdSendFinish h1 _

theorem backed_sendDrop (h : f.sh.Backed k) (c : Nat) : (f.sendDrop c).sh.Backed k := by
  unfold sendDrop
  refine backed_ite (fun hg => backed_ite (fun _ => ?_) ?_) h
  · have h1 : (f.modSend c fun s => { s with holder := .gone }).sh.Backed (k + 1) :=
      backed_freeSend h (held_stream hg) not_held_gone
    exact backed_dropSender (backed_emit h1 _)
  · exact backed_emit (backed_modSend h c _ fun _ => held_stream hg) _

theorem backed_sendDropFinish (h : f.sh.Backed k) (c : Nat) :
    (f.sendDropFinish c).sh.Backed k := by
  unfold sendDropFinish
  refine backed_ite (fun hg => ?_) h
  have h1 : (f.modSend c fun s => { s with holder := .gone }).sh.Backed (k + 1) :=
    backed_freeSend h (held_dropping hg) not_held_gone
  exact backed_dropSender (backed_cmdSendFinish h1 _)

theorem backed_recvDrop (h : f.sh.Backed k) (i : Nat) : (f.recvDrop i).sh.Backed k := by
  unfold recvDrop
  refine backed_ite (fun hg => backed_ite (fun _ => ?_) ?_) h
  · exact backed_emit (backed_modRecv h i _ fun _ => held_stream hg.1) _
  · exact backed_emit (backed_modRecv h i _ fun _ => held_stream hg.1) _

theorem backed_openSend (h : f.sh.Backed k) (cmd : Nat → DriverCommand) :
    (f.openSend cmd).sh.Backed k := by
  unfold openSend
  refine backed_ite (fun _ => backed_ite (fun _ => h) ?_) h
  have h1 := backed_answer f.sh.nextReply .waiting h
  exact backed_plain (backed_cmdSend h1 (cmd f.sh.nextReply)) rfl rfl rfl (Nat.le_refl _)

/-- The replies and the accept queues replaced, which no dropped handoff looks at. -/
def restock (f : Face) (p : (Nat → Reply) → Nat → Reply) (b : List (Nat × Nat) → List (Nat × Nat))
    (u : List Nat → List Nat) : Face :=
  { f with
    sh.replies := p f.sh.replies, sh.acceptBidi := b f.sh.acceptBidi
    sh.acceptUni := u f.sh.acceptUni }

section Restock

variable (p : (Nat → Reply) → Nat → Reply) (b : List (Nat × Nat) → List (Nat × Nat))
  (u : List Nat → List Nat)

theorem restock_cmdSend (f : Face) (cmd : DriverCommand) :
    (f.cmdSend cmd).restock p b u = (f.restock p b u).cmdSend cmd := by
  unfold cmdSend
  by_cases hc : f.sh.cmdRxClosed = true
  · rw [if_pos hc, if_pos (by exact hc)]
  · rw [if_neg hc, if_neg (by exact hc)]
    rfl

theorem restock_dropSendHandoff (f : Face) (c : Nat) :
    (f.dropSendHandoff c).restock p b u = (f.restock p b u).dropSendHandoff c := by
  have h1 := restock_cmdSend p b u ((f.modSend c fun s => { s with holder := .gone }).emit
    (.sendDropped c)) (.finish (f.sh.sendHalves c).id f.sh.nextTok)
  exact congrArg (fun f : Face => dropSender { f with sh.nextTok := f.sh.nextTok + 1 }) h1

theorem restock_dropRecvHandoff (f : Face) (i : Nat) :
    (f.dropRecvHandoff i).restock p b u = (f.restock p b u).dropRecvHandoff i := by
  have h1 := restock_cmdSend p b u ((f.modRecv i fun r =>
    { r with holder := .gone, bytes := [] }).emit (.recvDropped i))
    (.stopSending (f.sh.recvHalves i).id 0)
  exact congrArg dropSender h1

theorem restock_dropBidiHandoff (f : Face) (x : Nat × Nat) :
    (f.dropBidiHandoff x).restock p b u = (f.restock p b u).dropBidiHandoff x := by
  unfold dropBidiHandoff
  rw [restock_dropRecvHandoff, restock_dropSendHandoff]

theorem restock_foldl {α : Type} (g : Face → α → Face)
    (hg : ∀ f x, (g f x).restock p b u = g (f.restock p b u) x) (l : List α) (f : Face) :
    (l.foldl g f).restock p b u = l.foldl g (f.restock p b u) := by
  induction l generalizing f with
  | nil => rfl
  | cons x l ih =>
    rw [List.foldl_cons, ih, hg]
    rfl

end Restock

theorem backed_takeReply (h : f.sh.Backed k) (r : Nat) : (f.takeReply r).sh.Backed k := by
  have h1 := backed_takeFrom h r (y := .taken) rfl rfl
  unfold takeReply
  split
  · rename_i i c hr
    rw [hr] at h1
    exact backed_holdSend (backed_holdRecv (k := k + 1) h1 i fun x => { x with holder := .stream })
      c
      fun x => { x with holder := .stream }
  · rename_i c hr
    rw [hr] at h1
    exact backed_holdSend h1 c fun x => { x with holder := .stream }
  · rename_i t hr
    rw [hr] at h1
    exact h1
  · exact h

theorem backed_dropReply (h : f.sh.Backed k) (r : Nat) : (f.dropReply r).sh.Backed k := by
  have h1 := backed_takeFrom h r (y := .cancelled) rfl rfl
  unfold dropReply
  split
  · rename_i hr
    rw [hr] at h1
    exact h1
  · rename_i i c hr
    rw [hr] at h1
    change ((f.dropBidiHandoff (i, c)).restock (Function.update · r .cancelled) id id).sh.Backed k
    rw [restock_dropBidiHandoff]
    exact backed_dropBidiHandoff h1 (i, c)
  · rename_i c hr
    rw [hr] at h1
    change ((f.dropSendHandoff c).restock (Function.update · r .cancelled) id id).sh.Backed k
    rw [restock_dropSendHandoff]
    exact backed_dropSendHandoff h1 c
  · rename_i t hr
    rw [hr] at h1
    exact h1
  · exact h

theorem backed_acceptBidi (h : f.sh.Backed k) : f.acceptBidi.sh.Backed k := by
  unfold acceptBidi
  refine backed_ite (fun _ => ?_) h
  split
  · exact h
  · rename_i i c rest hq
    have h1 : ({ f with sh.acceptBidi := rest, sh.acceptBidiPc := .dequeued } : Face).sh.Backed
        (k + 2) := by
      refine h.mono (fun s hs => by cases s <;> exact hs) ?_
      simp only [Shared.standing, hq, List.length_cons]
      omega
    exact backed_holdSend (backed_holdRecv (k := k + 1) h1 i _) c _

theorem backed_acceptUni (h : f.sh.Backed k) : f.acceptUni.sh.Backed k := by
  unfold acceptUni
  refine backed_ite (fun _ => ?_) h
  split
  · exact h
  · rename_i i rest hq
    have h1 : ({ f with sh.acceptUni := rest, sh.acceptUniPc := .dequeued } : Face).sh.Backed
        (k + 1) := by
      refine h.mono (fun s hs => by cases s <;> exact hs) ?_
      simp only [Shared.standing, hq, List.length_cons]
      omega
    exact backed_holdRecv h1 i _

theorem backed_foldl {α : Type} (g : Face → α → Face) (n : ℕ)
    (hg : ∀ (f : Face) x k, f.sh.Backed (k + n) → (g f x).sh.Backed k) (l : List α) {f : Face}
    (h : f.sh.Backed (k + n * l.length)) : (l.foldl g f).sh.Backed k := by
  induction l generalizing f with
  | nil => exact h
  | cons x l ih =>
    refine ih (hg f x _ ?_)
    rwa [List.length_cons, Nat.mul_succ, ← Nat.add_assoc] at h

/-- The queue of a closing receiver is dropped. -/
theorem backed_closeAcceptBidi (h : f.sh.Backed k) : f.closeAcceptBidi.sh.Backed k := by
  unfold closeAcceptBidi
  refine backed_ite (fun _ => ?_) h
  have h1 : (f.restock id (fun _ => []) id).sh.Backed (k + 2 * f.sh.acceptBidi.length) := by
    refine h.mono (fun s hs => by cases s <;> exact hs) ?_
    simp only [Shared.standing, restock, List.length_nil, id]
    omega
  have h2 := backed_foldl dropBidiHandoff 2 (fun f x k h => backed_dropBidiHandoff h x) _ h1
  rw [← restock_foldl id (fun _ => []) id dropBidiHandoff (restock_dropBidiHandoff _ _ _)] at h2
  exact backed_plain h2 rfl rfl rfl (Nat.le_refl _)

/-- The uni receiver, and with it the connection's own sender. -/
theorem backed_closeAcceptUni (h : f.sh.Backed k) : f.closeAcceptUni.sh.Backed k := by
  unfold closeAcceptUni
  refine backed_ite (fun hg => ?_) h
  have h1 : (f.restock id id (fun _ => [])).sh.Backed (k + 1 * f.sh.acceptUni.length) := by
    refine h.mono (fun s hs => by cases s <;> exact hs) ?_
    simp only [Shared.standing, restock, List.length_nil, id]
    omega
  have h2 := backed_foldl dropRecvHandoff 1 (fun f x k h => backed_dropRecvHandoff h x) _ h1
  have hstage := (Outside.foldl dropRecvHandoff Outside.dropRecvHandoff f.sh.acceptUni f).hall
  rw [← restock_foldl id id (fun _ => []) dropRecvHandoff (restock_dropRecvHandoff _ _ _)] at h2
  generalize f.sh.acceptUni.foldl dropRecvHandoff f = f1 at h2 hstage
  have hs : f1.sh.connStage = .dropping := (congrArg (fun x => x.2.1) hstage).trans hg.1
  refine backed_dropSender (h2.mono (fun s hs => by cases s <;> exact hs) ?_)
  simp only [Shared.standing, restock, hs, id, ConnStage.sender, List.length_nil]
  omega

/-- **Every front-end action keeps the channel backed.** -/
theorem backed_front (h : f.sh.Backed k) (a : FrontAct) : (f.front a).sh.Backed k := by
  cases a with
  | recvDequeue i | recvSwapBlocked i | recvSwapResume i | recvSeeTerminal i =>
    exact backed_ite (fun _ => backed_modRecv h i _ id) h
  | recvSendResume i | recvStopSending i =>
    exact backed_ite (fun _ => backed_cmdSend (backed_modRecv h i _ id) _) h
  | recvDrop i => exact backed_recvDrop h i
  | recvDropStop i =>
    exact backed_ite (fun hg => backed_cmdSend
      (backed_modRecv h i _ fun _ => held_dropping hg) _) h
  | recvDropClose i =>
    exact backed_ite (fun hg => backed_dropSender
      (backed_freeRecv h (held_closing hg) not_held_gone)) h
  | sendData c buf => exact backed_sendData h c buf
  | sendFinish c => exact backed_sendFinish h c
  | sendFinishSeen c => exact backed_ite (fun _ => backed_modSend h c _ id) h
  | sendReset c code => exact backed_ite (fun _ => backed_cmdSend (backed_modSend h c _ id) _) h
  | sendDrop c => exact backed_sendDrop h c
  | sendDropFinish c => exact backed_sendDropFinish h c
  | acceptBidi => exact backed_acceptBidi h
  | acceptBidiSwap | acceptUniSwap =>
    exact backed_ite (fun _ => backed_plain h rfl rfl rfl (Nat.le_refl _)) h
  | acceptBidiSignal | acceptUniSignal =>
    refine backed_ite (fun _ => backed_cmdSend ?_ _) h
    exact backed_plain h rfl rfl rfl (Nat.le_refl _)
  | acceptUni => exact backed_acceptUni h
  | openBidi => exact backed_openSend h .openBidi
  | openUni => exact backed_openSend h .openUni
  | takeReply r => exact backed_takeReply h r
  | dropReply r => exact backed_dropReply h r
  | close code reason => exact backed_ite (fun _ => backed_cmdSend h _) h
  | cloneOpener =>
    refine backed_ite (fun _ => backed_plain h rfl rfl rfl ?_) h
    simp only [Shared.standing]
    omega
  | dropOpener =>
    refine backed_ite (fun ho => backed_dropSender ?_) h
    refine h.mono (fun s hs => by cases s <;> exact hs) ?_
    simp only [Shared.standing]
    omega
  | dropConnection =>
    refine backed_ite (fun hg => backed_cmdSend ?_ _) h
    refine backed_plain h rfl rfl rfl ?_
    simp [Shared.standing, hg.1, ConnStage.sender]
  | closeAcceptBidi => exact backed_closeAcceptBidi h
  | closeAcceptUni => exact backed_closeAcceptUni h

theorem backed_fronts (acts : List FrontAct) {f : Face} (h : f.sh.Backed k) :
    (acts.foldl front f).sh.Backed k := by
  induction acts generalizing f with
  | nil => exact h
  | cons a acts ih => exact ih (backed_front h a)

end Face

/-! ## 5. The worker -/

namespace World

variable {σ : Type} {T : QuicConn σ} {w w' : World σ} {k : ℕ}

/-- What is backed stays so. -/
def KeepsBacked (w w' : World σ) : Prop := ∀ k, w.sh.Backed k → w'.sh.Backed k

theorem backed_frame : Frame (KeepsBacked (σ := σ)) where
  refl _ _ h := h
  trans h h' k hk := h' k (h k hk)
  interleave w _ h := Face.backed_fronts _ h
  qconn _ _ _ h := h
  iterate _ _ h := h
  emit _ _ _ _ h := h
  place _ h chunk _ _ hk :=
    Face.backed_modRecv hk h (fun r => { r with bytes := r.bytes ++ [chunk], permit := false })
      fun hh => hh
  halves w rh nr sh ns re se hr hs hn k hk := by
    refine hk.mono (fun s hm => ?_) (by simp only [Shared.standing]; omega)
    cases s with
    | recv i => exact (hr i).held hm
    | send c => exact hs c hm
    | replyRecv r => exact hm
    | replySend r => exact hm
  reg _ _ _ _ h := h

/-- A half is made for a handoff, which takes a sender along. -/
theorem backed_buildRecv (h : w.sh.Backed k) (id : Nat) (retained : Option RecvEnd) :
    (w.buildRecv id retained).2.sh.Backed (k + 1) := by
  have F : Frame (KeepsBacked (σ := σ)) := backed_frame
  have h1 : ({ w with
      sh.nextRecv := w.sh.nextRecv + 1
      sh.senders := w.sh.senders + 1
      sh.recvHalves := Function.update w.sh.recvHalves w.sh.nextRecv
        { (default : RecvHalf) with
          id := id, depth := max w.recvChannelDepth 1, holder := .handoff } } : World σ).sh.Backed
      (k + 1) := by
    refine h.mono (fun s hm => ?_) (by simp only [Shared.standing]; omega)
    cases s with
    | recv i =>
      exact (RecvHalf.yields_update ⟨fun hh => absurd rfl hh.2, List.nil_suffix⟩ i).held hm
    | send | replyRecv | replySend => exact hm
  unfold buildRecv
  cases retained with
  | none => exact F.recvs.insertRecv _ id _ _ h1
  | some e => exact F.recvs.setRecvCell _ _ e _ h1

theorem backed_buildSend (h : w.sh.Backed k) (id : Nat) (retained : Option SendEnd) :
    (w.buildSend id retained).2.sh.Backed (k + 1) := by
  have F : Frame (KeepsBacked (σ := σ)) := backed_frame
  have h1 : ({ w with
      sh.nextSend := w.sh.nextSend + 1
      sh.senders := w.sh.senders + 1
      sh.sendHalves := Function.update w.sh.sendHalves w.sh.nextSend
        { (default : SendHalf) with id := id, holder := .handoff } } : World σ).sh.Backed
      (k + 1) := by
    refine h.mono (fun s hm => ?_) (by simp only [Shared.standing]; omega)
    cases s with
    | recv | replyRecv | replySend => exact hm
    | send c => exact SendHalf.held_update (fun hh => absurd rfl hh.2) c hm
  have h2 := F.emit _ (.handle id w.sh.nextSend) trivial _ h1
  unfold buildSend
  cases retained with
  | none => exact F.sends.insertSend _ id _ _ h2
  | some e => exact F.sends.setSendCell _ _ e _ h2

theorem backed_buildPeerBidi (h : w.sh.Backed k) (peer : PeerStream) :
    (w.buildPeerBidi peer).2.sh.Backed (k + 2) :=
  backed_buildSend (backed_buildRecv h peer.id peer.pendingRecvTerminal) peer.id _

theorem backed_buildPeerUni (h : w.sh.Backed k) (peer : PeerStream) :
    (w.buildPeerUni peer).2.sh.Backed (k + 1) := backed_buildRecv h peer.id _

/-- The answer of an open takes as many senders along as it has handoffs. -/
theorem backed_buildOpen (h : w.sh.Backed 0) (bidi : Bool) (id : Nat) :
    (w.buildOpen bidi id).2.sh.Backed (0 + Face.handoffs (w.buildOpen bidi id).1) := by
  cases bidi with
  | true => exact backed_buildSend (backed_buildRecv h id none) id none
  | false => exact backed_buildSend h id none

theorem backed_opened (h : w.sh.Backed 0) (bidi : Bool) (rest : List Nat) :
    (w.opened bidi rest).2.sh.Backed (0 + Face.handoffs (w.opened bidi rest).1) := by
  have h1 : (((w.setOpenOf bidi rest).emit (.streamPriority (w.nextIdOf bidi) true)).advanceNextId
      bidi).sh.Backed 0 := by
    cases bidi <;> exact h
  exact backed_buildOpen h1 bidi (w.nextIdOf bidi)

theorem backed_undeliver (bidi : Bool) (id : Nat) (ans : Reply)
    (h : w.sh.Backed (0 + Face.handoffs ans)) : (w.undeliver bidi id ans).sh.Backed 0 := by
  have F : Frame (KeepsBacked (σ := σ)) := backed_frame
  have h1 : (w.dropAnswer ans).sh.Backed 0 := by
    cases ans with
    | bidi i c => exact Face.backed_dropBidiHandoff h (i, c)
    | uni c => exact Face.backed_dropSendHandoff h c
    | _ => exact h
  have h2 := F.sends.dropSendEntry _ id 0 h1
  unfold undeliver
  dsimp only
  split
  · exact F.recvs.dropRecvEntry _ id 0 h2
  · exact h2

theorem backed_applyNow (h : w.sh.Backed 0) (cmd : DriverCommand) :
    (w.applyNow T cmd).sh.Backed 0 := by
  have F : Frame (KeepsBacked (σ := σ)) := backed_frame
  cases cmd with
  | send id buf done permit => exact F.enqueueSendOp _ id (.write buf done permit) 0 h
  | finish id done => exact F.enqueueSendOp _ id (.finish done) 0 h
  | reset id code => exact F.sends.ensureSend _ id 0 h
  | stopSending id code => exact (F.ends id).markRecvDone _ 0 h
  | connectionDropped =>
    have hp (w : World σ) (id : Nat) : KeepsBacked w (w.cleanParked T id) := by
      unfold cleanParked
      split
      · exact F.shutdownPeerDirections w id _
      · exact F.refl w
    have hq (w : World σ) (id : Nat) : KeepsBacked w (w.cleanPending T id) := by
      unfold cleanPending
      split
      · exact F.trans (F.pendingAdmit w _) (F.shutdownPeerDirections _ id _)
      · exact F.refl w
    exact F.foldl _ hq _ _ 0 (F.foldl _ hp _ _ 0 h)
  | _ => exact h

theorem backed_cmdRx {sh : Shared} (h : sh.Backed k) (q : List DriverCommand) :
    ({ sh with cmdRx := q } : Shared).Backed k :=
  h.mono (fun s hm => by cases s <;> exact hm) (Nat.le_refl _)

/-- **Every step keeps the channel backed.** -/
theorem backed_step (hs : Step T w w') (h : w.sh.Backed 0) : w'.sh.Backed 0 := by
  have F : Frame (KeepsBacked (σ := σ)) := backed_frame
  cases hs with
  | front a => exact Face.backed_front h a
  | readable id => exact F.intakeOne _ id 0 h
  | popResume id i rest hp hr =>
    exact Face.backed_modRecv h i (fun r => { r with resume := false }) fun hh => hh
  | reserve id i hr hg hf =>
    exact Face.backed_modRecv h i (fun r => { r with permit := true }) fun hh => hh
  | setBlocked id i b hr hl => exact Face.backed_modRecv h i _ fun hh => hh
  | park id i acts hr hl v hv hf =>
    subst hv
    exact Face.backed_fronts acts (Face.backed_modRecv h i _ fun hh => hh)
  | readErr id i err hr hp => exact F.reserve.permitDrop _ i 0 h
  | readOk id i chunk fin hr hp =>
    unfold placeChunk
    split
    · exact Face.backed_modRecv h i
        (fun r => { r with bytes := r.bytes ++ [chunk], permit := false }) fun hh => hh
    · exact F.reserve.permitDrop _ i 0 h
  | recvEnd id i e hr hf => exact F.trans (F.recvs.setRecvCell w i e) ((F.ends id).markRecvDone _) 0 h
  | abandon id i hr hg => exact (F.ends id).markRecvDone _ 0 h
  | admitBidi bidi id peer r acts ht hb =>
    have h1 := Face.backed_fronts acts
      (backed_buildPeerBidi (w := { w with reg := r }) h peer)
    refine h1.mono (fun s hm => by cases s <;> exact hm) ?_
    simp only [Shared.standing, pushAcceptBidi, emit, Face.emit, fronts, List.length_append,
      List.length_singleton]
    omega
  | admitUni bidi id peer r acts ht hb =>
    have h1 := Face.backed_fronts acts
      (backed_buildPeerUni (w := { w with reg := r }) h peer)
    refine h1.mono (fun s hm => by cases s <;> exact hm) ?_
    simp only [Shared.standing, pushAcceptUni, emit, Face.emit, fronts, List.length_append,
      List.length_singleton]
    omega
  | tear bidi id peer r ht =>
    unfold noteShutdown
    dsimp only
    split <;> exact h
  | settle id => exact (F.ends id).terminalTransition w 0 h
  | acceptFlag bidi b =>
    refine h.mono (fun s hm => ?_) ?_
    · cases bidi <;> cases s <;> exact hm
    · cases bidi <;> exact Nat.le_refl _
  | skipOpen bidi r rest hq hw => cases bidi <;> exact h
  | failOpen bidi r rest t hq hw =>
    exact Face.backed_answer r (.failed t) (k := 0) (by cases bidi <;> exact h)
  | openDeliver bidi r rest acts hq v hv hw =>
    subst hv
    exact Face.backed_answer r _ (Face.backed_fronts acts (backed_opened h bidi rest))
  | openUndeliver bidi r rest acts c hq v hv hw =>
    subst hv
    exact backed_undeliver bidi _ _ (Face.backed_fronts acts (backed_opened h bidi rest))
  | sendEnd id s e hl => exact F.sendTerminalTransition w id e 0 h
  | flushFin id | emptyFin id | loneFin id => exact F.completeFinishOp _ id 0 h
  | hold id s buf t permit ops hl hh ho hr =>
    exact F.sends.completeOp w (.write buf t permit) (.ok ()) 0 h
  | accept id s buf t permit ops n c hl hh ho hr hn hm =>
    exact F.sends.completeOp _ (.write (buf.advance n) t permit) (.ok ()) 0 h
  | skipWrite id s buf t permit ops hl hh ho hr =>
    exact F.sends.completeOp _ (.write buf t permit) (.ok ()) 0 h
  | resetTurn id code s rest hq hs hp => exact (F.ends id).markSendDone _ 0 h
  | apply v cmd hp =>
    refine backed_applyNow ?_ cmd
    cases hp with
    | inbox hi => exact h
    | channel h0 hc => exact backed_cmdRx h _
  | resetEntry id code ha => exact F.resetEntry w id code 0 h
  | toInbox cmd rest hc => exact backed_cmdRx h rest
  | _ => exact h

theorem backed_steps (hs : Steps T w w') (h : w.sh.Backed 0) : w'.sh.Backed 0 := by
  induction hs with
  | refl => exact h
  | tail _ hs ih => exact backed_step hs ih

theorem backed_withBuffers (isServer : Bool) (bidiCap uniCap depth : Nat) (cap : Option Nat) (c : σ)
    (script : List (List FrontAct)) :
    (withBuffers isServer bidiCap uniCap depth cap c script).sh.Backed 0 := by
  refine ⟨∅, fun s hs => ?_, Nat.le_refl _⟩
  cases s with
  | recv | send => exact absurd rfl hs.1
  | replyRecv r => cases hs
  | replySend r => cases hs

end World

end QuicheH3
