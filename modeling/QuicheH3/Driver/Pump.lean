/-
# One drain of one stream, for every relation that contains its pieces

`drain_stream` reads one stream until the transport has nothing more, the channel is full, the
read budget is spent or the direction ends.  It is the longest function on the read side, and
many results have to get past it that are not about reading: that no other stream is touched,
that nothing is handed over, that the work left does not grow.

`ReserveFrame R` lists what reserving a place in the channel is made of (the other tasks run,
one half is written to, an event is recorded), `PumpFrame R id` what the rest of the drain of
stream `id` adds: a call to the transport, a chunk placed while there is read budget, the end of
the receive direction of `id`, and `id` put back into `pending_readable`.  A relation with these
properties contains the whole drain, and the last part of an admission, which is a drain.

Contents
  1  reserving a place
  2  the read budget, which only a placed chunk moves
  3  the drain
-/
import QuicheH3.Driver.Sides

namespace QuicheH3

open Lib

/-- Events of the stages: everything but a chunk placed, a hand-over, a command applied, the
close, and what the front end records. -/
def Event.isStage : Event → Prop
  | .place _ _ | .handOver _ | .applied _ | .connClose _ _ _ => False
  | .submit _ | .sendRefused _ _ | .openRefused _ | .recvDropped _ | .sendDropped _ => False
  | _ => True

theorem isStage_of_isSend (e : Event) (h : e.isSend) : e.isStage := by
  cases e <;> first | exact h.elim | trivial

theorem isStage_of_isRecvReg (e : Event) (h : e.isRecvReg) : e.isStage := by
  cases e <;> first | exact h.elim | trivial

namespace World

variable {σ : Type} {T : QuicConn σ} {R : World σ → World σ → Prop}

/-! ## 1. Reserving a place -/

/-- A relation between worlds that contains what reserving a place is made of. -/
structure ReserveFrame (R : World σ → World σ → Prop) : Prop extends HalfFrame R where
  interleave : ∀ w, R w w.interleave
  emit : ∀ w e, e.isStage → R w (w.emit e)
  recvEvent := fun w e he => emit w e (isStage_of_isRecvReg e he)

namespace ReserveFrame

variable (F : ReserveFrame R) (w : World σ)

include F

theorem tryReserve (h : Nat) : R w (w.tryReserve h).2 := by
  unfold World.tryReserve
  dsimp only
  split
  · exact F.interleave w
  · split
    · refine F.trans (F.interleave w) ?_
      refine F.trans ?_ (F.emit _ (.reserve h) trivial)
      exact F.modRecv _ h _ fun _ => rfl
    · exact F.interleave w

theorem storeBlocked (id : Nat) (b : Bool) : R w (w.storeBlocked id b) := by
  unfold World.storeBlocked
  dsimp only
  split
  · exact F.trans (F.interleave w) (F.modRecv _ _ _ fun _ => rfl)
  · exact F.interleave w

theorem storeResume (id : Nat) (b : Bool) : R w (w.storeResume id b) := by
  unfold World.storeResume
  dsimp only
  split
  · exact F.trans (F.interleave w) (F.modRecv _ _ _ fun _ => rfl)
  · exact F.interleave w

theorem permitDrop (h : Nat) : R w (w.permitDrop h) := by
  refine F.trans ?_ (F.emit _ (.release h) trivial)
  exact F.modRecv w h _ fun _ => rfl

theorem reserveOrPark (id h : Nat) : R w (w.reserveOrPark id h).2 := by
  have h1 := F.tryReserve w h
  unfold World.reserveOrPark
  rcases hw1 : w.tryReserve h with ⟨ans, w1⟩
  rw [hw1] at h1
  cases ans with
  | permit => exact h1
  | closed => exact h1
  | full =>
    have h2 := F.trans h1 (F.trans (F.storeBlocked w1 id true) (F.tryReserve _ h))
    dsimp only
    rcases hw2 : (w1.storeBlocked id true).tryReserve h with ⟨ans, w2⟩
    rw [hw2] at h2
    cases ans with
    | permit => exact F.trans h2 (F.storeBlocked w2 id false)
    | full => exact F.trans h2 (F.emit w2 _ trivial)
    | closed => exact h2

end ReserveFrame

/-! ## 2. The read budget -/

theorem readBudget_tryReserve (w : World σ) (h : Nat) :
    (w.tryReserve h).2.ctl.readBudget = w.ctl.readBudget := by
  unfold tryReserve
  dsimp only
  split
  · rfl
  · split <;> rfl

theorem readBudget_storeBlocked (w : World σ) (id : Nat) (b : Bool) :
    (w.storeBlocked id b).ctl.readBudget = w.ctl.readBudget := by
  unfold storeBlocked
  dsimp only
  split <;> rfl

theorem readBudget_reserveOrPark (w : World σ) (id h : Nat) :
    (w.reserveOrPark id h).2.ctl.readBudget = w.ctl.readBudget := by
  have h1 := readBudget_tryReserve w h
  unfold reserveOrPark
  rcases hw1 : w.tryReserve h with ⟨ans, w1⟩
  rw [hw1] at h1
  cases ans with
  | permit => exact h1
  | closed => exact h1
  | full =>
    have h2 := (readBudget_tryReserve (w1.storeBlocked id true) h).trans
      ((readBudget_storeBlocked w1 id true).trans h1)
    dsimp only
    rcases hw2 : (w1.storeBlocked id true).tryReserve h with ⟨ans, w2⟩
    rw [hw2] at h2
    cases ans with
    | permit => exact (readBudget_storeBlocked w2 id false).trans h2
    | full => exact h2
    | closed => exact h2

/-! ## 3. The drain -/

/-- A relation between worlds that contains what the drain of stream `id` is made of. -/
structure PumpFrame (R : World σ → World σ → Prop) (id : Nat) : Prop
    extends ReserveFrame R, EndFrame R id where
  call : ∀ w c e, e.isStage → R w ({ w with ctl.qconn := c }.emit e)
  /-- A chunk is placed only while there is read budget, and costs one unit of it. -/
  place : ∀ w h chunk, 0 < w.ctl.readBudget →
    R w { w.permitSend h chunk with ctl.readBudget := w.ctl.readBudget - 1 }
  requeueAndIterate : ∀ w, R w (w.requeueAndIterate id)

namespace PumpFrame

variable {id : Nat} (F : PumpFrame R id) (w : World σ)

include F

/-- A terminal is published to the half of `id` and its direction ends. -/
theorem sealRecv (e : RecvEnd) :
    R w ((w.interleave.publishRecvTerminal id e).markRecvDone id) := by
  have h1 := F.trans (F.interleave w) (F.publishRecvTerminal _ id e)
  exact F.trans h1 (F.markRecvDone _)

theorem abandonRecv : R w (w.abandonRecv T id) := by
  have h1 : R w (w.streamShutdown T id .read h3NoError) := F.call w _ _ trivial
  exact F.trans h1 (F.markRecvDone _)

theorem recvError (err : QuicheError) : R w (w.recvError id err) := by
  unfold World.recvError
  split
  · exact F.refl w
  · exact F.sealRecv w _
  · unfold World.resolveRecvViaConn
    split
    · exact F.sealRecv w _
    · exact F.recvCursors w
  · exact F.sealRecv w _

theorem recvChunk (h : Nat) (chunk : Bytes) (fin : Bool)
    (hb : 0 < w.ctl.readBudget) : R w (w.recvChunk id h chunk fin) := by
  have h1 : R w (if chunk ≠ [] then
      { w.permitSend h chunk with ctl.readBudget := (w.permitSend h chunk).ctl.readBudget - 1 }
      else w.permitDrop h) := by
    split
    · exact F.place w h chunk hb
    · exact F.permitDrop w h
  unfold World.recvChunk
  dsimp only
  split
  · exact F.trans h1 (F.sealRecv _ _)
  · exact h1

theorem drainLoop (h : Nat) : ∀ (n : Nat) (w : World σ), R w (drainLoop T id h n w)
  | 0, w => by
    unfold World.drainLoop
    split
    · exact F.requeueAndIterate w
    · exact F.refl w
  | n + 1, w => by
    unfold World.drainLoop
    split
    · exact F.requeueAndIterate w
    · rename_i hb
      have h1 := F.reserveOrPark w id h
      have hb1 := readBudget_reserveOrPark w id h
      rcases hw1 : w.reserveOrPark id h with ⟨ans, w1⟩
      rw [hw1] at h1 hb1
      cases ans with
      | full => exact h1
      | closed => exact F.trans h1 (F.abandonRecv w1)
      | permit =>
        have h2 : R w (w1.interleave.streamRecv T id).2 :=
          F.trans h1 (F.trans (F.interleave w1) (F.call _ _ _ trivial))
        have hb2 : (w1.interleave.streamRecv T id).2.ctl.readBudget = w.ctl.readBudget := hb1
        dsimp only
        rcases hw2 : w1.interleave.streamRecv T id with ⟨ans, w2⟩
        rw [hw2] at h2 hb2
        cases ans with
        | error err => exact F.trans h2 (F.trans (F.permitDrop w2 h) (F.recvError _ err))
        | ok x =>
          obtain ⟨chunk, fin⟩ := x
          have h3 := F.trans h2 (F.recvChunk w2 h chunk fin
            (Nat.pos_of_ne_zero (hb2.symm ▸ hb)))
          dsimp only
          split
          · exact h3
          · exact F.trans h3 (drainLoop h n _)

theorem drainStream : R w (w.drainStream T id) := by
  unfold World.drainStream
  split
  · exact F.drainLoop _ _ w
  · exact F.refl w

theorem admitFinish : R w (w.admitFinish T id) := by
  have h1 := F.terminalTransition w
  unfold World.admitFinish
  dsimp only
  split
  · rename_i h hr
    exact F.trans h1 (F.trans (F.emit _ (.drain h) trivial) (F.drainStream _))
  · exact h1

end PumpFrame

end World

end QuicheH3
