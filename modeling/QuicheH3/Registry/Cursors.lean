/-
# The cursor queues

`pending_readable`, `pending_resume` and `runnable_send` are each kept together with the set of
the ids queued, and a missed update of one of the two makes a stream invisible or queues it
twice.  Every function of the worker changes them through `push`, `drop` and `pop` only, so queue
and set agree in every state of every run.
-/
import QuicheH3.Driver.StepFrame

namespace QuicheH3

open Lib

/-- The three queues agree with their sets. -/
structure Registry.Synced (r : Registry) : Prop where
  runnable : r.runnableSend.Synced
  readable : r.pendingReadable.Synced
  resume : r.pendingResume.Synced

namespace World

variable {σ : Type} {T : QuicConn σ} {w w' : World σ}

theorem synced_frame :
    RunFrame fun w w' : World σ => w.reg.Synced → w'.reg.Synced where
  refl _ := id
  trans h h' := h' ∘ h
  interleave _ := id
  qconn _ _ := id
  iterate _ := id
  emit _ _ _ := id
  place _ _ _ _ := id
  halves _ _ _ _ _ _ _ _ _ _ := id
  reg w r hr h := by
    cases hr with
    | runnable hq => exact ⟨h.runnable.use hq, h.readable, h.resume⟩
    | readable hq => exact ⟨h.runnable, h.readable.use hq, h.resume⟩
    | resume hq => exact ⟨h.runnable, h.readable, h.resume.use hq⟩
    | pushPending id =>
      unfold Registry.pushPendingAdmit
      split <;> exact ⟨h.runnable, h.readable, h.resume⟩
    | _ => exact ⟨h.runnable, h.readable, h.resume⟩
  reply _ _ _ := id
  dropAnswer w ans h := by cases ans <;> exact h
  opens _ _ _ _ _ := id
  pending _ bidi _ h := by cases bidi <;> exact ⟨h.runnable, h.readable, h.resume⟩
  parked _ bidi _ h := by cases bidi <;> exact ⟨h.runnable, h.readable, h.resume⟩
  acceptFlag w bidi b h := by cases bidi <;> exact h
  handBidi _ _ _ := id
  handUni _ _ _ := id
  ctl _ _ := id
  record _ _ := id
  commands _ _ _ := id
  front _ _ := id

theorem synced_withBuffers {isServer : Bool} {bidiCap uniCap depth : Nat} {cap : Option Nat} {c : σ}
    {script : List (List FrontAct)} :
    (withBuffers isServer bidiCap uniCap depth cap c script).reg.Synced :=
  ⟨OnceQueue.synced_empty, OnceQueue.synced_empty, OnceQueue.synced_empty⟩

/-- **Queue and set agree** in every state of every run. -/
theorem synced_reachable (hw : Reachable T w) : w.reg.Synced :=
  hw.induct T (fun _ _ _ _ _ _ _ => synced_withBuffers) fun w t => synced_frame.tick w t

/-- The same step by step. -/
theorem synced_stepFrame : StepFrame fun w w' : World σ => w.reg.Synced → w'.reg.Synced where
  toAdmitFrame := synced_frame.toAdmitFrame
  ctl _ _ := id
  probe _ _ _ := id
  applied _ _ := id
  commands _ _ _ := id
  fronts _ _ := id

theorem synced_steps (hs : Steps T w w') (h : w.reg.Synced) : w'.reg.Synced :=
  synced_stepFrame.steps hs h

end World

end QuicheH3
