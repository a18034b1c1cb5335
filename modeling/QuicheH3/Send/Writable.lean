/-
# The writable edge

The writable cursor of the transport is destructive: an id it has reported is reported again
only after the stream was blocked once more.  `stage_writable` therefore has to put every
reported stream that owes the transport something back into `runnable_send`.

It asks for a queued operation or a pending reset.  A stream that owes nothing but a HELD write
has neither: its report is taken from the cursor and forgotten.
-/
import QuicheH3.Driver.Refine
import QuicheH3.Registry.Cursors
import QuicheH3.Mock

namespace QuicheH3

open Lib

/-- The scan or a capacity probe looked at stream `id`. -/
def Event.isPollOf (id : Nat) : Event → Prop
  | .writableNext i _ | .streamCapacity i _ => i = id
  | _ => False

theorem not_isPollOf_of_isFront (id : Nat) : ∀ e : Event, e.isFront → ¬ e.isPollOf id
  | .submit _, _ | .sendRefused _ _, _ | .openRefused _, _ | .recvDropped _, _
  | .sendDropped _, _ => nofun

namespace World

variable {σ : Type} {T : QuicConn σ} {w w' w'' : World σ} {id i : Nat}

/-! ## 1. Turns of other streams -/

/-- The send entry of `id` and its place in `runnable_send` are the same, and nobody asked the
transport about it. -/
structure KeepsSend (id : Nat) (w w' : World σ) : Prop where
  entry : w'.reg.send.lookup id = w.reg.send.lookup id
  runnable : w'.reg.runnableSend.has id = w.reg.runnableSend.has id
  grows : Grows (fun e => ¬ e.isPollOf id) w.trace w'.trace

namespace KeepsSend

theorem trans (h : KeepsSend id w w') (h' : KeepsSend id w' w'') : KeepsSend id w w'' where
  entry := h'.entry.trans h.entry
  runnable := h'.runnable.trans h.runnable
  grows := h.grows.trans h'.grows

theorem same (hs : w'.reg.send = w.reg.send) (hr : w'.reg.runnableSend = w.reg.runnableSend)
    (ht : w'.trace = w.trace) : KeepsSend id w w' where
  entry := by rw [hs]
  runnable := by rw [hr]
  grows := ht ▸ .refl _ _

theorem record {e : Event} (hs : w'.reg.send = w.reg.send)
    (hr : w'.reg.runnableSend = w.reg.runnableSend) (ht : w'.trace = e :: w.trace)
    (he : ¬ e.isPollOf id) : KeepsSend id w w' where
  entry := by rw [hs]
  runnable := by rw [hr]
  grows := ht ▸ .one he

theorem interleave (w : World σ) : KeepsSend id w w.interleave where
  entry := rfl
  runnable := rfl
  grows := (Face.fronts_rel (w.ctl.script.headD []) w.toFace).grows.mono
    (not_isPollOf_of_isFront id)

theorem putSend (w : World σ) (hi : id ≠ i) (s : StreamSendState) :
    KeepsSend id w (w.putSend i s) where
  entry := AList.lookup_insert_ne hi
  runnable := rfl
  grows := .refl _ _

theorem cells : CellFrame (KeepsSend (σ := σ) id) where
  refl _ := .same rfl rfl rfl
  trans := trans
  sendEvent _ e he := .record rfl rfl rfl (by cases e <;> first | exact he.elim | exact fun h => h)
  sendHalves _ _ _ _ _ _ _ := .same rfl rfl rfl

theorem dropRecvEntry (w : World σ) (i : Nat) : KeepsSend id w (w.dropRecvEntry i) := by
  unfold World.dropRecvEntry
  split
  · exact .same rfl rfl rfl
  · exact .record rfl rfl rfl fun h => h

theorem done (hi : id ≠ i) : DoneFrame (KeepsSend (σ := σ) id) i where
  toComposes := cells.toComposes
  eraseAdmit _ := .same rfl rfl rfl
  markAdmit _ _ _ := .same rfl rfl rfl
  dropRecv w := dropRecvEntry w i
  recvCursors _ := .same rfl rfl rfl
  sendCursor _ := ⟨rfl, OnceQueue.has_drop_ne _ hi, .refl _ _⟩
  recvDone _ := .record rfl rfl rfl fun h => h
  sendDone _ := .record rfl rfl rfl fun h => h
  finished w _ _ := putSend w hi _

theorem sendTerminalTransition (w : World σ) (hi : id ≠ i) (e : SendEnd) :
    KeepsSend id w (w.sendTerminalTransition i e) := by
  unfold World.sendTerminalTransition
  split
  · exact .same rfl rfl rfl
  · rename_i s hs
    have h1 := (cells.setSendCell w s.status e).trans (putSend _ hi
      { s with terminal := some (s.terminal.getD e), held := none, sendOps := [] })
    exact h1.trans ((cells.completeOps _ _ _).trans ((done hi).markSendDone _))

theorem streamCapacity (w : World σ) (hi : id ≠ i) :
    KeepsSend id w (w.streamCapacity T i).2 :=
  .record rfl rfl rfl fun h => hi h.symm

theorem writableOne (w : World σ) (hi : id ≠ i) : KeepsSend id w (w.writableOne T i) := by
  have h0 := streamCapacity (T := T) w hi
  unfold World.writableOne
  split
  · unfold writableRegistered
    rcases hc : w.streamCapacity T i with ⟨ans, w1⟩
    rw [hc] at h0
    dsimp only
    split
    · exact h0
    · split
      · split
        · exact h0
        · exact h0.trans ((interleave w1).trans (sendTerminalTransition _ hi _))
      · split
        · refine h0.trans ⟨rfl, OnceQueue.has_push_ne _ hi, .refl _ _⟩
        · exact h0
  · split
    · exact .same rfl rfl rfl
    · split
      · exact .same rfl rfl rfl
      · unfold writableDiscover
        rcases hc : w.streamCapacity T i with ⟨ans, w1⟩
        rw [hc] at h0
        dsimp only
        split
        · exact h0.trans (.same rfl rfl rfl)
        · split
          · exact h0.trans (.same rfl rfl rfl)
          · refine h0.trans ?_
            unfold Registry.pushPendingAdmit
            split <;> exact .same rfl rfl rfl

end KeepsSend

/-! ## 2. The scan -/

/-- What happened between two states of a run, the newest first. -/
def since (w w' : World σ) : List Event := w'.trace.take (w'.trace.length - w.trace.length)

theorem since_eq {evs : List Event} (h : w'.trace = evs ++ w.trace) : since w w' = evs := by
  simp [since, h]

/-- The stream has work the writable scan sees. -/
def StreamSendState.hasWork (s : StreamSendState) : Bool :=
  !s.sendOps.isEmpty || s.pendingReset.isSome

/-- A report of a registered stream that is not stopped. -/
theorem writableOne_self {s : StreamSendState} (hs : w.reg.send.lookup id = some s)
    (hcap : stoppedOf (T.streamCapacity w.ctl.qconn id).1 = none) :
    (w.writableOne T id).reg =
        (if StreamSendState.hasWork s then w.reg.markSendRunnable id else w.reg) ∧
      (w.writableOne T id).trace =
        .streamCapacity id (T.streamCapacity w.ctl.qconn id).1 :: w.trace := by
  unfold World.writableOne writableRegistered World.streamCapacity
  simp only [hs, Option.isSome_some, if_true, emit]
  generalize (T.streamCapacity w.ctl.qconn id).1 = ans at hcap ⊢
  split
  · cases hcap
  · unfold StreamSendState.hasWork
    cases hk : !s.sendOps.isEmpty || s.pendingReset.isSome <;> exact ⟨rfl, rfl⟩

/-- A report of a registered stream is always followed by a probe. -/
theorem writableOne_probe (hs : (w.reg.send.lookup id).isSome) :
    .streamCapacity id (T.streamCapacity w.ctl.qconn id).1 :: w.trace <:+
      (w.writableOne T id).trace := by
  unfold World.writableOne writableRegistered
  rw [if_pos hs]
  have h1 : (w.streamCapacity T id).2.trace =
      .streamCapacity id (T.streamCapacity w.ctl.qconn id).1 :: w.trace := rfl
  rcases hc : w.streamCapacity T id with ⟨ans, w1⟩
  rw [hc] at h1
  rw [← h1]
  dsimp only
  split
  · exact List.suffix_rfl
  · split
    · split
      · exact List.suffix_rfl
      · exact suffix_frame.trans (suffix_frame.interleave w1)
          (suffix_frame.sendTerminalTransition _ id _)
    · split <;> exact List.suffix_rfl

/-- The scan and one stream: as long as no probe finds the stream stopped, its entry stays, and
it is runnable afterwards if it was before, or if it was reported and has work. -/
theorem writableLoop_runnable {s : StreamSendState} : ∀ (n : Nat) (w : World σ),
    w.reg.send.lookup id = some s → ∃ evs, (writableLoop T n w).trace = evs ++ w.trace ∧
      ((∀ ans, .streamCapacity id ans ∈ evs → stoppedOf ans = none) →
        ((writableLoop T n w).reg.runnableSend.has id = true ↔
          w.reg.runnableSend.has id = true ∨
            (∃ b, .writableNext id b ∈ evs) ∧ StreamSendState.hasWork s = true))
  | 0, w, _ => ⟨[], rfl, fun _ => by simp [writableLoop]⟩
  | n + 1, w, hs => by
    unfold writableLoop
    rcases hc : T.streamWritableNext w.ctl.qconn with ⟨_ | j, c⟩
    · exact ⟨[], rfl, fun _ => by simp⟩
    · dsimp only
      generalize hv : ({ w with ctl.qconn := c }.emit
        (.writableNext j (w.reg.writeTracked j)) : World σ) = v
      have hvs : v.reg.send.lookup id = some s := by rw [← hv]; exact hs
      have hvr : v.reg.runnableSend = w.reg.runnableSend := by rw [← hv]; rfl
      have hvt : v.trace = .writableNext j (w.reg.writeTracked j) :: w.trace := by rw [← hv]; rfl
      by_cases hj : id = j
      · -- the report of the stream itself
        subst hj
        by_cases hstop : stoppedOf (T.streamCapacity v.ctl.qconn id).1 = none
        · obtain ⟨hreg, htr⟩ := writableOne_self (T := T) hvs hstop
          have hent : (v.writableOne T id).reg.send.lookup id = some s := by
            rw [hreg]
            split <;> exact hvs
          obtain ⟨evs, ht, hrun⟩ := writableLoop_runnable n _ hent
          refine ⟨evs ++ [.streamCapacity id (T.streamCapacity v.ctl.qconn id).1,
            .writableNext id (w.reg.writeTracked id)], ?_, fun hcap => ?_⟩
          · rw [ht, htr, hvt, List.append_assoc]
            rfl
          · rw [hrun fun ans ha => hcap ans (List.mem_append_left _ ha), hreg]
            by_cases hk : StreamSendState.hasWork s = true
            · simp [hk, Registry.markSendRunnable]
            · simp [hk, hvr]
        · -- found stopped: the probe is in the history, against the assumption
          have hsome : (v.reg.send.lookup id).isSome := by
            rw [hvs]
            rfl
          have h1 := writableOne_probe (T := T) hsome
          obtain ⟨evs, ht⟩ := h1.trans (suffix_frame.writableLoop (T := T) n _)
          refine ⟨evs ++ [.streamCapacity id (T.streamCapacity v.ctl.qconn id).1,
            .writableNext id (w.reg.writeTracked id)], ?_, fun hcap => ?_⟩
          · rw [← ht, hvt, List.append_assoc]
            rfl
          · exact absurd (hcap _ (by simp)) hstop
      · have hk := KeepsSend.writableOne (T := T) v hj
        obtain ⟨evs, ht, hrun⟩ := writableLoop_runnable n _ (hk.entry.trans hvs)
        obtain ⟨evs1, ht1, hp1⟩ := hk.grows
        refine ⟨evs ++ (evs1 ++ [.writableNext j (w.reg.writeTracked j)]), ?_, fun hcap => ?_⟩
        · rw [ht, ht1, hvt]
          simp
        · rw [hrun fun ans ha => hcap ans (List.mem_append_left _ ha), hk.runnable, hvr]
          have hnew : (∃ b, Event.writableNext id b ∈
              evs ++ (evs1 ++ [.writableNext j (w.reg.writeTracked j)])) ↔
              ∃ b, Event.writableNext id b ∈ evs := by
            constructor
            · rintro ⟨b, hb⟩
              simp only [List.mem_append, List.mem_singleton, Event.writableNext.injEq] at hb
              rcases hb with hb | hb | hb
              · exact ⟨b, hb⟩
              · exact absurd rfl (hp1 _ hb)
              · exact absurd hb.1 hj
            · rintro ⟨b, hb⟩
              exact ⟨b, List.mem_append_left _ hb⟩
          rw [hnew]

/-! ## 3. No lost edge -/

/-- **When a writable edge is kept.**  In any state of a run, and so also where stage (d) begins,
after the commands, the read pump and the opens of its iteration: a registered send half not in
`runnable_send` is reported by the writable cursor, and no probe of the stage finds it stopped.  It
is in `runnable_send` when the stage ends exactly if an operation is queued or a reset is pending.
A held write alone does not bring it back. -/
theorem writable_edge_iff {isServer : Bool} {bidiCap uniCap depth : Nat} {cap : Option Nat} {c : σ}
    {script : List (List FrontAct)}
    (hw : Steps T (withBuffers isServer bidiCap uniCap depth cap c script) w) {s : StreamSendState}
    (hs : w.reg.send.lookup id = some s) (hq : id ∉ w.reg.runnableSend.queue)
    (ht : ∃ b, .writableNext id b ∈ since w (w.stageWritable T))
    (hcap : ∀ code, .streamCapacity id (.error (.streamStopped code)) ∉
      since w (w.stageWritable T)) :
    id ∈ (w.stageWritable T).reg.runnableSend.queue ↔
      s.sendOps ≠ [] ∨ s.pendingReset.isSome = true := by
  have hsync : w.reg.Synced := synced_steps hw synced_withBuffers
  have hsync' : (w.stageWritable T).reg.Synced := synced_frame.stageWritable w hsync
  obtain ⟨evs, htr, hrun⟩ := writableLoop_runnable (T := T) writableBudget w hs
  have hev : since w (w.stageWritable T) = evs := since_eq htr
  rw [hev] at ht hcap
  have hcap' : ∀ ans, .streamCapacity id ans ∈ evs → stoppedOf ans = none := by
    intro ans ha
    unfold stoppedOf
    split
    · exact absurd ha (hcap _)
    · rfl
  have hno : w.reg.runnableSend.has id ≠ true := fun h => hq ((hsync.runnable.has_iff id).mp h)
  rw [← hsync'.runnable.has_iff]
  refine (hrun hcap').trans ?_
  simp [hno, ht, StreamSendState.hasWork]

/-- A client whose write is blocked half way: the stream is parked until the transport reports
it.  With `held` the write was held first and the transport lost its capacity since. -/
def blockedWriter (held : Bool) : World MockConn :=
  (withBuffers false 4 4 8 none
    { streamsLeftBidi := 4, capacity := fun _ => .ok (if held then 100 else 0)
      sendErrors := fun _ => [.done] } []).run mockConn
    [.front .openBidi, .processWrites, .front (.takeReply 0),
      .front (.sendData 0 ⟨[[1, 2, 3]], by decide⟩), .processWrites, .waitForData, .processWrites,
      .transport { writableNext := [0] }]

theorem blockedWriter_kept :
    (blockedWriter false).reg.runnableSend.queue = [] ∧
    0 ∈ ((blockedWriter false).stageWritable mockConn).reg.runnableSend.queue := by
  have hs : ((blockedWriter false).reg.send.lookup 0).isSome = true := by decide +kernel
  obtain ⟨s, hs'⟩ := Option.isSome_iff_exists.mp hs
  have ho : ((blockedWriter false).reg.send.lookup 0).map (·.sendOps.isEmpty) = some false := by
    decide +kernel
  have hq : (blockedWriter false).reg.runnableSend.queue = [] := by decide +kernel
  have hsince : since (blockedWriter false) ((blockedWriter false).stageWritable mockConn) =
      [.streamCapacity 0 (.ok (2 ^ 64 - 1)), .writableNext 0 true] := by decide +kernel
  have hrun : Steps mockConn _ (blockedWriter false) := run_steps _ _
  refine ⟨hq, (writable_edge_iff hrun hs' (by simp [hq]) ?_ ?_).mpr (.inl ?_)⟩
  · exact ⟨true, by simp [hsince]⟩
  · simp [hsince]
  · rw [hs'] at ho
    simpa using ho

/-- The same stream with its write held: it owes three bytes, it is reported, the transport has
all the capacity there is, and it is not runnable when the stage ends. -/
theorem heldWriter_lost :
    let w := blockedWriter true
    w.reg.runnableSend.queue = [] ∧
    (w.reg.send.lookup 0).map (fun s => (s.terminal, s.held.map WriteBuf.bytes)) =
      some (none, some [1, 2, 3]) ∧
    since w (w.stageWritable mockConn) =
      [.streamCapacity 0 (.ok (2 ^ 64 - 1)), .writableNext 0 true] ∧
    (w.stageWritable mockConn).reg.runnableSend.queue = [] := by
  decide +kernel

end World

end QuicheH3
