/-
# A channel ends after its terminal (`stream.rs`, `driver.rs`)

`poll_data` finds its channel closed and its cell empty only if the worker dropped the sender of a
stream it had not sealed; it then reports an adapter bug.  Three things are put together here: the
poller never sees this if every close comes after a publish (`PollRun`); in a run that spares the
halves every close does, or the reader is gone (`Guarded`); and the end of the connection, which
drops every sender at once, seals every half first (`doOnConnClose`).

A `stop_sending` on a live stream is not such a run: the worker drops the sender, publishes nothing,
and the next `poll_data` of the handle returns the adapter bug.
-/
import QuicheH3.Life.Guarded
import QuicheH3.Close.Publish
import QuicheH3.Stream.Poll
import QuicheH3.Mock

namespace QuicheH3

open Lib

variable {α τ : Type}

/-! ## 1. The poller -/

/-- The accesses of the worker. -/
def PollAct.byWorker : PollAct α τ → Bool
  | .poll _ => false
  | _ => true

/-- The sender is dropped after the cell was published; newest first. -/
def SealsFirst (acts : List (PollAct α τ)) : Prop :=
  Always (fun a pre => a = .close → ∃ e, .publish e ∈ pre) acts

/-- The accesses of a poller in between change nothing about this. -/
theorem SealsFirst.of_filter : ∀ {acts : List (PollAct α τ)},
    SealsFirst (acts.filter PollAct.byWorker) → SealsFirst acts
  | [], _ => trivial
  | a :: acts, h => by
    cases a with
    | poll spurious => exact ⟨fun hx => (by cases hx), of_filter h⟩
    | close =>
      refine ⟨fun _ => ?_, of_filter h.2⟩
      obtain ⟨e, he⟩ := h.1 rfl
      exact ⟨e, List.mem_of_mem_filter he⟩
    | send | publish => exact ⟨fun hx => (by cases hx), of_filter h.2⟩

namespace PollRun

variable {s : PollRun α τ}

/-- No poll has found a closed channel beside an empty cell, and none is about to. -/
structure NeverBug (s : PollRun α τ) : Prop where
  sealed : s.chan.closed = true → s.cell.isSome = true
  quiet : ∀ left, .returned .bug left ∉ s.log

theorem NeverBug.ret (h : NeverBug s) {chan : Channel α} (hc : chan.closed = s.chan.closed)
    {o : PollOut α τ} (ho : o ≠ .bug) : NeverBug ({ s with chan := chan }.ret o) where
  sealed hx := h.sealed (hc ▸ hx)
  quiet left hm := by
    rcases List.mem_cons.mp hm with hm | hm
    · cases hm
      exact ho rfl
    · exact h.quiet left hm

theorem NeverBug.access (h : NeverBug s) (hi : Inv s) (spurious : Bool) :
    NeverBug (s.access spurious) := by
  have hspec := s.chan.poll_spec spurious
  -- a channel found closed was published before
  have hcell (hst : s.stage = .ended ∨ s.stage = .endedAgain) (hn : s.cell = none) : False := by
    have := h.sealed (hi.ended hst).2
    rw [hn] at this
    cases this
  unfold PollRun.access
  split
  · cases hp : s.chan.poll spurious with
    | mk ans chan =>
      rw [hp] at hspec
      cases hspec with
      | item a _ hq hc => exact h.ret hc (by simp)
      | closed | pending => exact ⟨h.sealed, h.quiet⟩
  · split
    · exact h.ret rfl (by simp)
    · exact ⟨h.sealed, h.quiet⟩
  · rename_i hst
    split
    · exact h.ret rfl (by simp)
    · rename_i hn
      exact (hcell (.inr hst) hn).elim
  · split <;> exact ⟨h.sealed, h.quiet⟩
  · split
    · exact ⟨h.sealed, h.quiet⟩
    · exact h.ret rfl (by simp)
  · cases hp : s.chan.poll spurious with
    | mk ans chan =>
      rw [hp] at hspec
      cases hspec with
      | item a _ hq hc => exact h.ret hc (by simp)
      | closed | pending => exact h.ret rfl (by simp)

theorem NeverBug.step (h : NeverBug s) (hi : Inv s) (a : PollAct α τ)
    (hc : a = .close → s.cell.isSome = true) : NeverBug (s.step a) := by
  cases a with
  | send a =>
    unfold PollRun.step
    dsimp only
    split
    · exact h
    · refine ⟨fun hx => h.sealed ?_, fun left hm => h.quiet left (by simpa using hm)⟩
      rw [← s.chan.send_closed a]
      exact hx
  | publish e =>
    refine ⟨fun _ => ?_, h.quiet⟩
    change (cellSet s.cell e).isSome = true
    cases s.cell <;> rfl
  | close => exact ⟨fun _ => hc rfl, h.quiet⟩
  | poll spurious => exact h.access hi spurious

/-- The cell stays filled. -/
theorem step_isSome (a : PollAct α τ) (h : s.cell.isSome = true) :
    (s.step a).cell.isSome = true := by
  obtain ⟨e, he⟩ := Option.isSome_iff_exists.mp h
  have hcell : (s.step a).cell = s.cell := by
    cases a with
    | send a =>
      unfold PollRun.step
      dsimp only
      split <;> rfl
    | publish e' =>
      change cellSet s.cell e' = s.cell
      rw [he]
      rfl
    | close => rfl
    | poll spurious =>
      change (s.access spurious).cell = s.cell
      unfold PollRun.access
      repeat' split
      all_goals rfl
  rw [hcell, he]
  rfl

theorem run_concat (s : PollRun α τ) (acts : List (PollAct α τ)) (a : PollAct α τ) :
    s.run (acts ++ [a]) = (s.run acts).step a := List.foldl_concat ..

/-- **If every close comes after a publish, no poll reports the adapter bug.** -/
theorem run_neverBug : ∀ {acts : List (PollAct α τ)}, SealsFirst acts →
    NeverBug ((init : PollRun α τ).run acts.reverse) ∧
      ((∃ e, .publish e ∈ acts) → ((init : PollRun α τ).run acts.reverse).cell.isSome = true)
  | [], _ => by
    refine ⟨⟨fun hx => (by cases hx), fun left hm => (by cases hm)⟩, ?_⟩
    rintro ⟨e, he⟩
    cases he
  | a :: acts, h => by
    obtain ⟨hb, hp⟩ := run_neverBug h.2
    rw [List.reverse_cons, run_concat]
    refine ⟨hb.step (inv_init.run _) a fun hx => hp (h.1 hx), ?_⟩
    rintro ⟨e, he⟩
    rcases List.mem_cons.mp he with rfl | he
    · change (cellSet _ e).isSome = true
      cases ((init : PollRun α τ).run acts.reverse).cell <;> rfl
    · exact step_isSome a (hp ⟨e, he⟩)

end PollRun

/-! ## 2. The worker's side, to the end of the channel -/

/-- What the worker does to the byte channel and the cell of half `h`, the drop of the sender
included. -/
def Event.handles (h : Nat) : Event → Option (PollAct Bytes RecvEnd)
  | .recvClose _ h' => if h' = h then some .close else none
  | e => e.feeds h

/-- What the worker did to half `h`, newest first. -/
def handled (h : Nat) (tr : List Event) : List (PollAct Bytes RecvEnd) :=
  tr.filterMap (Event.handles h)

theorem publish_of_sealed {h : Nat} {tr : List Event} (hs : Sealed h tr) :
    ∃ e, .publish e ∈ handled h tr := by
  obtain ⟨e, he⟩ := hs
  exact ⟨e, List.mem_filterMap.mpr ⟨_, he, by simp [Event.handles, Event.feeds]⟩⟩

/-- The half of a reader that is still there is closed after its seal. -/
theorem handled_sealsFirst {h : Nat} : ∀ {tr : List Event}, Always ClosesSealed tr →
    .recvDropped h ∉ tr → SealsFirst (handled h tr)
  | [], _, _ => trivial
  | e :: tr, ho, hd => by
    have hd' : .recvDropped h ∉ tr := fun hm => hd (List.mem_cons_of_mem _ hm)
    have ih := handled_sealsFirst ho.2 hd'
    unfold handled
    rw [List.filterMap_cons]
    split
    · exact ih
    · rename_i a ha
      refine ⟨fun hx => ?_, ih⟩
      subst hx
      -- only a `recvClose` of this half is a close
      cases e with
      | recvClose id h' =>
        by_cases hh : h' = h
        · subst hh
          exact publish_of_sealed ((ho.1 id h' rfl).resolve_right hd')
        · simp [Event.handles, hh] at ha
      | place | recvSet => simp [Event.handles, Event.feeds] at ha
      | _ => cases ha

/-- Whatever the polls of the reader of half `h` are interleaved with in history `tr`, none of them
reports the adapter bug.  `last` is what the worker does besides. -/
def NoBug (h : Nat) (tr : List Event) (last : List (PollAct Bytes RecvEnd)) : Prop :=
  ∀ acts : List (PollAct Bytes RecvEnd),
    acts.filter PollAct.byWorker = (handled h tr).reverse ++ last →
      ∀ left, .returned .bug left ∉ (PollRun.init.run acts).log

theorem noBug_of_sealsFirst {h : Nat} {tr : List Event} {last : List (PollAct Bytes RecvEnd)}
    (hs : SealsFirst (last.reverse ++ handled h tr)) : NoBug h tr last := by
  intro acts ha left
  have hrev : acts.reverse.filter PollAct.byWorker = last.reverse ++ handled h tr := by
    rw [List.filter_reverse, ha, List.reverse_append, List.reverse_reverse]
  have h1 := (PollRun.run_neverBug (SealsFirst.of_filter (hrev ▸ hs))).1
  rw [List.reverse_reverse] at h1
  exact h1.quiet left

/-! ## 3. The end of the connection -/

namespace World

variable {σ : Type} {T : QuicConn σ} {w w' : World σ} {t : ConnTerminal}

/-- A filled receive cell is in the history. -/
def CellsRecorded (w : World σ) : Prop :=
  ∀ h, (w.sh.recvHalves h).terminal ≠ none → Sealed h w.trace

namespace CellsRecorded

theorem same (h : CellsRecorded w) (hg : w.trace ⊆ w'.trace)
    (hc : ∀ i, (w'.sh.recvHalves i).terminal = (w.sh.recvHalves i).terminal) : CellsRecorded w' :=
  fun i hi => (h i (hc i ▸ hi)).imp fun _ he => hg he

theorem interleave (h : CellsRecorded w) : CellsRecorded w.interleave :=
  h.same (interleave_close w).subset (Face.fronts_rel (w.ctl.script.headD []) w.toFace).terminal

theorem publishRecvTerminal (h : CellsRecorded w) (id : Nat) (e : RecvEnd) :
    CellsRecorded (w.publishRecvTerminal id e) := by
  unfold World.publishRecvTerminal setRecvCell
  split
  · rename_i j hj
    split
    · exact h
    · intro i hi
      by_cases hij : i = j
      · subst hij
        exact ⟨e, List.mem_cons_self⟩
      · refine (h i fun hn => hi ?_).imp fun _ he => List.mem_cons_of_mem _ he
        simpa [emit, modRecv, Face.emit, Face.modRecv, hij] using hn
  · exact h

theorem publishConnTerminal (h : CellsRecorded w) : CellsRecorded (w.publishConnTerminal t) := by
  -- one cell, then the other tasks, three times
  have hset {v v' : World σ} (h : CellsRecorded v) (ht : v'.trace = v.trace)
      (hr : v'.sh.recvHalves = v.sh.recvHalves) : CellsRecorded v' :=
    h.same (by rw [ht]; exact List.Subset.refl _) fun i => by rw [hr]
  have h1 : CellsRecorded { w.interleave with
      sh.connTerminal := cellSet w.interleave.sh.connTerminal t } := hset h.interleave rfl rfl
  unfold World.publishConnTerminal
  dsimp only
  generalize ({ w.interleave with
    sh.connTerminal := cellSet w.interleave.sh.connTerminal t } : World σ) = w1 at h1
  have h2 : CellsRecorded { w1.interleave with
      sh.acceptTerminalBidi := cellSet w1.interleave.sh.acceptTerminalBidi t } :=
    hset h1.interleave rfl rfl
  generalize ({ w1.interleave with
    sh.acceptTerminalBidi := cellSet w1.interleave.sh.acceptTerminalBidi t } : World σ) = w2 at h2
  exact hset h2.interleave rfl rfl

/-- A registered half is sealed by the time its turn is over. -/
theorem publishRecvs : ∀ {w : World σ} (l : List Nat), CellsRecorded w → CellsRecorded
    (l.foldl (fun w id => w.interleave.publishRecvTerminal id (.conn t)) w)
  | _, [], h => h
  | _, id :: l, h => publishRecvs l (h.interleave.publishRecvTerminal id (.conn t))

end CellsRecorded

/-- **`on_conn_close` seals every half whose sender the worker holds.** -/
theorem doOnConnClose_seals (hc : w.sh.cells = (none, none, none)) (h : CellsRecorded w)
    {id j : Nat}
    (hr : w.reg.recv.lookup id = some j) : Sealed j (w.doOnConnClose T).trace := by
  generalize ht : classifyConnTerminal T w.ctl = t
  have hdef : w.doOnConnClose T = ((((w.publishConnTerminal t).publishRecvs t).publishSends
      t).closeIngress t).failOpens t := by
    rw [← ht]
    rfl
  have h1 := (publishConnTerminal_cells (t := t) w hc).2
  have h2 := h.publishConnTerminal (t := t)
  have hlate : CloseGrows ((w.publishConnTerminal t).publishRecvs t) (w.doOnConnClose T) := by
    rw [hdef]
    exact ((publishSends_close _ t).trans (closeIngress_close _ t)).trans (failOpens_close _ t)
  have hr1 : (w.publishConnTerminal t).reg.recv.lookup id = some j := by
    rw [h1.recv]
    exact hr
  have hkey : id ∈ (w.publishConnTerminal t).reg.recv.keys :=
    AList.mem_keys.mp (AList.lookup_isSome.mp (by rw [hr1]; rfl))
  have hset := publishRecvs_isSome (t := t) _ _ hkey hr1
  refine (CellsRecorded.publishRecvs _ h2 j fun hn => ?_).imp fun _ he => hlate.subset he
  rw [hn] at hset
  cases hset

/-! ## 4. Every run -/

/-- What holds of the byte channels in a history. -/
structure ChannelsSealed (tr : List Event) : Prop where
  /-- The worker drops the sender of a half after it filled the cell, or after the reader was
  dropped. -/
  sealed : Always ClosesSealed tr
  /-- A reader that is still there is not told of an adapter bug. -/
  polls : ∀ h, .recvDropped h ∉ tr → NoBug h tr []

theorem channelsSealed {tr : List Event} (h : Always ClosesSealed tr) : ChannelsSealed tr :=
  ⟨h, fun _ hd => noBug_of_sealsFirst (handled_sealsFirst h hd)⟩

/-- **Guarded streams make a sealed history.** -/
theorem closesSealed_of_guarded (h : ∀ id, Guarded id (w.life id)) : Always ClosesSealed w.trace :=
  always_iff.mpr fun post e pre htr id j he => always_iff.mp (h id).ok post e pre htr j he

theorem guarded_steps (isServer : Bool) (bidiCap uniCap depth : Nat) (cap : Option Nat) (c : σ)
    (script : List (List FrontAct))
    (hs : Steps T (withBuffers isServer bidiCap uniCap depth cap c script) w)
    (hP : Always Spares w.trace) (id : Nat) : Guarded id (w.life id) :=
  life_run isServer bidiCap uniCap depth cap c script (fun _ => .init)
    (fun _ _ _ hm hP h => h.move hm hP) hs hP id

theorem closesSealed_of_isClose (e : Event) (pre : List Event) (h : e.isClose) :
    ClosesSealed e pre := by
  rintro id j rfl
  exact h.elim

/-- The end of the connection at any point of the run, and what the front end does after it. -/
structure EndSealed (tr : List Event) : Prop where
  channels : ChannelsSealed tr
  /-- The worker goes, and with it every sender it holds: the reader of every half ever opened that
  is still there has its cell filled, and is told so. -/
  last : ∀ id h, .recvOpen id h ∈ tr → .recvDropped h ∉ tr → Sealed h tr ∧ NoBug h tr [.close]

/-- **A live byte channel is not closed without a terminal, as long as no `StopSending` reaches a
live stream and no id is used twice.**  For every transport, every run in which a `StopSending` is
applied only to a half that is sealed or whose reader is gone, and a stream is opened only under an
id that no cursor reported as unknown and that holds no other half; wherever the connection ends. -/
theorem sender_outlives_seal (T : QuicConn σ) (isServer : Bool) (bidiCap uniCap depth : Nat)
    (cap : Option Nat) (c : σ) (script : List (List FrontAct)) (ticks : List (Tick σ))
    (rest : List FrontAct)
    (hP : Always Spares
      ((withBuffers isServer bidiCap uniCap depth cap c script).run T ticks).trace) :
    ChannelsSealed ((withBuffers isServer bidiCap uniCap depth cap c script).run T ticks).trace ∧
    EndSealed
      ((withBuffers isServer bidiCap uniCap depth cap c script).runClosed T ticks rest).trace := by
  have hg := guarded_steps isServer bidiCap uniCap depth cap c script (run_steps ticks _) hP
  have hrecv := recvInv_run T isServer bidiCap uniCap depth cap c script ticks
  have hcells := (closeInv_reachable
    (reachable_run T isServer bidiCap uniCap depth cap c script ticks)).cells
  have hclose := runClosed_close T (withBuffers isServer bidiCap uniCap depth cap c script) ticks
    rest
  have hrun : (withBuffers isServer bidiCap uniCap depth cap c script).runClosed T ticks rest =
      rest.foldl front
        (((withBuffers isServer bidiCap uniCap depth cap c script).run T ticks).doOnConnClose T) :=
    rfl
  rw [hrun] at hclose ⊢
  generalize (withBuffers isServer bidiCap uniCap depth cap c script).run T ticks = w
    at hg hrecv hcells hclose
  have hok := closesSealed_of_guarded hg
  have hrec : CellsRecorded w := fun h hn => not_not.mp fun hs => hn ((hrecv.cell h).mpr hs)
  have hrest : CloseGrows (w.doOnConnClose T) (rest.foldl front (w.doOnConnClose T)) :=
    .foldl front front_close rest _
  generalize rest.foldl front (w.doOnConnClose T) = w' at hclose hrest
  have hok' : Always ClosesSealed w'.trace := hclose.always closesSealed_of_isClose hok
  refine ⟨channelsSealed hok, channelsSealed hok', fun id h ho hd => ?_⟩
  have hold : .recvOpen id h ∈ w.trace := hclose.old ho fun hn => hn
  have hsealed : Sealed h w'.trace := by
    rcases (hg id).held h hold with hr | hs | hdrop
    · exact (doOnConnClose_seals hcells hrec hr).imp fun _ he => hrest.subset he
    · exact hs.imp fun _ he => hclose.subset he
    · exact absurd (hclose.subset hdrop) hd
  refine ⟨hsealed, noBug_of_sealsFirst ⟨fun _ => ?_, handled_sealsFirst hok' hd⟩⟩
  exact publish_of_sealed hsealed

/-- A client that opens a stream, is read to, and reads to the end; the second stream it opens is
dropped by its reader. -/
def readAndDropped : World MockConn :=
  withBuffers false 4 4 8 none { streamsLeftBidi := 4 } []

/-- ... and its ticks. -/
def readAndDroppedTicks : List (Tick MockConn) :=
  [.front .openBidi, .processWrites, .front (.takeReply 0), .front .openBidi, .processWrites,
    .front (.takeReply 1), .transport { readableNext := [0], recvScript := fun _ =>
      [.ok ([7], true)] },
    .processReads, .front (.recvDrop 1), .front (.recvDropStop 1), .processWrites]

theorem readAndDropped_sealed :
    Always Spares (readAndDropped.run mockConn readAndDroppedTicks).trace ∧
    .recvClose 0 0 ∈ (readAndDropped.run mockConn readAndDroppedTicks).trace ∧
    .recvClose 4 1 ∈ (readAndDropped.run mockConn readAndDroppedTicks).trace ∧
    EndSealed (readAndDropped.runClosed mockConn readAndDroppedTicks []).trace := by
  refine ⟨by decide +kernel, by decide +kernel, by decide +kernel, ?_⟩
  unfold readAndDropped
  exact (sender_outlives_seal mockConn false 4 4 8 none { streamsLeftBidi := 4 } []
    readAndDroppedTicks [] (by decide +kernel)).2

/-- A client opens a stream and calls `stop_sending` on it; the worker applies the command. -/
def stoppedAlive : World MockConn :=
  (withBuffers false 4 4 8 none { streamsLeftBidi := 4 } []).run mockConn
    [.front .openBidi, .processWrites, .front (.takeReply 0), .front (.recvStopSending 0 5),
      .processWrites]

/-- The sender is gone, the cell is empty, the reader is there; its next poll, of two accesses to
the cell after the one to the channel, reports the adapter bug. -/
theorem stoppedAlive_reports_bug :
    .recvClose 0 0 ∈ stoppedAlive.trace ∧ ¬ Sealed 0 stoppedAlive.trace ∧
    .recvDropped 0 ∉ stoppedAlive.trace ∧
    (stoppedAlive.sh.recvHalves 0).terminal = none ∧
    (PollRun.init.run ((handled 0 stoppedAlive.trace).reverse ++
      [.poll false, .poll false, .poll false])).log = [.returned .bug []] ∧
    pollData .bug = some (.error
      (internalStreamError "recv byte channel closed without a published terminal")) := by
  have hrun : handled 0 stoppedAlive.trace = [.close] := by decide +kernel
  rw [hrun]
  refine ⟨?_, ?_, ?_, ?_, rfl, rfl⟩ <;> decide +kernel

end World

end QuicheH3
