/-
# One close, one terminal

The two halves of how a connection ends.  While it runs, `qconn.close` is called at most once,
with the frame of the first `Close` applied or with the synthetic one.  When it is over,
`on_conn_close` works out ONE terminal, by a fixed precedence, and publishes it everywhere: to
the cell of the connection, to the two accept cells, and to the cell of every registered half
that has no terminal yet.  Cells are written once, so the other tasks that run in between
(`Publishes`) change none of them.

Contents
  1  what the close does to cells and entries
  2  the receive halves, 3 the send halves, 4 the rest of the close
  5  the whole of it
-/
import QuicheH3.Close.Teardown
import QuicheH3.Driver.Close

namespace QuicheH3

open Lib

namespace World

variable {σ : Type} {T : QuicConn σ} {w w' w'' : World σ} {t : ConnTerminal}

/-! ## 1. What the close does to cells and entries -/

/-- A cell is as before, or was empty and now holds the terminal. -/
def Filled {α : Type} (t : α) (old new : Option α) : Prop := new = old ∨ old = none ∧ new = some t

theorem Filled.trans {α : Type} {t : α} {a b c : Option α} (h : Filled t a b) (h' : Filled t b c) :
    Filled t a c := by
  rcases h with rfl | ⟨ha, hb⟩
  · exact h'
  · rcases h' with rfl | ⟨hb', -⟩
    · exact .inr ⟨ha, hb⟩
    · rw [hb] at hb'
      cases hb'

/-- A cell that is set by now holds what `set` would have made of it. -/
theorem Filled.eq_cellSet {α : Type} {t : α} {a b : Option α} (h : Filled t a b)
    (hb : b.isSome = true) : b = cellSet a t := by
  rcases h with rfl | ⟨rfl, rfl⟩
  · obtain ⟨x, rfl⟩ := Option.isSome_iff_exists.mp hb
    rfl
  · rfl

theorem Filled.isSome {α : Type} {t : α} {a b : Option α} (h : Filled t a b)
    (ha : a.isSome = true) : b.isSome = true := by
  rcases h with rfl | ⟨rfl, -⟩
  · exact ha
  · cases ha

/-- What the parts of `on_conn_close` do to the halves and their entries. -/
structure FillsHalves (t : ConnTerminal) (w w' : World σ) : Prop where
  recv : w'.reg.recv = w.reg.recv
  send : ∀ id s, w.reg.send.lookup id = some s →
    ∃ s', w'.reg.send.lookup id = some s' ∧ s'.status = s.status
  recvCell : ∀ h, Filled (.conn t) (w.sh.recvHalves h).terminal (w'.sh.recvHalves h).terminal
  sendCell : ∀ c, Filled (.conn t) (w.sh.sendHalves c).status (w'.sh.sendHalves c).status

theorem FillsHalves.trans (h : FillsHalves t w w') (h' : FillsHalves t w' w'') :
    FillsHalves t w w'' where
  recv := h'.recv.trans h.recv
  send id s hs := by
    obtain ⟨s', hs', he⟩ := h.send id s hs
    obtain ⟨s'', hs'', he'⟩ := h'.send id s' hs'
    exact ⟨s'', hs'', he'.trans he⟩
  recvCell i := (h.recvCell i).trans (h'.recvCell i)
  sendCell c := (h.sendCell c).trans (h'.sendCell c)

/-- ... and, after the first of them, to the cells of the connection. -/
structure Publishes (t : ConnTerminal) (w w' : World σ) : Prop extends FillsHalves t w w' where
  cells : w'.sh.cells = w.sh.cells

namespace Publishes

theorem same (hr : w'.reg = w.reg) (hrh : w'.sh.recvHalves = w.sh.recvHalves)
    (hsh : w'.sh.sendHalves = w.sh.sendHalves) (hc : w'.sh.cells = w.sh.cells) :
    Publishes t w w' where
  recv := by rw [hr]
  send id s h := ⟨s, by rw [hr]; exact h, rfl⟩
  recvCell h := .inl (by rw [hrh])
  sendCell c := .inl (by rw [hsh])
  cells := hc

theorem refl (w : World σ) : Publishes t w w := same rfl rfl rfl rfl

theorem trans (h : Publishes t w w') (h' : Publishes t w' w'') : Publishes t w w'' :=
  ⟨h.toFillsHalves.trans h'.toFillsHalves, h'.cells.trans h.cells⟩

theorem foldl {α : Type} (g : World σ → α → World σ) (hg : ∀ w x, Publishes t w (g w x)) :
    ∀ (l : List α) (w : World σ), Publishes t w (l.foldl g w)
  | [], w => refl w
  | x :: l, w => (hg w x).trans (foldl g hg l (g w x))

end Publishes

theorem fronts_publishes {f : Face} (hr : FrontRel w.toFace f) (hc : f.sh.cells = w.sh.cells) :
    Publishes t w { w with toFace := f } where
  recv := rfl
  send _ s h := ⟨s, h, rfl⟩
  recvCell h := .inl (hr.terminal h)
  sendCell c := .inl (hr.status c)
  cells := hc

theorem interleave_publishes (w : World σ) : Publishes t w w.interleave := by
  have h1 := fronts_publishes (t := t) (Face.fronts_rel (w.ctl.script.headD []) w.toFace)
    (Face.fronts_cells _ w.toFace)
  exact h1.trans (.same rfl rfl rfl rfl)

theorem front_publishes (w : World σ) (a : FrontAct) : Publishes t w (w.front a) :=
  fronts_publishes (Face.front_rel w.toFace a) (Face.front_door w.toFace a).cells

theorem setRecvCell_publishes (w : World σ) (h : Nat) :
    Publishes t w (w.setRecvCell h (.conn t)) ∧
    ((w.setRecvCell h (.conn t)).sh.recvHalves h).terminal.isSome = true := by
  unfold setRecvCell
  split
  · rename_i e he
    exact ⟨.refl w, by rw [he]; rfl⟩
  · rename_i he
    refine ⟨⟨⟨rfl, fun id s hs => ⟨s, hs, rfl⟩, fun i => ?_, fun _ => .inl rfl⟩, rfl⟩, ?_⟩
    · by_cases hi : i = h
      · subst hi
        exact .inr ⟨he, by simp [emit, modRecv, Face.emit, Face.modRecv]⟩
      · exact .inl (by simp [emit, modRecv, Face.emit, Face.modRecv, hi])
    · simp [emit, modRecv, Face.emit, Face.modRecv]

theorem setSendCell_publishes (w : World σ) (c : Nat) :
    Publishes t w (w.setSendCell c (.conn t)) ∧
    ((w.setSendCell c (.conn t)).sh.sendHalves c).status.isSome = true := by
  unfold setSendCell
  split
  · rename_i e he
    exact ⟨.refl w, by rw [he]; rfl⟩
  · rename_i he
    refine ⟨⟨⟨rfl, fun id s hs => ⟨s, hs, rfl⟩, fun _ => .inl rfl, fun i => ?_⟩, rfl⟩, ?_⟩
    · by_cases hi : i = c
      · subst hi
        exact .inr ⟨he, by simp [emit, modSend, Face.emit, Face.modSend]⟩
      · exact .inl (by simp [emit, modSend, Face.emit, Face.modSend, hi])
    · simp [emit, modSend, Face.emit, Face.modSend]

/-! ## 2. The receive halves -/

theorem publishRecv_publishes (w : World σ) (id : Nat) :
    Publishes t w (w.interleave.publishRecvTerminal id (.conn t)) := by
  refine (interleave_publishes w).trans ?_
  unfold publishRecvTerminal
  split
  · exact (setRecvCell_publishes _ _).1
  · exact .refl _

/-- After its turn the cell of a registered half is set, and stays set. -/
theorem publishRecvs_isSome (l : List Nat) (w : World σ) {id h : Nat} (hm : id ∈ l)
    (hr : w.reg.recv.lookup id = some h) :
    ((l.foldl (fun w id => w.interleave.publishRecvTerminal id (.conn t)) w).sh.recvHalves
      h).terminal.isSome = true := by
  induction l generalizing w with
  | nil => cases hm
  | cons i l ih =>
    have h1 := publishRecv_publishes (t := t) w i
    rw [List.foldl_cons]
    rcases List.mem_cons.mp hm with rfl | hm
    · have h2 := Publishes.foldl (t := t) _ publishRecv_publishes l
        (w.interleave.publishRecvTerminal id (.conn t))
      refine (h2.recvCell h).isSome ?_
      have hr' : w.interleave.reg.recv.lookup id = some h := hr
      simp only [publishRecvTerminal, hr']
      exact (setRecvCell_publishes w.interleave h).2
    · exact ih _ hm (by rw [h1.recv]; exact hr)

/-! ## 3. The send halves -/

theorem closeSendEntry_publishes (x : World σ × List SendOp) (id : Nat) :
    Publishes t x.1 (closeSendEntry t x id).1 := by
  have h1 := interleave_publishes (t := t) x.1
  unfold closeSendEntry
  dsimp only
  split
  · exact h1
  · rename_i s hs
    have h2 := h1.trans (setSendCell_publishes _ s.status).1
    refine h2.trans ⟨⟨rfl, fun i s' hs' => ?_, fun _ => .inl rfl, fun _ => .inl rfl⟩, rfl⟩
    by_cases hi : i = id
    · subst hi
      refine ⟨_, AList.lookup_insert _, ?_⟩
      obtain ⟨s1, hs1, he⟩ := (setSendCell_publishes (t := t) x.1.interleave s.status).1.send i s hs
      rw [hs1] at hs'
      cases hs'
      exact he.symm
    · exact ⟨s', (AList.lookup_insert_ne hi).trans hs', rfl⟩

theorem closeSendEntries_publishes : ∀ (l : List Nat) (x : World σ × List SendOp),
    Publishes t x.1 (l.foldl (closeSendEntry t) x).1
  | [], x => .refl x.1
  | id :: l, x => (closeSendEntry_publishes x id).trans (closeSendEntries_publishes l _)

theorem closeSendEntries_isSome (l : List Nat) (x : World σ × List SendOp) {id : Nat}
    {s : StreamSendState} (hm : id ∈ l) (hs : x.1.reg.send.lookup id = some s) :
    ((l.foldl (closeSendEntry t) x).1.sh.sendHalves s.status).status.isSome = true := by
  induction l generalizing x s with
  | nil => cases hm
  | cons i l ih =>
    have h1 := closeSendEntry_publishes (t := t) x i
    rw [List.foldl_cons]
    rcases List.mem_cons.mp hm with rfl | hm
    · have h2 := closeSendEntries_publishes (t := t) l (closeSendEntry t x id)
      refine (h2.sendCell s.status).isSome ?_
      have hs' : x.1.interleave.reg.send.lookup id = some s := hs
      simp only [closeSendEntry, hs']
      exact (setSendCell_publishes x.1.interleave s.status).2
    · obtain ⟨s', hs', he⟩ := h1.send id s hs
      rw [← he]
      exact ih _ hm hs'

/-! ## 4. The rest of the close -/

theorem completeOp_publishes (w : World σ) (op : SendOp) (res : Except SendEnd Unit) :
    Publishes t w (w.completeOp op res) := by
  cases op <;> exact .same rfl rfl rfl rfl

theorem replyErr_publishes (w : World σ) (r : Nat) (e : ConnTerminal) :
    Publishes t w (w.replyErr r e) := by
  unfold replyErr
  dsimp only
  split
  · exact (interleave_publishes w).trans (.same rfl rfl rfl rfl)
  · exact interleave_publishes w

theorem completeCommandOnClose_publishes (e : ConnTerminal) (w : World σ) (cmd : DriverCommand) :
    Publishes t w (completeCommandOnClose e w cmd) := by
  cases cmd with
  | send id buf done permit =>
    exact completeOp_publishes w (.write buf done permit) (.error (.conn e))
  | finish id done => exact completeOp_publishes w (.finish done) (.error (.conn e))
  | openBidi r | openUni r => exact replyErr_publishes w r e
  | _ => exact .refl w

theorem closeIngress_publishes (w : World σ) : Publishes t w (w.closeIngress t) := by
  have h1 : Publishes t w.interleave { w.interleave with
      sh := { w.interleave.sh with cmdRxClosed := true, cmdRx := [] }, inbox := [] } :=
    .same rfl rfl rfl rfl
  exact ((interleave_publishes w).trans h1).trans
    (.foldl _ (completeCommandOnClose_publishes t) _ _)

theorem failOpens_publishes (w : World σ) : Publishes t w (w.failOpens t) := by
  have h1 : Publishes t w { w with openBidi := [], openUni := [] } := .same rfl rfl rfl rfl
  exact h1.trans (.foldl _ (fun w r => replyErr_publishes w r t) _ _)

theorem publishSends_publishes (w : World σ) : Publishes t w (w.publishSends t) :=
  (closeSendEntries_publishes w.reg.send.keys (w, [])).trans
    (.foldl _ (fun w op => completeOp_publishes w op _) _ _)

/-- The connection cells come first. -/
theorem publishConnTerminal_cells (w : World σ) (hc : w.sh.cells = (none, none, none)) :
    (w.publishConnTerminal t).sh.cells = (some t, some t, some t) ∧
    FillsHalves t w (w.publishConnTerminal t) := by
  -- one cell, then the other tasks, three times
  have hset (v v' : World σ) (hr : v'.reg = v.reg) (hrh : v'.sh.recvHalves = v.sh.recvHalves)
      (hsh : v'.sh.sendHalves = v.sh.sendHalves) : FillsHalves t v v' :=
    ⟨by rw [hr], fun id s h => ⟨s, by rw [hr]; exact h, rfl⟩, fun h => .inl (by rw [hrh]),
      fun c => .inl (by rw [hsh])⟩
  have hi (v : World σ) := interleave_publishes (t := t) v
  unfold publishConnTerminal
  dsimp only
  have h1 := (hi w).cells.trans hc
  generalize hw1 : w.interleave = w1 at h1
  have f1 : FillsHalves t w w1 := hw1 ▸ (hi w).toFillsHalves
  generalize hw2 : ({ w1 with sh.connTerminal := cellSet w1.sh.connTerminal t } : World σ) = w2
  have h2 : w2.sh.cells = (some t, none, none) := by
    simp only [Shared.cells, Prod.mk.injEq] at h1
    simp [← hw2, Shared.cells, h1]
  have f2 := f1.trans (hset w1 w2 (by rw [← hw2]) (by rw [← hw2]) (by rw [← hw2]))
  have h3 := (hi w2).cells.trans h2
  have f3 := f2.trans (hi w2).toFillsHalves
  generalize w2.interleave = w3 at h3 f3
  generalize hw4 : ({ w3 with sh.acceptTerminalBidi := cellSet w3.sh.acceptTerminalBidi t } :
    World σ) = w4
  have h4 : w4.sh.cells = (some t, some t, none) := by
    simp only [Shared.cells, Prod.mk.injEq] at h3
    simp [← hw4, Shared.cells, h3]
  have f4 := f3.trans (hset w3 w4 (by rw [← hw4]) (by rw [← hw4]) (by rw [← hw4]))
  have h5 := (hi w4).cells.trans h4
  have f5 := f4.trans (hi w4).toFillsHalves
  generalize w4.interleave = w5 at h5 f5
  refine ⟨?_, f5.trans (hset _ _ rfl rfl rfl)⟩
  simp only [Shared.cells, Prod.mk.injEq] at h5
  simp [Shared.cells, h5]

/-- **One terminal for every cell.**  The connection cells were empty; registered halves keep a
terminal they have. -/
structure Published (t : ConnTerminal) (w w' : World σ) : Prop where
  cells : w'.sh.cells = (some t, some t, some t)
  recv : ∀ id h, w.reg.recv.lookup id = some h →
    (w'.sh.recvHalves h).terminal = cellSet (w.sh.recvHalves h).terminal (.conn t)
  send : ∀ id s, w.reg.send.lookup id = some s →
    (w'.sh.sendHalves s.status).status = cellSet (w.sh.sendHalves s.status).status (.conn t)

theorem doOnConnClose_published (hc : w.sh.cells = (none, none, none)) (rest : List FrontAct) :
    Published (classifyConnTerminal T w.ctl) w (rest.foldl front (w.doOnConnClose T)) := by
  generalize ht : classifyConnTerminal T w.ctl = t
  obtain ⟨hcells, h1⟩ := publishConnTerminal_cells (t := t) w hc
  have hdef : w.doOnConnClose T = ((((w.publishConnTerminal t).publishRecvs t).publishSends
      t).closeIngress t).failOpens t := by
    rw [← ht]
    rfl
  rw [hdef]
  generalize w.publishConnTerminal t = w1 at h1 hcells
  have h2 : Publishes t w1 (w1.publishRecvs t) := .foldl _ publishRecv_publishes _ _
  have h3 := publishSends_publishes (t := t) (w1.publishRecvs t)
  have h4 : Publishes t ((w1.publishRecvs t).publishSends t)
      (rest.foldl front ((((w1.publishRecvs t).publishSends t).closeIngress t).failOpens t)) :=
    ((closeIngress_publishes _).trans (failOpens_publishes _)).trans (.foldl _ front_publishes _ _)
  refine ⟨((h2.trans h3).trans h4).cells.trans hcells, fun id h hr => ?_, fun id s hs => ?_⟩
  · have hr1 : w1.reg.recv.lookup id = some h := by
      rw [h1.recv]
      exact hr
    have hsome := publishRecvs_isSome (t := t) w1.reg.recv.keys w1
      (AList.mem_keys.mp (AList.lookup_isSome.mp (by rw [hr1]; rfl))) hr1
    have hlate := (h3.trans h4).recvCell h
    exact (((h1.recvCell h).trans (h2.recvCell h)).trans hlate).eq_cellSet (hlate.isSome hsome)
  · obtain ⟨s1, hs1, he1⟩ := (h1.trans h2.toFillsHalves).send id s hs
    have hsome := closeSendEntries_isSome (t := t) (w1.publishRecvs t).reg.send.keys
      (w1.publishRecvs t, []) (AList.mem_keys.mp (AList.lookup_isSome.mp (by rw [hs1]; rfl))) hs1
    rw [he1] at hsome
    -- the completion of the drained operations leaves the cells alone
    have hops := Publishes.foldl (t := t) (fun w op => w.completeOp op (.error (.conn t)))
      (fun w op => completeOp_publishes w op _)
      ((w1.publishRecvs t).reg.send.keys.foldl (closeSendEntry t) (w1.publishRecvs t, [])).2
      ((w1.publishRecvs t).reg.send.keys.foldl (closeSendEntry t) (w1.publishRecvs t, [])).1
    have hlate := (hops.trans h4).sendCell s.status
    exact (((h1.trans h2.toFillsHalves).trans (h3.trans h4).toFillsHalves).sendCell
      s.status).eq_cellSet (hlate.isSome hsome)

/-! ## 5. The whole of it -/

/-- Where a terminal can come from, in the order of precedence: the adapter's own bug, the
peer's error, the idle timer, the recorded local close, the local error, and last the contract
break of having none. -/
def terminalSources (T : QuicConn σ) (c : Ctl σ) : List (Option ConnTerminal) :=
  [c.closeBug.map .internal,
    (T.peerError c.qconn).map (connTerminalFromError .peer),
    if T.isTimedOut c.qconn then some .timeout else none,
    c.localClose.map fun x => .appClose .locally x.1 x.2,
    (T.localError c.qconn).map (connTerminalFromError .locally),
    some (.internal "connection closed without a recorded terminal")]

theorem classify_precedence (c : Ctl σ) :
    (terminalSources T c).findSome? id = some (classifyConnTerminal T c) := by
  unfold terminalSources classifyConnTerminal
  cases c.closeBug with
  | some msg => rfl
  | none =>
    cases T.peerError c.qconn with
    | some pe => rfl
    | none =>
      cases T.isTimedOut c.qconn with
      | true => rfl
      | false =>
        cases c.localClose with
        | some x => rfl
        | none => cases T.localError c.qconn <;> rfl

/-- Only the peer's own application close is shown to `h3` as one. -/
theorem applicationClose_from_peer {c : Ctl σ} {code : Nat}
    (h : (classifyConnTerminal T c).toH3 = .applicationClose code) :
    ∃ pe, T.peerError c.qconn = some pe ∧ pe.isApp = true ∧ pe.errorCode = code := by
  have hlocal (err : ConnectionError) :
      (connTerminalFromError .locally err).toH3 ≠ .applicationClose code := by
    unfold connTerminalFromError
    split <;> simp [ConnTerminal.toH3]
  unfold classifyConnTerminal at h
  split at h
  · cases h
  · split at h
    · rename_i pe hpe
      refine ⟨pe, hpe, ?_⟩
      unfold connTerminalFromError at h
      split at h
      · rename_i happ
        cases h
        exact ⟨happ, rfl⟩
      · cases h
    · split at h
      · cases h
      · split at h
        · cases h
        · split at h
          · exact absurd h (hlocal _)
          · cases h

/-- Everything that is promised of the close in a state of a run. -/
structure ClosesOnce (T : QuicConn σ) (w : World σ) : Prop where
  once : (closeCalls w.trace).length ≤ 1
  /-- In the order of the history: the first `Close` applied before the call, else the
  synthetic close. -/
  order : Always CallInOrder w.trace
  /-- The next tick makes no call, or it is an acting iteration whose barrier makes the first:
  of the `Close` applied first, or synthetic, after the end of the channel and with no terminal
  in the transport. -/
  next : ∀ t, closeCalls (w.tick T t).trace = closeCalls w.trace ∨
    ∃ code reason ans, closeCalls w.trace = [] ∧ t = .processWrites ∧
      CloseCall T (w.beforeBarrier T) code reason ans ∧
      (w.tick T t).trace = .connClose code reason ans :: (w.beforeBarrier T).trace
  /-- The end of the channel is what `wait_for_data` saw: no command left and no handle. -/
  eof : ∀ t, (w.tick T t).ctl.lastHandleTeardown = true → w.ctl.lastHandleTeardown = true ∨
    t = .waitForData ∧ w.interleave.sh.cmdRx = [] ∧ w.interleave.sh.senders = 0
  /-- A recorded local close was accepted by the transport. -/
  recorded : ∀ code reason, w.ctl.localClose = some (code, reason) →
    closeCalls w.trace = [(code, reason, .ok ())]
  /-- The close of the connection calls nothing and publishes one terminal. -/
  closed : ∀ rest : List FrontAct,
    closeCalls (rest.foldl front (w.doOnConnClose T)).trace = closeCalls w.trace ∧
    Published (classifyConnTerminal T w.ctl) w (rest.foldl front (w.doOnConnClose T))
  precedence : (terminalSources T w.ctl).findSome? id = some (classifyConnTerminal T w.ctl)
  shown : ∀ code, (classifyConnTerminal T w.ctl).toH3 = .applicationClose code →
    ∃ pe, T.peerError w.ctl.qconn = some pe ∧ pe.isApp = true ∧ pe.errorCode = code

theorem not_isClosing_of_isClose (e : Event) (h : e.isClose) : ¬ e.isClosing := by
  cases e <;> first | exact id | exact h.elim

/-- The calls a tick makes. -/
theorem closeCalls_tick (h : CloseInv w) (t : Tick σ) :
    closeCalls (w.tick T t).trace = closeCalls w.trace ∨
    ∃ code reason ans, closeCalls w.trace = [] ∧ t = .processWrites ∧
      CloseCall T (w.beforeBarrier T) code reason ans ∧
      (w.tick T t).trace = .connClose code reason ans :: (w.beforeBarrier T).trace := by
  cases t with
  | processReads => exact .inl (doProcessReads_unclosed w).calls
  | waitForData => exact .inl (waitForData_keeps w h).2.1
  | transport c => exact .inl rfl
  | front a => exact .inl (blind_closeCalls.grows (front_keepsClose w a).grows)
  | processWrites =>
    have hu := beforeBarrier_unclosed (T := T) w
    have hb := barrier (T := T) (hu.inv h)
    change closeCalls ((w.beforeBarrier T).applyCloseBarrier T).trace = _ ∨
      ∃ code reason ans, _ ∧ _ ∧ _ ∧ ((w.beforeBarrier T).applyCloseBarrier T).trace = _
    generalize (w.beforeBarrier T).applyCloseBarrier T = w1 at hb
    cases hb with
    | idle _ => exact .inl hu.calls
    | call code reason msg p ha hc hw =>
      have hn := ((hu.inv h).fresh ha).1
      refine .inr ⟨code, reason, _, hu.calls.symm.trans hn, rfl, hc, ?_⟩
      exact callClose_trace _ code reason msg

theorem callClose_teardown (w : World σ) (code : Nat) (reason : Bytes) (msg : String) :
    (w.callClose T code reason msg).ctl.lastHandleTeardown = w.ctl.lastHandleTeardown := by
  unfold callClose
  dsimp only
  split <;> rfl

theorem waitForData_eof (h : w.waitForData.ctl.lastHandleTeardown = true) :
    w.ctl.lastHandleTeardown = true ∨ w.interleave.sh.cmdRx = [] ∧ w.interleave.sh.senders = 0 := by
  have hw := w.waitForData_case
  generalize w.waitForData = w' at hw h
  cases hw with
  | eof hi hq hs => exact .inr ⟨hq, hs⟩
  | _ => exact .inl h

/-- Only a wait that finds the channel empty and without senders records its end. -/
theorem teardown_tick (h : CloseInv w) (t : Tick σ)
    (ht : (w.tick T t).ctl.lastHandleTeardown = true) : w.ctl.lastHandleTeardown = true ∨
    t = .waitForData ∧ w.interleave.sh.cmdRx = [] ∧ w.interleave.sh.senders = 0 := by
  cases t with
  | processReads => exact .inl ((doProcessReads_unclosed w).teardown.symm.trans ht)
  | waitForData => exact (waitForData_eof ht).imp_right fun he => ⟨rfl, he⟩
  | transport c => exact .inl ht
  | front a => exact .inl ht
  | processWrites =>
    have hu := beforeBarrier_unclosed (T := T) w
    have hb := barrier (T := T) (hu.inv h)
    change ((w.beforeBarrier T).applyCloseBarrier T).ctl.lastHandleTeardown = true at ht
    generalize (w.beforeBarrier T).applyCloseBarrier T = w1 at hb ht
    cases hb with
    | idle _ => exact .inl (hu.teardown.symm.trans ht)
    | call code reason msg p ha hc hw =>
      rw [callClose_teardown] at ht
      exact .inl (hu.teardown.symm.trans ht)

/-- **Close is issued at most once and reported consistently.**  For every transport, every run
and every interleaving of the other tasks, and wherever the connection ends. -/
theorem close_issued_once (T : QuicConn σ) (isServer : Bool) (bidiCap uniCap depth : Nat)
    (cap : Option Nat) (c : σ) (script : List (List FrontAct)) (ticks : List (Tick σ)) :
    ClosesOnce T ((withBuffers isServer bidiCap uniCap depth cap c script).run T ticks) := by
  have h := closeInv_reachable
    (reachable_run T isServer bidiCap uniCap depth cap c script ticks)
  generalize (withBuffers isServer bidiCap uniCap depth cap c script).run T ticks = w at h
  have hle : (closeCalls w.trace).length ≤ 1 := by
    rw [h.calls]
    split <;> simp
  refine ⟨hle, h.order, closeCalls_tick h, teardown_tick h, fun code reason hl => ?_,
    fun rest => ⟨?_, ?_⟩,
    classify_precedence w.ctl, fun code => applicationClose_from_peer⟩
  · -- at most one call, and the recorded one is among them
    have hm := h.recorded _ hl
    match hcc : closeCalls w.trace with
    | [] => simp [hcc] at hm
    | [x] => simpa [hcc, eq_comm] using hm
    | x :: y :: l => simp [hcc] at hle
  · have hg := (doOnConnClose_close T w).trans (.foldl front front_close rest _)
    exact blind_closeCalls.grows (Grows.mono not_isClosing_of_isClose hg)
  · exact doOnConnClose_published h.cells rest

end World

end QuicheH3
