/-
# Every run keeps the account

Step by step: a piece of the worker that does not concern operations leaves them where they are
(`FaceOnly`; front-end actions interleaved with it may open new ones), a piece that does moves
them between their places or settles them (`Books`).  Together with the close this covers every
path an operation can take: queued, held, accepted, drained by a reset, a stop or the close, and
dropped with its entry.

`Books w F w' F'` says that the account of `w` with the operations `F` in hand becomes that of `w'`
with `F'` by entries of the book.  An operation is in hand between the moment it leaves one place
and the moment it reaches the next; the functions that begin and end with empty hands are the ones
a step is made of.

Contents
  1  the account of a world
  2  operations settled, 3 entries, 4 the other steps
  5  the close
-/
import QuicheH3.Budget.Book
import QuicheH3.Life.Provenance
import QuicheH3.Driver.Close
import QuicheH3.Driver.Refine

namespace QuicheH3

open Lib

namespace World

variable {σ : Type} {T : QuicConn σ} {w w' w'' : World σ} {F F' F'' : Multiset (ℕ × ℕ)}

/-! ## 1. The account of a world -/

/-- The account, with the operations `F` in hand. -/
def book (w : World σ) (F : Multiset (ℕ × ℕ)) : Book :=
  w.toFace.book (completions w.inbox + opsIn w.reg.send + F)

/-- From `w` with `F` in hand to `w'` with `F'`, entry by entry. -/
structure Books (w : World σ) (F : Multiset (ℕ × ℕ)) (w' : World σ) (F' : Multiset (ℕ × ℕ)) :
    Prop where
  cap : w'.sh.cap = w.sh.cap
  sized : Sized w.trace → Sized w'.trace
  moves : Book.Moves (budgetRule w.sh.cap) (w.book F) (w'.book F')

theorem Books.trans (h : Books w F w' F') (h' : Books w' F' w'' F'') : Books w F w'' F'' where
  cap := h'.cap.trans h.cap
  sized := h'.sized ∘ h.sized
  moves := by
    have h1 := h'.moves
    rw [h.cap] at h1
    exact h.moves.trans h1

/-- Inbox and operation queues are as before. -/
structure FaceOnly (w w' : World σ) : Prop where
  face : w.toFace.Books w'.toFace
  inbox : w'.inbox = w.inbox
  send : w'.reg.send = w.reg.send

theorem FaceOnly.books (h : FaceOnly w w') (F : Multiset (ℕ × ℕ)) : Books w F w' F where
  cap := h.face.cap
  sized := h.face.sized
  moves := by
    have h1 := h.face.moves (completions w.inbox + opsIn w.reg.send + F)
    unfold book
    rwa [h.inbox, h.send]

/-- Operations change places and nothing else happens. -/
theorem Books.shift (hc : w'.sh.cap = w.sh.cap) (hr : w'.sh.resident = w.sh.resident)
    (hn : w'.sh.nextTok = w.sh.nextTok) (ht : Grows Event.idle w.trace w'.trace)
    (hp : completions w'.sh.cmdRx + (completions w'.inbox + opsIn w'.reg.send + F') =
      completions w.sh.cmdRx + (completions w.inbox + opsIn w.reg.send + F)) :
    Books w F w' F' where
  cap := hc
  sized h := h.grows ht
  moves := by
    have h : w'.book F' = w.book F := by
      unfold book Face.book
      rw [hp, hr, hn, blind_deals.grows ht]
    rw [h]

namespace FaceOnly

theorem trans (h : FaceOnly w w') (h' : FaceOnly w' w'') : FaceOnly w w'' :=
  ⟨h.face.trans h'.face, h'.inbox.trans h.inbox, h'.send.trans h.send⟩

theorem quiet (hc : w'.sh.cap = w.sh.cap) (hq : w'.sh.cmdRx = w.sh.cmdRx)
    (hr : w'.sh.resident = w.sh.resident) (hn : w'.sh.nextTok = w.sh.nextTok)
    (ht : Grows Event.idle w.trace w'.trace) (hi : w'.inbox = w.inbox)
    (hs : w'.reg.send = w.reg.send) : FaceOnly w w' := ⟨.quiet hc hq hr hn ht, hi, hs⟩

theorem refl (w : World σ) : FaceOnly w w := ⟨.refl _, rfl, rfl⟩

/-- Only registries other than the send registry change. -/
theorem registry (hf : w'.toFace = w.toFace) (hi : w'.inbox = w.inbox)
    (hs : w'.reg.send = w.reg.send) : FaceOnly w w' := ⟨hf ▸ .refl _, hi, hs⟩

theorem emit (w : World σ) (e : Event) (he : e.idle) : FaceOnly w (w.emit e) :=
  ⟨.emit _ e he, rfl, rfl⟩

theorem modRecv (w : World σ) (h : Nat) (g : RecvHalf → RecvHalf) : FaceOnly w (w.modRecv h g) :=
  ⟨.modRecv _ h g, rfl, rfl⟩

theorem front (w : World σ) (a : FrontAct) : FaceOnly w (w.front a) := ⟨.front _ a, rfl, rfl⟩

theorem fronts (w : World σ) (acts : List FrontAct) : FaceOnly w (w.fronts acts) :=
  ⟨.fronts acts _, rfl, rfl⟩

theorem interleave (w : World σ) : FaceOnly w w.interleave := ⟨.fronts _ _, rfl, rfl⟩

theorem idle_of_isRecvReg (e : Event) (h : e.isRecvReg) : e.idle := by
  cases e <;> first | exact h.elim | trivial

theorem recvSide (h : RecvSide w w') : FaceOnly w w' := by
  have hg := h.grows.mono idle_of_isRecvReg
  refine quiet ?_ ?_ ?_ ?_ hg ?_ h.send <;> rw [h.eq]

theorem setSendCell (w : World σ) (c : Nat) (e : SendEnd) : FaceOnly w (w.setSendCell c e) := by
  unfold World.setSendCell
  split
  · exact refl w
  · exact quiet rfl rfl rfl rfl (.one trivial) rfl rfl

theorem clean_frame : CleanFrame (FaceOnly (σ := σ)) where
  refl := refl
  trans := trans
  eraseAdmit _ _ := registry rfl rfl rfl
  erasePending _ _ := registry rfl rfl rfl
  parked _ _ _ := registry rfl rfl rfl
  pending _ _ _ := registry rfl rfl rfl
  shutdown _ _ _ _ _ := quiet rfl rfl rfl rfl (.one trivial) rfl rfl

theorem pushPendingAdmit (w : World σ) (id : Nat) (m : Map PeerStream) :
    FaceOnly w { w with reg := { w.reg with pendingAdmit := m }.pushPendingAdmit id } := by
  refine registry rfl rfl ?_
  unfold Registry.pushPendingAdmit
  split <;> rfl

theorem noteShutdown (w : World σ) (id : Nat) (bidi : Bool) : FaceOnly w (w.noteShutdown id bidi) :=
  clean_frame.noteShutdown (fun w _ => emit w _ trivial) w bidi

theorem intakeOne (w : World σ) (id : Nat) : FaceOnly w (w.intakeOne id) :=
  clean_frame.intakeOne w (registry rfl rfl rfl) (pushPendingAdmit w id _)

theorem setOpenOf (w : World σ) (bidi : Bool) (q : List Nat) : FaceOnly w (w.setOpenOf bidi q) := by
  cases bidi <;> exact registry rfl rfl rfl

theorem advanceNextId (w : World σ) (bidi : Bool) : FaceOnly w (w.advanceNextId bidi) := by
  cases bidi <;> exact registry rfl rfl rfl

theorem dropAnswer (w : World σ) (ans : Reply) : FaceOnly w (w.dropAnswer ans) := by
  cases ans with
  | bidi h c => exact ⟨.dropBidiHandoff _ (h, c), rfl, rfl⟩
  | uni c => exact ⟨.dropSendHandoff _ c, rfl, rfl⟩
  | _ => exact refl w

end FaceOnly

theorem Books.registry (hf : w'.toFace = w.toFace) (hi : w'.inbox = w.inbox)
    (hs : w'.reg.send = w.reg.send) : Books w F w' F := (FaceOnly.registry hf hi hs).books F

theorem Books.quiet (hc : w'.sh.cap = w.sh.cap) (hq : w'.sh.cmdRx = w.sh.cmdRx)
    (hr : w'.sh.resident = w.sh.resident) (hn : w'.sh.nextTok = w.sh.nextTok)
    (ht : Grows Event.idle w.trace w'.trace) (hi : w'.inbox = w.inbox)
    (hs : w'.reg.send = w.reg.send) : Books w F w' F :=
  (FaceOnly.quiet hc hq hr hn ht hi hs).books F

/-- A command that carries no operation. -/
theorem Books.without {cmd : DriverCommand} (hx : cmd.completion = none) (h : Books w F w' F) :
    Books w (completions [cmd] + F) w' F := by
  rwa [completions_cons_none hx, completions_nil, zero_add]

/-! ## 2. Operations settled -/

/-- Completing an operation in hand. -/
theorem completeOp_books (w : World σ) (op : SendOp) (res : Except SendEnd Unit) :
    Books w (op.completion ::ₘ F) (w.completeOp op res) F := by
  have hp : (w.book (op.completion ::ₘ F)).pending = op.completion ::ₘ (w.book F).pending := by
    simp [book, Face.book, Multiset.add_cons]
  cases op with
  | write buf t permit =>
    exact ⟨rfl, fun h => h.cons (by rintro _ _ _ _ ⟨⟩), .single (.settled t (permit.getD 0) _ hp)⟩
  | finish t => exact ⟨rfl, fun h => h.cons (by rintro _ _ _ _ ⟨⟩), .single (.settled t 0 _ hp)⟩

/-- Dropping an operation in hand. -/
theorem cancelOp_books (w : World σ) (op : SendOp) :
    Books w (op.completion ::ₘ F) (w.cancelOp op) F := by
  have hp : (w.book (op.completion ::ₘ F)).pending = op.completion ::ₘ (w.book F).pending := by
    simp [book, Face.book, Multiset.add_cons]
  cases op with
  | write buf t permit =>
    exact ⟨rfl, fun h => h.cons (by rintro _ _ _ _ ⟨⟩), .single (.settled t (permit.getD 0) _ hp)⟩
  | finish t => exact ⟨rfl, fun h => h.cons (by rintro _ _ _ _ ⟨⟩), .single (.settled t 0 _ hp)⟩

/-- A list of operations in hand, one after the other. -/
theorem settleOps_books (g : World σ → SendOp → World σ)
    (hg : ∀ (w : World σ) op F, Books w (op.completion ::ₘ F) (g w op) F) (ops : List SendOp)
    (w : World σ) (F : Multiset (ℕ × ℕ)) : Books w (opsOf ops + F) (ops.foldl g w) F := by
  induction ops generalizing w with
  | nil =>
    rw [opsOf_nil, zero_add]
    exact (FaceOnly.refl w).books F
  | cons op ops ih =>
    rw [opsOf_cons, Multiset.cons_add]
    exact (hg w op _).trans (ih _)

theorem completeOps_books (w : World σ) (ops : List SendOp) (res : Except SendEnd Unit)
    (F : Multiset (ℕ × ℕ)) : Books w (opsOf ops + F) (w.completeOps ops res) F :=
  settleOps_books _ (fun w op _ => completeOp_books w op res) ops w F

/-! ## 3. Entries -/

/-- The operation at the head, in hand. -/
theorem opsOf_head {ops ops' : List SendOp} {op : SendOp} (ho : ops = op :: ops')
    (F : Multiset (ℕ × ℕ)) : opsOf ops' + op.completion ::ₘ F = opsOf ops + F := by
  rw [ho, opsOf_cons, Multiset.add_cons, Multiset.cons_add]

/-- An entry written back: its operations and those in hand are together the same. -/
theorem putSend_books {id : Nat} {s s' : StreamSendState} (hs : w.reg.send.lookup id = some s)
    (hp : opsOf s'.sendOps + F' = opsOf s.sendOps + F) : Books w F (w.putSend id s') F' := by
  refine .shift rfl rfl rfl (.refl _ _) ?_
  have h1 : opsIn (w.putSend id s').reg.send + F' = opsIn w.reg.send + F := by
    change opsIn (w.reg.send.insert id s') + F' = _
    rw [opsIn_insert, opsIn_of_lookup hs, add_right_comm, hp, add_right_comm]
  rw [add_assoc, h1, add_assoc]
  rfl

theorem completeOp_putSend (w : World σ) (op : SendOp) (res : Except SendEnd Unit) (id : Nat)
    (s : StreamSendState) :
    (w.completeOp op res).putSend id s = (w.putSend id s).completeOp op res := by
  cases op <;> rfl

theorem putSend_same {id : Nat} {s : StreamSendState} (hs : w.reg.send.lookup id = some s)
    (s' : StreamSendState) (ho : s'.sendOps = s.sendOps) (F : Multiset (ℕ × ℕ)) :
    Books w F (w.putSend id s') F := putSend_books hs (by rw [ho])

/-- An entry emptied: its operations are in hand. -/
theorem putSend_emptied {id : Nat} {s : StreamSendState} (hs : w.reg.send.lookup id = some s)
    (s' : StreamSendState) (ho : s'.sendOps = []) (F : Multiset (ℕ × ℕ)) :
    Books w F (w.putSend id s') (opsOf s.sendOps + F) := by
  refine putSend_books hs ?_
  rw [ho, opsOf_nil, zero_add]

theorem dropSendEntry_books (w : World σ) (id : Nat) (F : Multiset (ℕ × ℕ)) :
    Books w F (w.dropSendEntry id) F := by
  unfold dropSendEntry
  split
  · exact (FaceOnly.refl w).books F
  · rename_i s hs
    have h1 : Books w F { w with reg.send := w.reg.send.erase id } (opsOf s.sendOps + F) := by
      refine .shift rfl rfl rfl (.refl _ _) ?_
      rw [opsIn_of_lookup hs]
      change _ + (_ + opsIn (w.reg.send.erase id) + _) = _
      rw [add_comm (opsOf s.sendOps) (opsIn _), ← add_assoc (completions w.inbox), add_assoc _ _ F]
    have h2 := h1.trans (settleOps_books cancelOp (fun w op _ => cancelOp_books w op) s.sendOps _ F)
    exact h2.trans ((FaceOnly.emit _ (.sendClose id s.status) trivial).books F)

theorem dropSendEntry_lookup (w : World σ) (id : Nat) :
    (w.dropSendEntry id).reg.send.lookup id = none := by
  unfold dropSendEntry
  split
  · assumption
  · rename_i s hs
    obtain ⟨n, hn⟩ : ∃ v : World σ, v.reg.send = w.reg.send.erase id ∧
        s.sendOps.foldl cancelOp { w with reg.send := w.reg.send.erase id } = v := by
      refine ⟨_, ?_, rfl⟩
      generalize hv : ({ w with reg.send := w.reg.send.erase id } : World σ) = v
      have hve : v.reg.send = w.reg.send.erase id := by rw [← hv]
      clear hv
      induction s.sendOps generalizing v with
      | nil => exact hve
      | cons op ops ih => exact ih _ (by cases op <;> exact hve)
    rw [hn.2]
    change n.reg.send.lookup id = none
    rw [hn.1]
    exact AList.lookup_erase _ _

theorem insertSend_books (w : World σ) (id c : Nat) (F : Multiset (ℕ × ℕ)) :
    Books w F (w.insertSend id c) F := by
  unfold insertSend
  dsimp only
  refine (dropSendEntry_books w id F).trans ?_
  have hnone := dropSendEntry_lookup w id
  generalize w.dropSendEntry id = v at hnone ⊢
  refine .shift rfl rfl rfl (.one trivial) ?_
  change _ + (_ + opsIn (v.reg.send.insert id (.new c)) + F) = _
  rw [opsIn_insert, opsIn_erase_of_none hnone]
  change _ + (_ + (0 + opsIn v.reg.send) + F) = _
  rw [zero_add]
  rfl

theorem ensureSend_books (w : World σ) (id : Nat) (F : Multiset (ℕ × ℕ)) :
    Books w F (w.ensureSend id) F := by
  unfold ensureSend
  split
  · exact (FaceOnly.refl w).books F
  · have h1 : FaceOnly w { w with
        sh.nextSend := w.sh.nextSend + 1
        sh.sendHalves := Function.update w.sh.sendHalves w.sh.nextSend
          { (default : SendHalf) with id := id } } :=
      .quiet rfl rfl rfl rfl (.refl _ _) rfl rfl
    exact (h1.books F).trans (insertSend_books _ id _ F)

theorem buildSend_books (w : World σ) (id : Nat) (retained : Option SendEnd)
    (F : Multiset (ℕ × ℕ)) : Books w F (w.buildSend id retained).2 F := by
  have h1 : FaceOnly w ({ w with
      sh.nextSend := w.sh.nextSend + 1
      sh.senders := w.sh.senders + 1
      sh.sendHalves := Function.update w.sh.sendHalves w.sh.nextSend
        { (default : SendHalf) with id := id, holder := .handoff } }.emit
      (.handle id w.sh.nextSend)) :=
    .quiet rfl rfl rfl rfl (.one trivial) rfl rfl
  cases retained with
  | some e => exact (h1.trans (.setSendCell _ _ e)).books F
  | none => exact (h1.books F).trans (insertSend_books _ id _ F)

/-- Ending a direction and reclaiming the stream move no permit but those of its entry. -/
theorem books_ends (F : Multiset (ℕ × ℕ)) (id : Nat) :
    EndFrame (fun w w' : World σ => Books w F w' F) id where
  refl w := (FaceOnly.refl w).books F
  trans := .trans
  eraseAdmit _ := .registry rfl rfl rfl
  markAdmit _ _ _ := .registry rfl rfl rfl
  dropRecv w := (FaceOnly.recvSide (recvSides.dropRecvEntry w id)).books F
  dropSend w := dropSendEntry_books w id F
  recvCursors _ := .registry rfl rfl rfl
  sendCursor _ := .registry rfl rfl rfl
  recvDone w := (FaceOnly.emit w (.recvDone id) trivial).books F
  sendDone w := (FaceOnly.emit w (.sendDone id) trivial).books F
  finished _ s hs := putSend_same hs { s with finished := true } rfl F

/-- The end of a send direction: every queued operation completes with the terminal. -/
theorem sendTerminalTransition_books (w : World σ) (id : Nat) (e : SendEnd)
    (F : Multiset (ℕ × ℕ)) : Books w F (w.sendTerminalTransition id e) F := by
  unfold sendTerminalTransition
  split
  · exact (FaceOnly.refl w).books F
  · rename_i s hs
    dsimp only
    have h1 := (FaceOnly.setSendCell w s.status e).books F
    have hs' : (w.setSendCell s.status e).reg.send.lookup id = some s := by
      rw [(FaceOnly.setSendCell w s.status e).send]
      exact hs
    have h2 := h1.trans (putSend_emptied hs' { s with
      terminal := some (s.terminal.getD e), held := none, sendOps := [] } rfl F)
    exact h2.trans ((completeOps_books _ _ _ F).trans ((books_ends F id).markSendDone _))

theorem completeFinishOp_books (w : World σ) (id : Nat) (F : Multiset (ℕ × ℕ)) :
    Books w F (w.completeFinishOp id) F := by
  have hrest (v : World σ) : Books v F ((v.markSendDone id).reclaimFinishedSend id) F :=
    ((books_ends F id).markSendDone v).trans ((books_ends F id).reclaimFinishedSend _)
  unfold completeFinishOp
  cases hs : w.reg.send.lookup id with
  | none => exact hrest w
  | some s =>
    dsimp only
    cases ho : s.sendOps with
    | nil => exact hrest w
    | cons op ops =>
      have h1 : Books w F (w.putSend id { s with sendOps := ops }) (op.completion ::ₘ F) :=
        putSend_books hs (opsOf_head ho F)
      exact (h1.trans (completeOp_books _ op _)).trans (hrest _)

theorem enqueueSendOp_books (w : World σ) (id : Nat) (op : SendOp) (F : Multiset (ℕ × ℕ)) :
    Books w (op.completion ::ₘ F) (w.enqueueSendOp id op) F := by
  have h1 := ensureSend_books w id (op.completion ::ₘ F)
  have hsome : ((w.ensureSend id).reg.send.lookup id).isSome := by
    unfold ensureSend
    split
    · rename_i hs
      rw [hs]
      rfl
    · change (((dropSendEntry _ id).reg.send.insert id _).lookup id).isSome
      rw [AList.lookup_insert]
      rfl
  unfold enqueueSendOp
  dsimp only
  generalize w.ensureSend id = v at h1 hsome
  split
  · rename_i hs
    rw [hs] at hsome
    cases hsome
  · rename_i s hs
    split
    · exact h1.trans (completeOp_books v op _)
    · have h2 : Books v (op.completion ::ₘ F)
          (v.putSend id { s with sendOps := s.sendOps ++ [op] }) F := by
        refine putSend_books hs ?_
        rw [opsOf_append, opsOf_cons, opsOf_nil, Multiset.add_cons, add_zero, Multiset.add_cons,
          Multiset.cons_add]
      exact (h1.trans h2).trans (.registry rfl rfl rfl)

theorem resetEntry_books (w : World σ) (id code : Nat) (F : Multiset (ℕ × ℕ)) :
    Books w F (w.resetEntry id code) F := by
  unfold resetEntry
  split
  · exact (FaceOnly.refl w).books F
  · rename_i s hs
    split
    · exact (FaceOnly.refl w).books F
    · dsimp only
      have h1 := (FaceOnly.setSendCell w s.status (.reset code)).books F
      have hs' : (w.setSendCell s.status (.reset code)).reg.send.lookup id = some s := by
        rw [(FaceOnly.setSendCell w s.status (.reset code)).send]
        exact hs
      have h2 := h1.trans (putSend_emptied hs' { s with
        pendingReset := some code, terminal := some (.reset code), sendOps := [], held := none } rfl
          F)
      exact h2.trans ((completeOps_books _ _ _ F).trans (.registry rfl rfl rfl))

/-! ## 4. The other steps -/

theorem buildPeerBidi_books (w : World σ) (peer : PeerStream) (F : Multiset (ℕ × ℕ)) :
    Books w F (w.buildPeerBidi peer).2 F := by
  have h1 := FaceOnly.recvSide (recvSides.buildRecv w peer.id peer.pendingRecvTerminal)
  have h2 := (h1.books F).trans (buildSend_books _ peer.id peer.pendingSendTerminal F)
  exact h2.trans (.registry rfl rfl rfl)

theorem buildPeerUni_books (w : World σ) (peer : PeerStream) (F : Multiset (ℕ × ℕ)) :
    Books w F (w.buildPeerUni peer).2 F := by
  have h1 := FaceOnly.recvSide (recvSides.buildRecv w peer.id peer.pendingRecvTerminal)
  exact (h1.books F).trans (.registry rfl rfl rfl)

theorem opened_books (w : World σ) (bidi : Bool) (rest : List Nat) (F : Multiset (ℕ × ℕ)) :
    Books w F (w.opened bidi rest).2 F := by
  have h1 := (FaceOnly.setOpenOf w bidi rest).trans
    (.emit _ (.streamPriority (w.nextIdOf bidi) true) trivial)
  have h2 := h1.trans (.advanceNextId _ bidi)
  unfold opened
  generalize (((w.setOpenOf bidi rest).emit (.streamPriority (w.nextIdOf bidi) true)).advanceNextId
    bidi) = v at h2
  unfold buildOpen
  split
  · have h3 := h2.trans (.recvSide (recvSides.buildRecv v (w.nextIdOf bidi) none))
    exact (h3.books F).trans (buildSend_books _ _ none F)
  · exact (h2.books F).trans (buildSend_books v _ none F)

theorem undeliver_books (w : World σ) (bidi : Bool) (id : Nat) (ans : Reply)
    (F : Multiset (ℕ × ℕ)) : Books w F (w.undeliver bidi id ans) F := by
  have h1 := ((FaceOnly.dropAnswer w ans).books F).trans (dropSendEntry_books _ id F)
  have h2 := h1.trans ((FaceOnly.emit _ (.streamShutdown id .write h3RequestCancelled)
    trivial).books F)
  unfold undeliver
  dsimp only
  split
  · have h3 := (FaceOnly.recvSide (recvSides.dropRecvEntry
      (((w.dropAnswer ans).dropSendEntry id).emit (.streamShutdown id .write h3RequestCancelled))
      id)).trans (.emit _ (.streamShutdown id .read h3RequestCancelled) trivial)
    exact h2.trans (h3.books F)
  · exact h2

theorem pushAcceptBidi_books (w : World σ) (id : Nat) (hand : Nat × Nat)
    (F : Multiset (ℕ × ℕ)) : Books w F (w.pushAcceptBidi id hand) F :=
  .quiet rfl rfl rfl rfl (.one trivial) rfl rfl

theorem pushAcceptUni_books (w : World σ) (id h : Nat) (F : Multiset (ℕ × ℕ)) :
    Books w F (w.pushAcceptUni id h) F :=
  .quiet rfl rfl rfl rfl (.one trivial) rfl rfl

theorem answered_books (w : World σ) (r : Nat) (t : Option ConnTerminal) (ans : Reply)
    (F : Multiset (ℕ × ℕ)) : Books w F ((w.setReply r ans).emit (.answer r t)) F :=
  .quiet rfl rfl rfl rfl (.one trivial) rfl rfl

theorem Take.send {r r' : Registry} {bidi : Bool} {id : Nat} {peer : PeerStream}
    (h : Take r bidi id peer r') : r'.send = r.send := by
  cases h with
  | pending | parked => cases bidi <;> rfl

theorem take_books {bidi : Bool} {id : Nat} {peer : PeerStream} {r : Registry}
    (h : Take w.reg bidi id peer r) : FaceOnly w { w with reg := r } := .registry rfl rfl h.send

/-- A command leaves its queue and is in hand if it carries an operation. -/
theorem Popped.books {cmd : DriverCommand} (hp : w.Popped cmd w') (F : Multiset (ℕ × ℕ)) :
    Books w F w' (completions [cmd] + F) := by
  cases hp with
  | inbox h =>
    refine .shift rfl rfl rfl (.refl _ _) ?_
    rename_i rest
    have hc : completions w.inbox = completions [cmd] + completions rest := by
      rw [h, ← completions_append]
      rfl
    rw [hc, add_comm (completions [cmd]) (completions rest)]
    simp only [add_assoc]
    rw [add_left_comm (opsIn w.reg.send)]
  | channel h0 h =>
    refine .shift rfl rfl rfl (.refl _ _) ?_
    rename_i rest
    have hc : completions w.sh.cmdRx = completions [cmd] + completions rest := by
      rw [h, ← completions_append]
      rfl
    rw [hc, add_comm (completions [cmd]) (completions rest)]
    simp only [add_assoc]
    rw [add_left_comm (completions [cmd]) (completions w.inbox),
      add_left_comm (completions [cmd]) (opsIn w.reg.send)]

theorem applyNow_books (w : World σ) (cmd : DriverCommand) (F : Multiset (ℕ × ℕ)) :
    Books w (completions [cmd] + F) (w.applyNow T cmd) F := by
  have h0 := FaceOnly.emit w (.applied cmd) trivial
  cases cmd with
  | send id buf done permit =>
    exact (h0.books _).trans (enqueueSendOp_books _ id (.write buf done permit) F)
  | finish id done => exact (h0.books _).trans (enqueueSendOp_books _ id (.finish done) F)
  | reset id code => exact .without rfl ((h0.books F).trans (ensureSend_books _ id F))
  | stopSending id code =>
    have h1 := h0.trans (.emit _ (.streamShutdown id .read code) trivial)
    exact .without rfl ((h1.books F).trans ((books_ends F id).markRecvDone _))
  | connectionDropped =>
    exact .without rfl ((h0.books F).trans ((FaceOnly.clean_frame.cleanUndeliveredPeerStreams
      _).books F))
  | close | acceptBidiResume | acceptUniResume => exact .without rfl (h0.books F)
  | _ => exact .without rfl ((h0.books F).trans (.registry rfl rfl rfl))

/-- A `stream_send` call followed by the entry written back. -/
theorem sent_books {id : Nat} {s : StreamSendState} (hs : w.reg.send.lookup id = some s)
    (s' : StreamSendState) (data : List UInt8) (fin : Bool) (res : Except QuicheError Nat)
    (hp : opsOf s'.sendOps + F' = opsOf s.sendOps + F) :
    Books w F ((w.emit (.streamSend id data fin res)).putSend id s') F' := by
  have h1 : (w.emit (.streamSend id data fin res)).reg.send.lookup id = some s := hs
  exact ((FaceOnly.emit w (.streamSend id data fin res) trivial).books F).trans
    (putSend_books h1 hp)

theorem isProbe_idle (e : Event) (h : e.isProbe) : e.idle := by
  cases e <;> first | exact h.elim | trivial

/-- **Every step is a sequence of entries.** -/
theorem step_books (hs : Step T w w') (F : Multiset (ℕ × ℕ)) : Books w F w' F := by
  cases hs with
  | front a => exact (FaceOnly.front w a).books F
  | ctl | requeue | skipResume | skipReadable | forgetRecv | markRunnable =>
    exact .registry rfl rfl rfl
  | probe e he => exact (FaceOnly.emit w e (isProbe_idle e he)).books F
  | readable id =>
    exact ((FaceOnly.emit w (.readableNext id _) trivial).trans (.intakeOne _ id)).books F
  | drain id h hr => exact (FaceOnly.emit w (.drain h) trivial).books F
  | setBlocked id h b hr hl => exact (FaceOnly.modRecv w h _).books F
  | park id h acts hr hl v hv hf =>
    subst hv
    exact (((FaceOnly.modRecv w h _).trans (.fronts _ acts)).trans
      (.emit _ (.parkFull h) trivial)).books F
  | readErr id h err hr hp =>
    have hg : Grows Event.idle w.trace (.release h :: .streamRecv id (.error err) :: w.trace) :=
      .cons trivial (.one trivial)
    exact .quiet rfl rfl rfl rfl hg rfl rfl
  | readOk id h chunk fin hr hp =>
    have hg : Grows Event.idle w.trace (.streamRecv id (.ok (chunk, fin)) :: w.trace) :=
      .one trivial
    unfold placeChunk
    split
    · exact .quiet rfl rfl rfl rfl (.cons trivial hg) rfl rfl
    · exact .quiet rfl rfl rfl rfl (.cons trivial hg) rfl rfl
  | recvEnd id h e hr hf =>
    exact ((FaceOnly.recvSide (recvSides.setRecvCell w h e)).books F).trans
      ((books_ends F id).markRecvDone _)
  | abandon id h hr hg =>
    exact ((FaceOnly.emit w (.streamShutdown id .read h3NoError) trivial).books F).trans
      ((books_ends F id).markRecvDone _)
  | stalePending bidi | lostPending bidi | skipParked bidi =>
    exact .registry rfl rfl (by cases bidi <;> rfl)
  | admitBidi bidi id peer r acts ht hb =>
    have h1 := ((take_books ht).books F).trans (buildPeerBidi_books _ peer F)
    have h2 := h1.trans ((FaceOnly.fronts _ acts).books F)
    exact h2.trans (pushAcceptBidi_books _ peer.id _ F)
  | admitUni bidi id peer r acts ht hb =>
    have h1 := ((take_books ht).books F).trans (buildPeerUni_books _ peer F)
    have h2 := h1.trans ((FaceOnly.fronts _ acts).books F)
    exact h2.trans (pushAcceptUni_books _ peer.id _ F)
  | repark bidi front id peer r ht =>
    exact ((take_books ht).books F).trans (.registry rfl rfl (by cases bidi <;> rfl))
  | tear bidi id peer r ht =>
    exact ((take_books ht).trans (.noteShutdown _ peer.id _)).books F
  | settle id => exact (books_ends F id).terminalTransition w
  | acceptFlag bidi b =>
    cases bidi <;> exact .quiet rfl rfl rfl rfl (.refl _ _) rfl rfl
  | skipOpen bidi r rest hq hw => exact (FaceOnly.setOpenOf w bidi rest).books F
  | failOpen bidi r rest t hq hw =>
    exact ((FaceOnly.setOpenOf w bidi rest).books F).trans (answered_books _ r (some t) _ F)
  | openDeliver bidi r rest acts hq v hv hw =>
    have h1 : Books w F v F :=
      hv ▸ (opened_books w bidi rest F).trans ((FaceOnly.fronts _ acts).books F)
    exact h1.trans (answered_books v r none _ F)
  | openUndeliver bidi r rest acts c hq v hv hw =>
    have h1 := (opened_books w bidi rest F).trans ((FaceOnly.fronts _ acts).books F)
    have h2 : Books w F v F := h1.trans (hv ▸ .registry rfl rfl rfl)
    exact h2.trans (undeliver_books v bidi _ _ F)
  | discover id ans hu =>
    have h1 := (FaceOnly.emit w (.writableNext id false) trivial).trans
      (.emit _ (.streamCapacity id ans) trivial)
    exact (h1.trans (.pushPendingAdmit _ id _)).books F
  | sendErr id s data fin err hl ho =>
    exact (FaceOnly.emit w (.streamSend id data fin (.error err)) trivial).books F
  | flush id s buf fin n c hl hh hr hf hn hm =>
    exact sent_books hl.entry _ _ _ _ rfl
  | flushFin id s buf n t ops c hl hh hr ho hn hm =>
    refine .trans ?_ (completeFinishOp_books _ id F)
    exact sent_books hl.entry _ _ _ _ rfl
  | emptyHeld id s buf hl hh hr => exact putSend_books hl.entry rfl
  | emptyFin id s buf t ops hl hh hr ho =>
    refine .trans ?_ (completeFinishOp_books _ id F)
    exact putSend_books hl.entry rfl
  | loneFin id s n t ops c hl hh ho hn =>
    exact ((FaceOnly.emit w (.streamSend id [] true (.ok n)) trivial).books F).trans
      (completeFinishOp_books _ id F)
  | hold id s buf t permit ops hl hh ho hr =>
    -- the source completes the operation first and takes it off its queue after
    rw [completeOp_putSend]
    refine .trans ?_ (completeOp_books _ _ _)
    exact putSend_books hl.entry (opsOf_head ho F)
  | offer id s buf t permit ops n c hl hh ho hr hn hm =>
    exact sent_books hl.entry _ _ _ _ (by rw [ho]; rfl)
  | accept id s buf t permit ops n c hl hh ho hr hn hm =>
    refine .trans ?_ (completeOp_books _ _ _)
    exact sent_books hl.entry _ _ _ _ (opsOf_head ho F)
  | skipWrite id s buf t permit ops hl hh ho hr =>
    refine .trans ?_ (completeOp_books _ _ _)
    exact putSend_books hl.entry (opsOf_head ho F)
  | sendEnd id s e hl => exact sendTerminalTransition_books w id e F
  | resetTurn id code s rest hq hs hp =>
    have h0 : Books w F ({ w with reg.runnableSend := rest }.emit (.turn id)) F :=
      .quiet rfl rfl rfl rfl (.one trivial) rfl rfl
    have hs1 : ({ w with reg.runnableSend := rest }.emit (.turn id)).reg.send.lookup id =
      some s := hs
    have h1 := (h0.trans (putSend_same hs1 { s with pendingReset := none } rfl F)).trans
      ((FaceOnly.emit _ (.streamShutdown id .write code) trivial).books F)
    exact h1.trans ((books_ends F id).markSendDone _)
  | apply v cmd hp => exact (hp.books F).trans (applyNow_books v cmd F)
  | resetEntry id code ha => exact resetEntry_books w id code F
  | toInbox cmd rest hc =>
    refine .shift rfl rfl rfl (.refl _ _) ?_
    have h1 : completions w.sh.cmdRx = completions [cmd] + completions rest := by
      rw [hc, ← completions_append]
      rfl
    rw [h1, completions_append]
    simp only [add_assoc]
    rw [add_left_comm (completions w.inbox), add_left_comm (completions [cmd]) (completions rest)]
  | _ => exact .quiet rfl rfl rfl rfl (.one trivial) rfl rfl

theorem steps_books (hs : Steps T w w') (F : Multiset (ℕ × ℕ)) : Books w F w' F := by
  induction hs with
  | refl => exact (FaceOnly.refl w).books F
  | tail _ hs ih => exact ih.trans (step_books hs F)

/-! ## 5. The close -/

theorem interleave_books (w : World σ) (F : Multiset (ℕ × ℕ)) : Books w F w.interleave F :=
  (FaceOnly.interleave w).books F

theorem publishConnTerminal_books (w : World σ) (t : ConnTerminal) (F : Multiset (ℕ × ℕ)) :
    Books w F (w.publishConnTerminal t) F := by
  have hset (w v : World σ) (hv : v.interleave = w) (g : Shared → Shared)
      (hg : ∀ s, (g s).cap = s.cap ∧ (g s).cmdRx = s.cmdRx ∧ (g s).resident = s.resident ∧
        (g s).nextTok = s.nextTok) : Books v F { w with sh := g w.sh } F := by
    subst hv
    obtain ⟨h1, h2, h3, h4⟩ := hg v.interleave.sh
    exact (interleave_books v F).trans (.quiet h1 h2 h3 h4 (.refl _ _) rfl rfl)
  have h1 := hset _ w rfl (fun s => { s with connTerminal := cellSet s.connTerminal t })
    fun _ => ⟨rfl, rfl, rfl, rfl⟩
  have h2 := h1.trans (hset _ _ rfl
    (fun s => { s with acceptTerminalBidi := cellSet s.acceptTerminalBidi t })
    fun _ => ⟨rfl, rfl, rfl, rfl⟩)
  exact h2.trans (hset _ _ rfl
    (fun s => { s with acceptTerminalUni := cellSet s.acceptTerminalUni t })
    fun _ => ⟨rfl, rfl, rfl, rfl⟩)

theorem foldl_books {α : Type} (g : World σ → α → World σ) (F : Multiset (ℕ × ℕ))
    (hg : ∀ w x, Books w F (g w x) F) : ∀ (l : List α) (w : World σ), Books w F (l.foldl g w) F
  | [], w => (FaceOnly.refl w).books F
  | x :: l, w => (hg w x).trans (foldl_books g F hg l (g w x))

theorem publishRecvs_books (w : World σ) (t : ConnTerminal) (F : Multiset (ℕ × ℕ)) :
    Books w F (w.publishRecvs t) F := by
  refine foldl_books _ F (fun w id => ?_) _ w
  refine (interleave_books w F).trans ?_
  unfold publishRecvTerminal
  split
  · exact (FaceOnly.recvSide (recvSides.setRecvCell _ _ _)).books F
  · exact (FaceOnly.refl _).books F

/-- What an entry held is in hand afterwards. -/
theorem closeSendEntry_books (t : ConnTerminal) (x : World σ × List SendOp) (id : Nat) :
    Books x.1 (opsOf x.2) (closeSendEntry t x id).1 (opsOf (closeSendEntry t x id).2) := by
  have h1 := interleave_books x.1 (opsOf x.2)
  unfold closeSendEntry
  dsimp only
  split
  · exact h1
  · rename_i s hs
    have h2 := FaceOnly.setSendCell x.1.interleave s.status (.conn t)
    have hs' : (x.1.interleave.setSendCell s.status (.conn t)).reg.send.lookup id = some s := by
      rw [h2.send]
      exact hs
    refine h1.trans ((h2.books _).trans (putSend_books hs' ?_))
    rw [opsOf_append, opsOf_nil, zero_add, add_comm]

theorem closeSendEntries_books (t : ConnTerminal) : ∀ (ids : List Nat) (x : World σ × List SendOp),
    Books x.1 (opsOf x.2) (ids.foldl (closeSendEntry t) x).1
      (opsOf (ids.foldl (closeSendEntry t) x).2)
  | [], x => (FaceOnly.refl x.1).books _
  | id :: ids, x => (closeSendEntry_books t x id).trans (closeSendEntries_books t ids _)

theorem publishSends_books (w : World σ) (t : ConnTerminal) : Books w 0 (w.publishSends t) 0 := by
  have h1 := closeSendEntries_books t w.reg.send.keys (w, [])
  have h2 := completeOps_books (w.reg.send.keys.foldl (closeSendEntry t) (w, [])).1
    (w.reg.send.keys.foldl (closeSendEntry t) (w, [])).2 (.error (.conn t)) 0
  rw [add_zero] at h2
  exact h1.trans h2

theorem replyErr_books (w : World σ) (r : Nat) (t : ConnTerminal) (F : Multiset (ℕ × ℕ)) :
    Books w F (w.replyErr r t) F := by
  have h1 := interleave_books w F
  unfold replyErr
  dsimp only
  split
  · exact h1.trans (answered_books _ r (some t) _ F)
  · exact h1

theorem completeCommandOnClose_books (t : ConnTerminal) (w : World σ) (cmd : DriverCommand)
    (F : Multiset (ℕ × ℕ)) :
    Books w (completions [cmd] + F) (completeCommandOnClose t w cmd) F := by
  cases cmd with
  | send id buf done permit => exact completeOp_books w (.write buf done permit) _
  | finish id done => exact completeOp_books w (.finish done) _
  | openBidi r | openUni r => exact .without rfl (replyErr_books w r t F)
  | _ => exact .without rfl ((FaceOnly.refl w).books F)

theorem completeCommands_books (t : ConnTerminal) : ∀ (cs : List DriverCommand) (w : World σ),
    Books w (completions cs) (cs.foldl (completeCommandOnClose t) w) 0
  | [], w => (FaceOnly.refl w).books 0
  | cmd :: cs, w => by
    have h1 : completions (cmd :: cs) = completions [cmd] + completions cs :=
      completions_append [cmd] cs
    rw [h1]
    exact (completeCommandOnClose_books t w cmd _).trans (completeCommands_books t cs _)

theorem closeIngress_books (w : World σ) (t : ConnTerminal) : Books w 0 (w.closeIngress t) 0 := by
  have h1 := interleave_books w 0
  unfold closeIngress
  dsimp only
  generalize w.interleave = v at h1
  refine h1.trans (.trans ?_ (completeCommands_books t _ _))
  refine .shift rfl rfl rfl (.refl _ _) ?_
  rw [completions_append, completions_nil, zero_add, zero_add, add_zero, add_comm, add_assoc,
    add_left_comm]

theorem failOpens_books (w : World σ) (t : ConnTerminal) (F : Multiset (ℕ × ℕ)) :
    Books w F (w.failOpens t) F := by
  have h1 : Books w F { w with openBidi := [], openUni := [] } F := .registry rfl rfl rfl
  exact h1.trans (foldl_books _ F (fun w r => replyErr_books w r t F) _ _)

/-- **The close is a sequence of entries.** -/
theorem doOnConnClose_books (T : QuicConn σ) (w : World σ) : Books w 0 (w.doOnConnClose T) 0 := by
  have h1 := (publishConnTerminal_books w (classifyConnTerminal T w.ctl) 0).trans
    (publishRecvs_books _ (classifyConnTerminal T w.ctl) 0)
  have h2 := h1.trans (publishSends_books _ (classifyConnTerminal T w.ctl))
  have h3 := h2.trans (closeIngress_books _ (classifyConnTerminal T w.ctl))
  exact h3.trans (failOpens_books _ (classifyConnTerminal T w.ctl) 0)

theorem runClosed_books (T : QuicConn σ) (w : World σ) (ticks : List (Tick σ))
    (rest : List FrontAct) : Books w 0 (w.runClosed T ticks rest) 0 := by
  have hrun : Steps T w (w.run T ticks) := run_steps ticks w
  have h1 := (steps_books hrun 0).trans (doOnConnClose_books T _)
  exact h1.trans (foldl_books front 0 (fun w a => (FaceOnly.front w a).books 0) rest _)

end World

end QuicheH3
