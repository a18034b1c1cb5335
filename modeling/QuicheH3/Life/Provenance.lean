/-
# Every step keeps the origins

`Origin` adds the worker's side to `FaceOrigin`: send entries stand over cells of their stream,
queued operations were submitted for it, and a command on its way, or applied, is about a
stream that has halves.  `Still` is the frame of the pieces that only take away.

The origins are what lets a step of one stream be told from a step of another: a status cell or a
completion carries no stream id, but the history says for which stream it was made.  Every other
module about single streams rests on this one.

Contents
  1  pieces that only take away
  2  the front end: a new command is about a stream some object refers to
  3  pieces that make an entry, a cell or an operation
  4  handoffs: built, delivered, dropped
  5  the steps
-/
import QuicheH3.Life.Origin
import QuicheH3.Registry.Peers
import QuicheH3.Open.Refine

namespace QuicheH3

open Lib

/-- A command that was submitted, for a stream that has halves. -/
def CmdOk (tr : List Event) (cmd : DriverCommand) : Prop :=
  .submit cmd ∈ tr ∧ ∀ id, cmd.streamId = some id → Known id tr

theorem CmdOk.mono {tr tr' : List Event} {cmd : DriverCommand} (h : CmdOk tr cmd)
    (hs : tr ⊆ tr') : CmdOk tr' cmd := ⟨hs h.1, fun id hid => (h.2 id hid).mono hs⟩

/-- A send entry stands over a cell of its stream and its operations were submitted for it. -/
structure EntryOk (tr : List Event) (id : Nat) (s : StreamSendState) : Prop where
  cell : .sendOpen id s.status ∈ tr
  ops : ∀ op ∈ s.sendOps, Submitted op.tok id tr

theorem EntryOk.mono {tr tr' : List Event} {id : Nat} {s : StreamSendState} (h : EntryOk tr id s)
    (hs : tr ⊆ tr') : EntryOk tr' id s := ⟨hs h.cell, fun op ho => (h.ops op ho).mono hs⟩

namespace World

variable {σ : Type} {T : QuicConn σ} {w w' w'' : World σ}

/-- Everything that stands for a stream was made for it. -/
structure Origin (w : World σ) : Prop where
  face : FaceOrigin w.toFace
  entry : ∀ id s, w.reg.send.lookup id = some s → EntryOk w.trace id s
  cmd : ∀ cmd, cmd ∈ w.inbox ∨ cmd ∈ w.sh.cmdRx → CmdOk w.trace cmd
  applied : ∀ cmd, .applied cmd ∈ w.trace → CmdOk w.trace cmd

/-- An entry whose cell and completions are those of an older one. -/
def Inherits (s s' : StreamSendState) : Prop :=
  s'.status = s.status ∧ ∀ op ∈ s'.sendOps, ∃ op0 ∈ s.sendOps, op0.tok = op.tok

theorem Inherits.of_subset {s s' : StreamSendState} (hs : s'.status = s.status)
    (ho : s'.sendOps ⊆ s.sendOps) : Inherits s s' := ⟨hs, fun op h => ⟨op, ho h, rfl⟩⟩

theorem Inherits.ok {s s' : StreamSendState} {tr : List Event} {id : Nat} (h : Inherits s s')
    (hs : EntryOk tr id s) : EntryOk tr id s' where
  cell := h.1 ▸ hs.cell
  ops op ho := by
    obtain ⟨op0, h0, ht⟩ := h.2 op ho
    exact ht ▸ hs.ops op0 h0

/-- Nothing is made, sent or enqueued. -/
structure Still (w w' : World σ) : Prop where
  face : Quiet w.toFace w'.toFace
  send : ∀ id s', w'.reg.send.lookup id = some s' →
    ∃ s, w.reg.send.lookup id = some s ∧ Inherits s s'
  cmds : ∀ cmd, cmd ∈ w'.inbox ∨ cmd ∈ w'.sh.cmdRx → cmd ∈ w.inbox ∨ cmd ∈ w.sh.cmdRx

namespace Still

theorem trans (h : Still w w') (h' : Still w' w'') : Still w w'' where
  face := h.face.trans h'.face
  send id s'' hs := by
    obtain ⟨s', hs', hi'⟩ := h'.send id s'' hs
    obtain ⟨s, hs0, hi⟩ := h.send id s' hs'
    refine ⟨s, hs0, hi'.1.trans hi.1, fun op ho => ?_⟩
    obtain ⟨op1, h1, ht1⟩ := hi'.2 op ho
    obtain ⟨op0, h0, ht0⟩ := hi.2 op1 h1
    exact ⟨op0, h0, ht0.trans ht1⟩
  cmds cmd hc := h.cmds cmd (h'.cmds cmd hc)

/-- The send registry and the commands stay. -/
theorem of_face (hf : Quiet w.toFace w'.toFace) (hs : w'.reg.send = w.reg.send)
    (hi : w'.inbox = w.inbox) (hc : w'.sh.cmdRx = w.sh.cmdRx) : Still w w' where
  face := hf
  send id s h := ⟨s, hs ▸ h, .of_subset rfl (List.Subset.refl _)⟩
  cmds cmd h := by rwa [hi, hc] at h

theorem refl (w : World σ) : Still w w := of_face (.refl _) rfl rfl rfl

/-- A quiet event. -/
theorem emit (w : World σ) (e : Event) (he : e.quiet) : Still w (w.emit e) :=
  of_face { Quiet.refl w.toFace with grows := .one he } rfl rfl rfl

/-- Only registries other than `send` change. -/
theorem reg (hf : w'.toFace = w.toFace) (hs : w'.reg.send = w.reg.send) (hi : w'.inbox = w.inbox) :
    Still w w' := of_face (hf ▸ .refl _) hs hi (by rw [hf])

/-- A half is changed where no reference looks. -/
theorem modRecv (w : World σ) (h : Nat) (g : RecvHalf → RecvHalf) (hid : ∀ r, (g r).id = r.id)
    (hh : ∀ r, (g r).holder = r.holder) (hp : ∀ r, (g r).pc = r.pc) : Still w (w.modRecv h g) := by
  refine of_face { Quiet.refl w.toFace with recv := fun i => ?_ } rfl rfl rfl
  by_cases hi : i = h
  · simp [World.modRecv, Face.modRecv, hi, hid, hh, hp]
  · simp [World.modRecv, Face.modRecv, hi]

theorem foldl {α : Type} (g : World σ → α → World σ) (hg : ∀ w x, Still w (g w x)) :
    ∀ (l : List α) (w : World σ), Still w (l.foldl g w)
  | [], w => refl w
  | x :: l, w => (hg w x).trans (foldl g hg l (g w x))

end Still

theorem Origin.still (h : Origin w) (hs : Still w w') : Origin w' where
  face := h.face.quiet hs.face
  entry id s' hs' := by
    obtain ⟨s, hs0, hi⟩ := hs.send id s' hs'
    exact hi.ok ((h.entry id s hs0).mono hs.face.grows.subset)
  cmd c hc := (h.cmd c (hs.cmds c hc)).mono hs.face.grows.subset
  applied c hc := (h.applied c (hs.face.grows.old hc fun h => h)).mono hs.face.grows.subset

/-! ## 1. Pieces that are still -/

theorem completeOp_still (w : World σ) (op : SendOp) (res : Except SendEnd Unit) :
    Still w (w.completeOp op res) := by
  cases op <;> exact .of_face
    { Quiet.refl w.toFace with grows := .one trivial } rfl rfl rfl

theorem cancelOp_still (w : World σ) (op : SendOp) : Still w (w.cancelOp op) := by
  cases op <;> exact .of_face
    { Quiet.refl w.toFace with grows := .one trivial } rfl rfl rfl

theorem completeOps_still (w : World σ) (ops : List SendOp) (res : Except SendEnd Unit) :
    Still w (w.completeOps ops res) := .foldl _ (fun w op => completeOp_still w op res) ops w

/-- An entry is replaced by one that inherits from it. -/
theorem putSend_still {id : Nat} {s s' : StreamSendState} (hs : w.reg.send.lookup id = some s)
    (hi : Inherits s s') : Still w (w.putSend id s') where
  face := .refl _
  send i x hx := by
    rw [putSend, congrFun (lookup_insert _ _ _) i] at hx
    by_cases hii : i = id
    · subst hii
      rw [Function.update_self] at hx
      exact ⟨s, hs, Option.some.inj hx ▸ hi⟩
    · rw [Function.update_of_ne hii] at hx
      exact ⟨x, hx, .of_subset rfl (List.Subset.refl _)⟩
  cmds _ h := h

theorem eraseSend_still (w : World σ) (id : Nat) :
    Still w { w with reg.send := w.reg.send.erase id } where
  face := .refl _
  send i x hx := by
    rw [congrFun (lookup_erase _ _) i] at hx
    by_cases hii : i = id
    · subst hii
      rw [Function.update_self] at hx
      cases hx
    · rw [Function.update_of_ne hii] at hx
      exact ⟨x, hx, .of_subset rfl (List.Subset.refl _)⟩
  cmds _ h := h

theorem dropSendEntry_still (w : World σ) (id : Nat) : Still w (w.dropSendEntry id) := by
  unfold dropSendEntry
  split
  · exact .refl w
  · rename_i s _
    have h1 := (eraseSend_still w id).trans (.foldl cancelOp cancelOp_still s.sendOps _)
    exact h1.trans (.emit _ _ trivial)

theorem dropRecvEntry_still (w : World σ) (id : Nat) : Still w (w.dropRecvEntry id) := by
  unfold dropRecvEntry
  split
  · exact .refl w
  · rename_i h _
    have h1 : Still w { w with reg.recv := w.reg.recv.erase id } := .reg rfl rfl rfl
    have h2 := h1.trans (.modRecv _ h (fun r => { r with txOpen := false }) (fun _ => rfl)
      (fun _ => rfl) fun _ => rfl)
    exact h2.trans (.emit _ _ trivial)

theorem setRecvCell_still (w : World σ) (h : Nat) (e : RecvEnd) : Still w (w.setRecvCell h e) := by
  unfold setRecvCell
  split
  · exact .refl w
  · exact (Still.modRecv w h (fun r => { r with terminal := some e }) (fun _ => rfl)
      (fun _ => rfl) fun _ => rfl).trans (.emit _ _ trivial)

theorem still_clean : CleanFrame (Still (σ := σ)) where
  refl := .refl
  trans := .trans
  eraseAdmit _ _ := .reg rfl rfl rfl
  erasePending _ _ := .reg rfl rfl rfl
  parked _ _ _ := .reg rfl rfl rfl
  pending _ _ _ := .reg rfl rfl rfl
  shutdown _ w _ _ _ :=
    .of_face { Quiet.refl w.toFace with grows := .one trivial } rfl rfl rfl

theorem still_frame (id : Nat) : EndFrame (Still (σ := σ)) id where
  toComposes := still_clean.toComposes
  eraseAdmit w := still_clean.eraseAdmit w id
  markAdmit _ _ _ := .reg rfl rfl rfl
  dropRecv w := dropRecvEntry_still w id
  dropSend w := dropSendEntry_still w id
  recvCursors _ := .reg rfl rfl rfl
  sendCursor _ := .reg rfl rfl rfl
  recvDone w := .emit w _ trivial
  sendDone w := .emit w _ trivial
  finished _ _ hs := putSend_still hs (.of_subset rfl (List.Subset.refl _))

theorem completeFinishOp_still (w : World σ) (id : Nat) : Still w (w.completeFinishOp id) := by
  unfold completeFinishOp
  refine Still.trans ?_ ((still_frame id).reclaimFinishedSend _)
  refine Still.trans ?_ ((still_frame id).markSendDone _)
  split
  · rename_i s hs
    split
    · rename_i op ops ho
      have hi : Inherits s { s with sendOps := ops } :=
        .of_subset rfl (ho ▸ List.subset_cons_self op ops)
      exact (putSend_still hs hi).trans (completeOp_still _ _ _)
    · exact .refl w
  · exact .refl w

/-! ## 2. The front end -/

theorem Origin.front (h : Origin w) {f : Face} (hr : FrontRel w.toFace f) :
    Origin { w with toFace := f } := by
  obtain ⟨cs, hcs⟩ := hr.appends
  have hsub : w.trace ⊆ f.trace := hr.grows.subset
  -- a new command is about a stream some object refers to
  have hnew : ∀ c ∈ cs, CmdOk f.trace c := by
    intro c hc
    refine ⟨?_, fun id hid => ?_⟩
    · rw [← mem_submitted, hcs.record]
      exact List.mem_append_left _ (List.mem_reverse.mpr hc)
    · rcases hcs.ids c hc id hid with ⟨i, hi, rfl⟩ | ⟨d, hd, rfl⟩
      · exact .inl ⟨i, hsub (h.face.recvRef i hi)⟩
      · exact .inr (.inl ⟨d, hsub (h.face.sendRef d hd)⟩)
  refine ⟨h.face.front hr, fun id s hs => (h.entry id s hs).mono hsub, fun c hc => ?_,
    fun c hc => (h.applied c (hr.grows.old hc fun h => h)).mono hsub⟩
  rcases hc with hc | hc
  · exact (h.cmd c (.inl hc)).mono hsub
  · change c ∈ f.sh.cmdRx at hc
    rw [hcs.queue] at hc
    rcases List.mem_append.mp hc with hc | hc
    · exact (h.cmd c (.inr hc)).mono hsub
    · exact hnew c hc

theorem Origin.fronts (h : Origin w) (acts : List FrontAct) : Origin (w.fronts acts) :=
  h.front (Face.fronts_rel acts w.toFace)

/-! ## 3. Pieces that make something -/

/-- The face changes, its history grows, the commands stay. -/
theorem Origin.reface (h : Origin w) (hf : FaceOrigin w'.toFace) (hsub : w.trace ⊆ w'.trace)
    (hs : ∀ id s, w'.reg.send.lookup id = some s → EntryOk w'.trace id s)
    (hi : w'.inbox = w.inbox) (hc : w'.sh.cmdRx = w.sh.cmdRx)
    (ha : ∀ cmd, .applied cmd ∈ w'.trace → .applied cmd ∈ w.trace) : Origin w' where
  face := hf
  entry := hs
  cmd c hc' := (h.cmd c (by rwa [hi, hc] at hc')).mono hsub
  applied c hc' := (h.applied c (ha c hc')).mono hsub

theorem Origin.setSendCell (h : Origin w) {c : Nat} (hc : c < w.sh.nextSend) (e : SendEnd) :
    Origin (w.setSendCell c e) := by
  unfold World.setSendCell
  split
  · exact h
  · rename_i hn
    exact h.reface (h.face.setCell hc hn) (List.subset_cons_self _ _)
      (fun id s hs => (h.entry id s hs).mono (List.subset_cons_self _ _)) rfl rfl
      fun cmd hm => by simpa [World.emit, World.modSend, Face.emit, Face.modSend] using hm

theorem setSendCell_send (w : World σ) (c : Nat) (e : SendEnd) :
    (w.setSendCell c e).reg = w.reg := by
  unfold setSendCell
  split <;> rfl

theorem Origin.status_lt (h : Origin w) {id : Nat} {s : StreamSendState}
    (hs : w.reg.send.lookup id = some s) : s.status < w.sh.nextSend :=
  (h.face.sendMade id s.status (.inr (h.entry id s hs).cell)).1

theorem Origin.sendTerminalTransition (h : Origin w) (id : Nat) (e : SendEnd) :
    Origin (w.sendTerminalTransition id e) := by
  unfold World.sendTerminalTransition
  split
  · exact h
  · rename_i s hs
    have h1 := h.setSendCell (h.status_lt hs) e
    have hs1 : (w.setSendCell s.status e).reg.send.lookup id = some s := by
      rw [setSendCell_send]
      exact hs
    have hi : Inherits s
        { s with terminal := some (s.terminal.getD e), held := none, sendOps := [] } :=
      .of_subset rfl (List.nil_subset _)
    have h2 := (putSend_still hs1 hi).trans (completeOps_still _ s.sendOps
      (.error (s.terminal.getD e)))
    exact h1.still (h2.trans ((still_frame id).markSendDone _))

theorem Origin.resetEntry (h : Origin w) (id code : Nat) : Origin (w.resetEntry id code) := by
  unfold World.resetEntry
  split
  · exact h
  · rename_i s hs
    split
    · exact h
    · have h1 := h.setSendCell (h.status_lt hs) (.reset code)
      have hs1 : (w.setSendCell s.status (.reset code)).reg.send.lookup id = some s := by
        rw [setSendCell_send]
        exact hs
      have hi : Inherits s { s with
          pendingReset := some code, terminal := some (.reset code), sendOps := []
          held := none } :=
        .of_subset rfl (List.nil_subset _)
      have h2 := (putSend_still hs1 hi).trans (completeOps_still _ s.sendOps
        (.error (.reset code)))
      exact h1.still (h2.trans (.reg rfl rfl rfl))

theorem Origin.insertSend (h : Origin w) {id c : Nat} (hc : c < w.sh.nextSend)
    (hid : (w.sh.sendHalves c).id = id) : Origin (w.insertSend id c) := by
  have hd := dropSendEntry_still w id
  have h1 := h.still hd
  have hc1 : c < (w.dropSendEntry id).sh.nextSend := hd.face.nextSend ▸ hc
  have hid1 : ((w.dropSendEntry id).sh.sendHalves c).id = id := by rw [hd.face.send, hid]
  refine h1.reface (h1.face.recordSend (.inr rfl) hc1 hid1) (List.subset_cons_self _ _) ?_ rfl rfl
    fun cmd hm => by simpa [World.insertSend, World.emit, Face.emit] using hm
  intro i s hs
  change ((w.dropSendEntry id).reg.send.insert id (.new c)).lookup i = some s at hs
  rw [congrFun (lookup_insert _ _ _) i] at hs
  by_cases hii : i = id
  · subst hii
    rw [Function.update_self] at hs
    cases hs
    exact ⟨List.mem_cons_self, fun op ho => by simp [StreamSendState.new] at ho⟩
  · rw [Function.update_of_ne hii] at hs
    exact (h1.entry i s hs).mono (List.subset_cons_self _ _)

theorem Origin.ensureSend (h : Origin w) (id : Nat) : Origin (w.ensureSend id) := by
  unfold World.ensureSend
  split
  · exact h
  · have h1 := h.face.allocSend { (default : SendHalf) with id := id } w.sh.senders
      (fun hh => hh.1 rfl) rfl rfl
    have h2 : Origin { w with
        sh.nextSend := w.sh.nextSend + 1
        sh.sendHalves := Function.update w.sh.sendHalves w.sh.nextSend
          { (default : SendHalf) with id := id } } :=
      h.reface h1 (List.Subset.refl _) h.entry rfl rfl fun _ hm => hm
    exact h2.insertSend (Nat.lt_succ_self _) (by simp)

/-- The allocation of `build_send`. -/
def allocHandle (w : World σ) (id : Nat) : World σ :=
  { w with
    sh.nextSend := w.sh.nextSend + 1
    sh.senders := w.sh.senders + 1
    sh.sendHalves := Function.update w.sh.sendHalves w.sh.nextSend
      { (default : SendHalf) with id := id, holder := .handoff } }.emit (.handle id w.sh.nextSend)

theorem Origin.allocHandle (h : Origin w) (id : Nat) : Origin (w.allocHandle id) := by
  have h1 := h.face.allocSend { (default : SendHalf) with id := id, holder := .handoff }
    (w.sh.senders + 1) (fun hh => hh.2 rfl) rfl rfl
  have h2 := h1.recordSend (.inl rfl) (Nat.lt_succ_self _)
    (show (Function.update w.sh.sendHalves w.sh.nextSend
      { (default : SendHalf) with id := id, holder := .handoff } w.sh.nextSend).id = id by simp)
  exact h.reface h2 (List.subset_cons_self _ _)
    (fun i s hs => (h.entry i s hs).mono (List.subset_cons_self _ _)) rfl rfl
    fun cmd hm => by simpa [World.allocHandle, World.emit, Face.emit] using hm

theorem Origin.buildSend (h : Origin w) (id : Nat) (retained : Option SendEnd) :
    Origin (w.buildSend id retained).2 := by
  have h3 := h.allocHandle id
  cases retained with
  | some e => exact h3.setSendCell (Nat.lt_succ_self _) e
  | none =>
    exact h3.insertSend (Nat.lt_succ_self _) (by simp [World.allocHandle, World.emit, Face.emit])

theorem Origin.insertRecv (h : Origin w) {id i : Nat} (hi : i < w.sh.nextRecv)
    (hid : (w.sh.recvHalves i).id = id) (hl : (w.sh.recvHalves i).Live) :
    Origin (w.insertRecv id i) := by
  have hd := dropRecvEntry_still w id
  have h1 : Still (w.dropRecvEntry id) { w.dropRecvEntry id with
    reg.recv := (w.dropRecvEntry id).reg.recv.insert id i } := .reg rfl rfl rfl
  have h2 := hd.trans (h1.trans (.modRecv _ i (fun r => { r with txOpen := true }) (fun _ => rfl)
    (fun _ => rfl) fun _ => rfl))
  have h3 := h.still h2
  refine h3.reface (h3.face.recordRecv ?_ ?_ ?_) (List.subset_cons_self _ _)
    (fun j s hs => (h3.entry j s hs).mono (List.subset_cons_self _ _)) rfl rfl
    fun cmd hm => by simpa [World.insertRecv, World.emit, Face.emit] using hm
  · exact h2.face.nextRecv ▸ hi
  · rw [(h2.face.recv i).1, hid]
  · unfold RecvHalf.Live
    rw [(h2.face.recv i).2.1]
    exact hl

theorem Origin.buildRecv (h : Origin w) (id : Nat) : Origin (w.buildRecv id none).2 := by
  have h1 := h.face.allocRecv { (default : RecvHalf) with
    id := id, depth := max w.recvChannelDepth 1, holder := .handoff } (w.sh.senders + 1) rfl rfl
  have h2 : Origin { w with
      sh.nextRecv := w.sh.nextRecv + 1
      sh.senders := w.sh.senders + 1
      sh.recvHalves := Function.update w.sh.recvHalves w.sh.nextRecv
        { (default : RecvHalf) with
          id := id, depth := max w.recvChannelDepth 1, holder := .handoff } } :=
    h.reface h1 (List.Subset.refl _) h.entry rfl rfl fun _ hm => hm
  exact h2.insertRecv (Nat.lt_succ_self _) (by simp) (.inl (by simp))

theorem Origin.enqueueSendOp (h : Origin w) {id : Nat} {op : SendOp}
    (ho : Submitted op.tok id w.trace) : Origin (w.enqueueSendOp id op) := by
  have h1 := h.ensureSend id
  have hsub : w.trace ⊆ (w.ensureSend id).trace := (sendSides.ensureSend w id).grows.subset
  unfold World.enqueueSendOp
  dsimp only
  split
  · exact h1
  · rename_i s hs
    split
    · exact h1.still (completeOp_still _ _ _)
    · refine h1.reface h1.face (List.Subset.refl _) (fun i x hx => ?_) rfl rfl fun _ hm => hm
      change ((w.ensureSend id).reg.send.insert id { s with sendOps := s.sendOps ++ [op] }).lookup i
        = some x at hx
      rw [congrFun (lookup_insert _ _ _) i] at hx
      by_cases hii : i = id
      · subst hii
        rw [Function.update_self] at hx
        cases hx
        refine ⟨(h1.entry i s hs).cell, fun op' ho' => ?_⟩
        rcases List.mem_append.mp ho' with ho' | ho'
        · exact (h1.entry i s hs).ops op' ho'
        · rw [List.mem_singleton.mp ho']
          exact ho.mono hsub
      · rw [Function.update_of_ne hii] at hx
        exact h1.entry i x hx

/-- A command is taken up. -/
theorem Origin.emitApplied (h : Origin w) {cmd : DriverCommand} (hc : CmdOk w.trace cmd) :
    Origin (w.emit (.applied cmd)) where
  face := h.face.recordApplied cmd
  entry i s hs := (h.entry i s hs).mono (List.subset_cons_self _ _)
  cmd c hc' := (h.cmd c hc').mono (List.subset_cons_self _ _)
  applied c hc' := by
    rcases List.mem_cons.mp hc' with hc' | hc'
    · cases hc'
      exact hc.mono (List.subset_cons_self _ _)
    · exact (h.applied c hc').mono (List.subset_cons_self _ _)

theorem Popped.origin {cmd : DriverCommand} (hp : w.Popped cmd w') (h : Origin w) :
    Origin w' ∧ CmdOk w'.trace cmd := by
  cases hp with
  | @inbox rest hi =>
    refine ⟨h.still ⟨.refl _, fun _ s hs => ⟨s, hs, .of_subset rfl (List.Subset.refl _)⟩, ?_⟩,
      h.cmd cmd (.inl (hi ▸ List.mem_cons_self))⟩
    exact fun c hc => hc.imp_left fun hc => hi ▸ List.mem_cons_of_mem _ hc
  | @channel rest h0 hc =>
    refine ⟨h.still ⟨{ Quiet.refl w.toFace with }, fun _ s hs =>
      ⟨s, hs, .of_subset rfl (List.Subset.refl _)⟩, ?_⟩,
      h.cmd cmd (.inr (hc ▸ List.mem_cons_self))⟩
    exact fun c hc' => hc'.imp_right fun hc' => hc ▸ List.mem_cons_of_mem _ hc'

theorem Origin.applyNow (h : Origin w) {cmd : DriverCommand} (hc : CmdOk w.trace cmd) :
    Origin (w.applyNow T cmd) := by
  have h1 := h.emitApplied hc
  cases cmd with
  | send | finish => exact h1.enqueueSendOp ⟨_, List.mem_cons_of_mem _ hc.1, rfl, rfl⟩
  | reset id code => exact h1.ensureSend id
  | stopSending id code =>
    have h2 := h1.still (.emit _ (.streamShutdown id .read code) trivial)
    exact h2.still ((still_frame id).markRecvDone _)
  | connectionDropped => exact h1.still (still_clean.cleanUndeliveredPeerStreams _)
  | _ => exact h1.still (.reg rfl rfl rfl)

/-- The worker submits a command for a stream that has halves. -/
theorem Origin.cmdSend (h : Origin w) (cmd : DriverCommand) (dt : Nat)
    (htok : ∀ t, cmd.tok = some t → t = w.sh.nextTok ∧ dt = 1)
    (hk : ∀ id, cmd.streamId = some id → Known id w.trace) :
    Origin { w with
      toFace := { w.toFace.cmdSend cmd with sh.nextTok := w.sh.nextTok + dt } } := by
  have hf := h.face.submit cmd dt htok
  cases hc : w.sh.cmdRxClosed with
  | true =>
    have he : w.toFace.cmdSend cmd = w.toFace := by simp [Face.cmdSend, hc]
    rw [he] at hf ⊢
    exact h.reface hf (List.Subset.refl _) h.entry rfl rfl fun _ hm => hm
  | false =>
    rw [Face.cmdSend_open _ _ hc] at hf ⊢
    have hsub : w.trace ⊆ .submit cmd :: w.trace := List.subset_cons_self _ _
    refine ⟨hf, fun i s hs => (h.entry i s hs).mono hsub, fun c hc' => ?_, fun c hc' => ?_⟩
    · rcases hc' with hc' | hc'
      · exact (h.cmd c (.inl hc')).mono hsub
      · rcases List.mem_append.mp hc' with hc' | hc'
        · exact (h.cmd c (.inr hc')).mono hsub
        · rw [List.mem_singleton.mp hc']
          exact ⟨List.mem_cons_self, fun id hid => (hk id hid).mono hsub⟩
    · exact (h.applied c (by simpa using hc')).mono hsub

theorem cmdSend_nextTok (f : Face) (cmd : DriverCommand) :
    (f.cmdSend cmd).sh.nextTok = f.sh.nextTok := by
  unfold Face.cmdSend
  split <;> rfl

theorem Origin.dropSender (h : Origin w) : Origin { w with toFace := w.toFace.dropSender } :=
  h.still (.of_face { Quiet.refl w.toFace with } rfl rfl rfl)

theorem Origin.dropSendHandoff (h : Origin w) {c : Nat}
    (hc : .handle (w.sh.sendHalves c).id c ∈ w.trace) :
    Origin { w with toFace := w.toFace.dropSendHandoff c } := by
  have h1 : Origin ((w.modSend c fun s => { s with holder := .gone }).emit (.sendDropped c)) :=
    h.reface (h.face.endSend c) (List.subset_cons_self _ _)
      (fun i s hs => (h.entry i s hs).mono (List.subset_cons_self _ _)) rfl rfl
      fun cmd hm => by simpa [World.emit, World.modSend, Face.emit, Face.modSend] using hm
  have h2 := h1.cmdSend (.finish (w.sh.sendHalves c).id w.sh.nextTok) 1
    (fun t ht => ⟨(Option.some.inj ht).symm, rfl⟩)
    (fun id hid => Option.some.inj hid ▸ .inr (.inl ⟨c, List.mem_cons_of_mem _ hc⟩))
  have h3 := h2.dropSender
  have he : { w with toFace := w.toFace.dropSendHandoff c } =
      ({ w with toFace := Face.dropSender { Face.cmdSend
        ((w.toFace.modSend c fun s => { s with holder := .gone }).emit (.sendDropped c))
        (.finish (w.sh.sendHalves c).id w.sh.nextTok) with
          sh.nextTok := w.sh.nextTok + 1 } } : World σ) := by
    simp only [Face.dropSendHandoff, Face.cmdSendFinish, cmdSend_nextTok]
    rfl
  rw [he]
  exact h3

theorem Origin.dropRecvHandoff (h : Origin w) {i : Nat}
    (hi : .recvOpen (w.sh.recvHalves i).id i ∈ w.trace) :
    Origin { w with toFace := w.toFace.dropRecvHandoff i } := by
  have h1 : Origin ((w.modRecv i fun r => { r with holder := .gone, bytes := [] }).emit
      (.recvDropped i)) :=
    h.reface (h.face.endRecv i) (List.subset_cons_self _ _)
      (fun j s hs => (h.entry j s hs).mono (List.subset_cons_self _ _)) rfl rfl
      fun cmd hm => by simpa [World.emit, World.modRecv, Face.emit, Face.modRecv] using hm
  have h2 := h1.cmdSend (.stopSending (w.sh.recvHalves i).id 0) 0 (fun t ht => by cases ht)
    (fun id hid => Option.some.inj hid ▸ .inl ⟨i, List.mem_cons_of_mem _ hi⟩)
  have h3 := h2.dropSender
  have he : { w with toFace := w.toFace.dropRecvHandoff i } =
      ({ w with toFace := Face.dropSender { Face.cmdSend
        ((w.toFace.modRecv i fun r => { r with holder := .gone, bytes := [] }).emit
          (.recvDropped i)) (.stopSending (w.sh.recvHalves i).id 0) with
          sh.nextTok := w.sh.nextTok + 0 } } : World σ) := by
    simp only [Face.dropRecvHandoff, Face.cmdSend]
    split <;> rfl
  rw [he]
  exact h3

/-! ## 4. Building, delivering and dropping handoffs -/

theorem Origin.buildPeerBidi (h : Origin w) {peer : PeerStream}
    (hp : peer.pendingRecvTerminal = none) : Origin (w.buildPeerBidi peer).2 ∧
      Made peer.id (w.buildPeerBidi peer).2.trace
        (.bidi (w.buildPeerBidi peer).1.1 (w.buildPeerBidi peer).1.2) := by
  simp only [World.buildPeerBidi, hp]
  have h1 := h.buildRecv peer.id
  have h2 := h1.buildSend peer.id peer.pendingSendTerminal
  refine ⟨h2.still (.reg rfl rfl rfl), ?_, buildSend_made _ peer.id _⟩
  exact (sendSides.buildSend (w.buildRecv peer.id none).2 peer.id
    peer.pendingSendTerminal).grows.mem (buildRecv_made w peer.id)

theorem Origin.buildPeerUni (h : Origin w) {peer : PeerStream}
    (hp : peer.pendingRecvTerminal = none) : Origin (w.buildPeerUni peer).2 ∧
      .recvOpen peer.id (w.buildPeerUni peer).1 ∈ (w.buildPeerUni peer).2.trace := by
  simp only [World.buildPeerUni, hp]
  exact ⟨(h.buildRecv peer.id).still (.reg rfl rfl rfl), buildRecv_made w peer.id⟩

theorem Origin.opened (h : Origin w) (bidi : Bool) (rest : List Nat) :
    Origin (w.opened bidi rest).2 := by
  have h1 : Origin (((w.setOpenOf bidi rest).emit
      (.streamPriority (w.nextIdOf bidi) true)).advanceNextId bidi) := by
    have h0 := h.still (.emit w (.streamPriority (w.nextIdOf bidi) true) trivial)
    cases bidi <;> exact h0.still (.reg rfl rfl rfl)
  cases bidi with
  | true => exact (h1.buildRecv _).buildSend _ none
  | false => exact h1.buildSend _ none

/-- The halves of a handoff are referred to under their own ids. -/
theorem Origin.made_bidi (h : Origin w) {id i c : Nat} (hm : Made id w.trace (.bidi i c)) :
    .recvOpen (w.sh.recvHalves i).id i ∈ w.trace ∧
      .handle (w.sh.sendHalves c).id c ∈ w.trace := by
  rw [(h.face.recvMade id i hm.1).2, (h.face.sendMade id c (.inl hm.2)).2]
  exact hm

theorem Origin.pushAcceptBidi (h : Origin w) {id : Nat} {x : Nat × Nat}
    (hm : Made id w.trace (.bidi x.1 x.2)) : Origin (w.pushAcceptBidi id x) := by
  obtain ⟨hr, hs⟩ := h.made_bidi hm
  have hf := h.face.refer { w.sh with acceptBidi := w.sh.acceptBidi ++ [x] } rfl ?_ ?_
  · have h1 : Origin { w with sh.acceptBidi := w.sh.acceptBidi ++ [x] } :=
      h.reface hf (List.Subset.refl _) h.entry rfl rfl fun _ hm => hm
    exact h1.still (.emit _ (.handOver id) trivial)
  · rintro i (hi | hi | ⟨c, hi⟩ | hi | hi)
    · exact .inl (.inl hi)
    · exact .inl (.inr (.inl hi))
    · rcases List.mem_append.mp hi with hi | hi
      · exact .inl (.inr (.inr (.inl ⟨c, hi⟩)))
      · rw [← List.mem_singleton.mp hi] at hr
        exact .inr hr
    · exact .inl (.inr (.inr (.inr (.inl hi))))
    · exact .inl (.inr (.inr (.inr (.inr hi))))
  · rintro c (hc | ⟨i, hc⟩ | hc)
    · exact .inl (.inl hc)
    · rcases List.mem_append.mp hc with hc | hc
      · exact .inl (.inr (.inl ⟨i, hc⟩))
      · rw [← List.mem_singleton.mp hc] at hs
        exact .inr hs
    · exact .inl (.inr (.inr hc))

theorem Origin.pushAcceptUni (h : Origin w) {id i : Nat} (hm : .recvOpen id i ∈ w.trace) :
    Origin (w.pushAcceptUni id i) := by
  have hf := h.face.refer { w.sh with acceptUni := w.sh.acceptUni ++ [i] } rfl ?_
    fun c hc => .inl hc
  · have h1 : Origin { w with sh.acceptUni := w.sh.acceptUni ++ [i] } :=
      h.reface hf (List.Subset.refl _) h.entry rfl rfl fun _ hm => hm
    exact h1.still (.emit _ (.handOver id) trivial)
  · rintro j (hj | hj | hj | hj | hj)
    · exact .inl (.inl hj)
    · exact .inl (.inr (.inl hj))
    · exact .inl (.inr (.inr (.inl hj)))
    · rcases List.mem_append.mp hj with hj | hj
      · exact .inl (.inr (.inr (.inr (.inl hj))))
      · rw [List.mem_singleton.mp hj, (h.face.recvMade id i hm).2]
        exact .inr hm
    · exact .inl (.inr (.inr (.inr (.inr hj))))

theorem Origin.deliver (h : Origin w) {id r : Nat} {ans : Reply} (hm : Made id w.trace ans) :
    Origin (w.setReply r ans) := by
  have hcases : ∀ k x, Function.update w.sh.replies r ans k = x → ans = x ∨ w.sh.replies k = x := by
    intro k x hx
    by_cases hk : k = r
    · rw [hk, Function.update_self] at hx
      exact .inl hx
    · rw [Function.update_of_ne hk] at hx
      exact .inr hx
  have hf := h.face.refer { w.sh with replies := Function.update w.sh.replies r ans } rfl ?_ ?_
  · exact h.reface hf (List.Subset.refl _) h.entry rfl rfl fun _ hm => hm
  · rintro i (hi | hi | hi | hi | ⟨k, c, hi⟩)
    · exact .inl (.inl hi)
    · exact .inl (.inr (.inl hi))
    · exact .inl (.inr (.inr (.inl hi)))
    · exact .inl (.inr (.inr (.inr (.inl hi))))
    · rcases hcases k _ hi with rfl | hi
      · exact .inr (h.made_bidi hm).1
      · exact .inl (.inr (.inr (.inr (.inr ⟨k, c, hi⟩))))
  · rintro c (hc | hc | ⟨k, i, hc⟩ | ⟨k, hc⟩)
    · exact .inl (.inl hc)
    · exact .inl (.inr (.inl hc))
    · rcases hcases k _ hc with rfl | hc
      · exact .inr (h.made_bidi hm).2
      · exact .inl (.inr (.inr (.inl ⟨k, i, hc⟩)))
    · rcases hcases k _ hc with rfl | hc
      · refine .inr ?_
        rw [(h.face.sendMade id c (.inl hm)).2]
        exact hm
      · exact .inl (.inr (.inr (.inr ⟨k, hc⟩)))

theorem dropSendHandoff_recvHalves (f : Face) (c : Nat) :
    (f.dropSendHandoff c).sh.recvHalves = f.sh.recvHalves := by
  unfold Face.dropSendHandoff Face.dropSender Face.cmdSendFinish Face.cmdSend
  dsimp only
  split <;> rfl

theorem dropSendHandoff_subset (f : Face) (c : Nat) :
    f.trace ⊆ (f.dropSendHandoff c).trace := by
  unfold Face.dropSendHandoff Face.dropSender Face.cmdSendFinish Face.cmdSend
  dsimp only
  split
  · exact List.subset_cons_self _ _
  · exact List.Subset.trans (List.subset_cons_self _ _) (List.subset_cons_self _ _)

theorem Origin.dropAnswer (h : Origin w) {id : Nat} {ans : Reply} (hm : Made id w.trace ans) :
    Origin (w.dropAnswer ans) := by
  cases ans with
  | bidi i c =>
    obtain ⟨hr, hs⟩ := h.made_bidi hm
    have h1 := h.dropSendHandoff hs
    refine h1.dropRecvHandoff ?_
    change Event.recvOpen ((w.toFace.dropSendHandoff c).sh.recvHalves i).id i ∈ _
    rw [dropSendHandoff_recvHalves]
    exact dropSendHandoff_subset _ c hr
  | uni c =>
    refine h.dropSendHandoff ?_
    rw [(h.face.sendMade id c (.inl hm)).2]
    exact hm
  | _ => exact h

theorem Origin.undeliver (h : Origin w) {bidi : Bool} {id : Nat} {ans : Reply}
    (hm : Made id w.trace ans) : Origin (w.undeliver bidi id ans) := by
  have h1 := (h.dropAnswer hm).still (dropSendEntry_still _ id)
  have h2 := h1.still (.emit _ (.streamShutdown id .write h3RequestCancelled) trivial)
  cases bidi with
  | true => exact (h2.still (dropRecvEntry_still _ id)).still (.emit _ _ trivial)
  | false => exact h2

/-! ## 5. The steps -/

theorem quiet_of_isProbe (e : Event) (h : e.isProbe) : e.quiet := by
  cases e <;> trivial

/-- **Every step keeps the origins.** -/
theorem origin_step (hs : Step T w w') (hp : PeersOk w.reg) (h : Origin w) : Origin w' := by
  cases hs with
  | front a => exact h.front (Face.front_rel w.toFace a)
  | probe e he => exact h.still (.emit w e (quiet_of_isProbe e he))
  | readable id =>
    have h1 := h.still (.emit w (.readableNext id (w.reg.readTracked id)) trivial)
    refine h1.still (.reg ?_ ?_ ?_) <;> unfold intakeOne Registry.pushPendingAdmit <;>
      (repeat' split) <;> rfl
  | popResume id i rest hpop hr =>
    have h1 : Still w { w with reg.pendingResume := rest } := .reg rfl rfl rfl
    have h2 := h1.trans (.modRecv _ i (fun r => { r with resume := false }) (fun _ => rfl)
      (fun _ => rfl) fun _ => rfl)
    exact h.still (h2.trans (.emit _ (.drain i) trivial))
  | popReadable id i rest hpop hr =>
    have h1 : Still w { w with reg.pendingReadable := rest } := .reg rfl rfl rfl
    exact h.still (h1.trans (.emit _ (.drain i) trivial))
  | drain | capacity | sendErr => exact h.still (.emit w _ trivial)
  | reserve id i hr hg hf =>
    have h1 := Still.modRecv w i (fun r => { r with permit := true }) (fun _ => rfl)
      (fun _ => rfl) fun _ => rfl
    exact h.still (h1.trans (.emit _ (.reserve i) trivial))
  | setBlocked id i b hr hl =>
    exact h.still (.modRecv w i _ (fun _ => rfl) (fun _ => rfl) fun _ => rfl)
  | park id i acts hr hl w1 hw1 hf =>
    subst hw1
    have h1 := h.still (.modRecv w i (fun r => { r with blocked := true }) (fun _ => rfl)
      (fun _ => rfl) fun _ => rfl)
    exact (h1.fronts acts).still (.emit _ (.parkFull i) trivial)
  | readErr id i err hr hpm =>
    have h1 := (Still.emit w (.streamRecv id (.error err)) trivial).trans
      (.modRecv _ i (fun r => { r with permit := false }) (fun _ => rfl) (fun _ => rfl) fun _ =>
        rfl)
    exact h.still (h1.trans (.emit _ (.release i) trivial))
  | readOk id i chunk fin hr hpm =>
    have h1 := Still.emit w (.streamRecv id (.ok (chunk, fin))) trivial
    unfold placeChunk
    split
    · have h2 := h1.trans (.modRecv _ i
        (fun r => { r with bytes := r.bytes ++ [chunk], permit := false }) (fun _ => rfl)
        (fun _ => rfl) fun _ => rfl)
      exact h.still (h2.trans (.emit _ (.place i chunk) trivial))
    · have h2 := h1.trans (.modRecv _ i (fun r => { r with permit := false }) (fun _ => rfl)
        (fun _ => rfl) fun _ => rfl)
      exact h.still (h2.trans (.emit _ (.release i) trivial))
  | recvEnd id i e hr hf =>
    exact h.still ((setRecvCell_still w i e).trans ((still_frame id).markRecvDone _))
  | abandon id i hr hg =>
    exact h.still ((Still.emit w (.streamShutdown id .read h3NoError) trivial).trans
      ((still_frame id).markRecvDone _))
  | stalePending bidi | lostPending bidi | skipParked bidi | skipOpen bidi =>
    cases bidi <;> exact h.still (.reg rfl rfl rfl)
  | admitBidi bidi id peer r acts ht hb =>
    have hreg : r.send = w.reg.send := by cases ht <;> cases bidi <;> rfl
    have h1 : Origin { w with reg := r } := h.still (.reg rfl hreg rfl)
    obtain ⟨h2, hm⟩ := h1.buildPeerBidi (ht.peerOk hp).2
    refine (h2.fronts acts).pushAcceptBidi (hm.mono ?_)
    exact (Face.fronts_rel acts _).grows.subset
  | admitUni bidi id peer r acts ht hb =>
    have hreg : r.send = w.reg.send := by cases ht <;> cases bidi <;> rfl
    have h1 : Origin { w with reg := r } := h.still (.reg rfl hreg rfl)
    obtain ⟨h2, hm⟩ := h1.buildPeerUni (ht.peerOk hp).2
    exact (h2.fronts acts).pushAcceptUni ((Face.fronts_rel acts _).grows.mem hm)
  | repark bidi front id peer r ht =>
    have hreg : r.send = w.reg.send := by cases ht <;> cases bidi <;> rfl
    have h1 : Origin { w with reg := r } := h.still (.reg rfl hreg rfl)
    refine h1.still (.reg rfl ?_ rfl)
    cases bidi <;> rfl
  | tear bidi id peer r ht =>
    have hreg : r.send = w.reg.send := by cases ht <;> cases bidi <;> rfl
    have h1 : Origin { w with reg := r } := h.still (.reg rfl hreg rfl)
    have h2 := h1.still (.emit _ (.streamShutdown peer.id .read h3NoError) trivial)
    unfold noteShutdown
    dsimp only
    split
    · exact h2.still (.emit _ _ trivial)
    · exact h2
  | settle id => exact h.still ((still_frame id).terminalTransition w)
  | acceptFlag bidi b =>
    cases bidi <;> exact h.still (.of_face { Quiet.refl w.toFace with } rfl rfl rfl)
  | failOpen bidi r rest t hq hw =>
    have h1 : Still w (w.setOpenOf bidi rest) := by cases bidi <;> exact .reg rfl rfl rfl
    have h2 : Still (w.setOpenOf bidi rest) ((w.setOpenOf bidi rest).setReply r (.failed t)) := by
      refine .of_face { Quiet.refl _ with replies := fun k => ?_ } rfl rfl rfl
      by_cases hk : k = r
      · exact .inr ⟨t, by simp [World.setReply, Face.setReply, hk]⟩
      · exact .inl (by simp [World.setReply, Face.setReply, hk])
    exact h.still ((h1.trans h2).trans (.emit _ _ trivial))
  | openDeliver bidi r rest acts hq w1 hw1 hw =>
    subst hw1
    have h1 := h.opened bidi rest
    have hm := opened_made w bidi rest
    have h2 := (h1.fronts acts).deliver (r := r)
      (hm.mono (Face.fronts_rel acts _).grows.subset)
    exact h2.still (.emit _ (.answer r none) trivial)
  | openUndeliver bidi r rest acts c hq w1 hw1 hw =>
    subst hw1
    have h1 := h.opened bidi rest
    have hm := opened_made w bidi rest
    have h2 : Origin { (w.opened bidi rest).2.fronts acts with ctl := c } :=
      (h1.fronts acts).still (.reg rfl rfl rfl)
    exact h2.undeliver (hm.mono (Face.fronts_rel acts _).grows.subset)
  | discover id ans hu =>
    have h1 := (Still.emit w (.writableNext id false) trivial).trans
      (.emit _ (.streamCapacity id ans) trivial)
    refine h.still (h1.trans (.reg rfl ?_ rfl))
    unfold discovered Registry.pushPendingAdmit
    dsimp only
    split <;> rfl
  | mergePending id ans | mergeParked id ans =>
    exact h.still ((Still.emit w (.streamCapacity id ans) trivial).trans (.reg rfl rfl rfl))
  | popRunnable id rest hpop hn =>
    have h1 : Still w { w with reg.runnableSend := rest } := .reg rfl rfl rfl
    exact h.still (h1.trans (.emit _ (.turn id) trivial))
  | flush id s buf fin n c hl hh hr hf hn hm =>
    have h1 := Still.emit w (.streamSend id buf.offered (buf.offerFin fin) (.ok n)) trivial
    exact h.still (h1.trans (putSend_still hl.entry (.of_subset rfl (List.Subset.refl _))))
  | flushFin id s buf n t ops c hl hh hr ho hn hm =>
    have h1 := Still.emit w (.streamSend id buf.offered (buf.offerFin true) (.ok n)) trivial
    have hi : Inherits s { s with held := none } := .of_subset rfl (List.Subset.refl _)
    exact h.still ((h1.trans (putSend_still hl.entry hi)).trans (completeFinishOp_still _ id))
  | emptyHeld id s buf hl hh hr =>
    exact h.still (putSend_still hl.entry (.of_subset rfl (List.Subset.refl _)))
  | emptyFin id s buf t ops hl hh hr ho =>
    have hi : Inherits s { s with held := none } := .of_subset rfl (List.Subset.refl _)
    exact h.still ((putSend_still hl.entry hi).trans (completeFinishOp_still _ id))
  | loneFin id s n t ops c hl hh ho hn =>
    exact h.still ((Still.emit w (.streamSend id [] true (.ok n)) trivial).trans
      (completeFinishOp_still _ id))
  | hold id s buf t permit ops hl hh ho hr =>
    have h1 := completeOp_still w (.write buf t permit) (.ok ())
    have hs1 : (w.completeOp (.write buf t permit) (.ok ())).reg.send.lookup id = some s := hl.entry
    exact h.still (h1.trans (putSend_still hs1
      (.of_subset rfl (ho ▸ List.subset_cons_self _ ops))))
  | offer id s buf t permit ops n c hl hh ho hr hn hm =>
    have h1 := Still.emit w (.streamSend id buf.offered false (.ok n)) trivial
    refine h.still (h1.trans (putSend_still hl.entry ⟨rfl, fun op hop => ?_⟩))
    rcases List.mem_cons.mp hop with rfl | hop
    · exact ⟨.write buf t permit, ho ▸ List.mem_cons_self, rfl⟩
    · exact ⟨op, ho ▸ List.mem_cons_of_mem _ hop, rfl⟩
  | accept id s buf t permit ops n c hl hh ho hr hn hm =>
    have h1 := Still.emit w (.streamSend id buf.offered false (.ok n)) trivial
    have hi : Inherits s { s with sendOps := ops } :=
      .of_subset rfl (ho ▸ List.subset_cons_self _ ops)
    exact h.still ((h1.trans (putSend_still hl.entry hi)).trans (completeOp_still _ _ _))
  | skipWrite id s buf t permit ops hl hh ho hr =>
    have hi : Inherits s { s with sendOps := ops } :=
      .of_subset rfl (ho ▸ List.subset_cons_self _ ops)
    exact h.still ((putSend_still hl.entry hi).trans (completeOp_still _ _ _))
  | sendEnd id s e hl => exact h.sendTerminalTransition id e
  | resetTurn id code s rest hq hs hpr =>
    have h0 : Still w { w with reg.runnableSend := rest } := .reg rfl rfl rfl
    have h1 := h0.trans (.emit _ (.turn id) trivial)
    have hs1 : ({ w with reg.runnableSend := rest }.emit (.turn id)).reg.send.lookup id =
      some s := hs
    have hi : Inherits s { s with pendingReset := none } := .of_subset rfl (List.Subset.refl _)
    have h2 := (h1.trans (putSend_still hs1 hi)).trans
      (.emit _ (.streamShutdown id .write code) trivial)
    exact h.still (h2.trans ((still_frame id).markSendDone _))
  | apply w1 cmd hpop =>
    obtain ⟨h1, hc⟩ := hpop.origin h
    exact h1.applyNow hc
  | resetEntry id code ha => exact h.resetEntry id code
  | toInbox cmd rest hc =>
    refine h.still ⟨{ Quiet.refl w.toFace with }, fun _ s hs =>
      ⟨s, hs, .of_subset rfl (List.Subset.refl _)⟩, fun c hc' => ?_⟩
    rcases hc' with hc' | hc'
    · rcases List.mem_append.mp hc' with hc' | hc'
      · exact .inl hc'
      · exact .inr (by rw [List.mem_singleton.mp hc', hc]; exact List.mem_cons_self)
    · exact .inr (hc ▸ List.mem_cons_of_mem _ hc')
  | _ => exact h.still (.reg rfl rfl rfl)

end World

end QuicheH3
