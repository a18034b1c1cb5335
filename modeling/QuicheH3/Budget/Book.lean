/-
# The account of send operations

Every `Send` and every `Finish` carries a completion, and a `Send` also the permit for its bytes.
From its submission on, an operation is in exactly one place: the command channel, the inbox, the
operation queue of its stream, or the hands of the function that is about to complete it.  Where
it is completed or dropped, its permit is dropped with it.

`World.book` reads the driver as an account in the sense of `Lib/Outstanding.lean`: operations by
the number of their completion and the size of their permit, the resident bytes as the load, and
the history as the record.  This module is the dictionary: what each function that touches an
operation does to the account.  `F` are the operations in hand.
-/
import Mathlib.Data.List.Sigma
import QuicheH3.Lib.Outstanding
import QuicheH3.Driver.Sides
import QuicheH3.Life.Origin

namespace QuicheH3

open Lib

/-! ## 1. Operations as obligations -/

/-- The completion of a command and the size of its permit. -/
def DriverCommand.completion : DriverCommand → Option (ℕ × ℕ)
  | .send _ _ t permit => some (t, permit.getD 0)
  | .finish _ t => some (t, 0)
  | _ => none

def SendOp.completion : SendOp → ℕ × ℕ
  | .write _ t permit => (t, permit.getD 0)
  | .finish t => (t, 0)

/-- What an event is to the account. -/
def Event.deal : Event → Option Deal
  | .submit cmd => cmd.completion.map fun x => .opened x.1 x.2
  | .resolve t _ | .cancel t => some (.settled t)
  | _ => none

def deals (tr : List Event) : List Deal := tr.filterMap Event.deal

/-- Events that concern no operation. -/
def Event.idle : Event → Prop
  | .submit _ | .resolve _ _ | .cancel _ => False
  | _ => True

theorem blind_deals : Blind Event.idle deals := by
  intro e tr he
  cases e with
  | submit | resolve | cancel => exact he.elim
  | _ => rfl

/-- A write reserves its own size. -/
def Sized (tr : List Event) : Prop :=
  ∀ id buf t permit, .submit (.send id buf t permit) ∈ tr → permit = some buf.remaining

theorem Sized.grows {tr tr' : List Event} (h : Sized tr) (hg : Grows Event.idle tr tr') :
    Sized tr' := fun id buf t permit hm => h id buf t permit (hg.old hm fun h => h)

theorem Sized.cons {tr : List Event} (h : Sized tr) {e : Event}
    (he : ∀ id buf t permit, e = .submit (.send id buf t permit) → permit = some buf.remaining) :
    Sized (e :: tr) := by
  intro id buf t permit hm
  rcases List.mem_cons.mp hm with hm | hm
  · exact he id buf t permit hm.symm
  · exact h id buf t permit hm

/-- The operations of a list of commands. -/
def completions (cs : List DriverCommand) : Multiset (ℕ × ℕ) :=
  ↑(cs.filterMap DriverCommand.completion)

@[simp] theorem completions_nil : completions [] = 0 := rfl

theorem completions_cons_some {cmd : DriverCommand} {x : ℕ × ℕ} (hx : cmd.completion = some x)
    (cs : List DriverCommand) : completions (cmd :: cs) = x ::ₘ completions cs := by
  simp [completions, List.filterMap_cons_some hx]

theorem completions_cons_none {cmd : DriverCommand} (hx : cmd.completion = none)
    (cs : List DriverCommand) : completions (cmd :: cs) = completions cs := by
  simp [completions, List.filterMap_cons_none hx]

theorem completions_append (cs cs' : List DriverCommand) :
    completions (cs ++ cs') = completions cs + completions cs' := by
  simp [completions, List.filterMap_append]

def opsOf (ops : List SendOp) : Multiset (ℕ × ℕ) := ↑(ops.map SendOp.completion)

@[simp] theorem opsOf_nil : opsOf [] = 0 := rfl

@[simp] theorem opsOf_cons (op : SendOp) (ops : List SendOp) :
    opsOf (op :: ops) = op.completion ::ₘ opsOf ops := rfl

theorem opsOf_append (ops ops' : List SendOp) : opsOf (ops ++ ops') = opsOf ops + opsOf ops' := by
  simp [opsOf]

/-- The operations queued over all streams. -/
def opsIn (m : Map StreamSendState) : Multiset (ℕ × ℕ) :=
  (m.entries.map fun x => opsOf x.2.sendOps).sum

theorem opsIn_insert (m : Map StreamSendState) (id : Nat) (s : StreamSendState) :
    opsIn (m.insert id s) = opsOf s.sendOps + opsIn (m.erase id) := rfl

theorem opsIn_of_lookup {m : Map StreamSendState} {id : Nat} {s : StreamSendState}
    (hs : m.lookup id = some s) : opsIn m = opsOf s.sendOps + opsIn (m.erase id) := by
  have hmem : (⟨id, s⟩ : Sigma fun _ : ℕ => StreamSendState) ∈ m.entries :=
    AList.mem_lookup_iff.mp hs
  obtain ⟨s', l1, l2, -, he, hk⟩ := List.exists_of_kerase (List.mem_keys_of_mem hmem)
  have hs' : s' = s := by
    have hm' : (⟨id, s'⟩ : Sigma fun _ : ℕ => StreamSendState) ∈ m.entries := by simp [he]
    exact Option.some.inj ((AList.mem_lookup_iff.mpr hm').symm.trans hs)
  have hke : (m.erase id).entries = l1 ++ l2 := hk
  unfold opsIn
  rw [he, hke, hs']
  simp only [List.map_append, List.map_cons, List.sum_append, List.sum_cons]
  exact add_left_comm _ _ _

theorem opsIn_erase_of_none {m : Map StreamSendState} {id : Nat} (hs : m.lookup id = none) :
    opsIn (m.erase id) = opsIn m := by
  have hk : id ∉ m.entries.keys := AList.lookup_eq_none.mp hs
  unfold opsIn
  change ((m.entries.kerase id).map _).sum = _
  rw [List.kerase_of_notMem_keys hk]

/-! ## 2. The front end -/

/-- What `try_reserve` admits. -/
def budgetRule (cap : Option ℕ) (load n : ℕ) : Prop := ∀ c, cap = some c → Book.capRule c load n

theorem budgetRule_zero (cap : Option ℕ) (load : ℕ) : budgetRule cap load 0 := fun _ _ => .inl rfl

theorem budgetRule_of_tryReserve {cap : Option ℕ} {load n next : ℕ}
    (h : tryReserve cap load n = some next) : budgetRule cap load n := by
  rintro c rfl
  unfold tryReserve at h
  dsimp only at h
  unfold Book.capRule
  split at h
  · cases h
  · split at h
    · cases h
    · omega

namespace Face

variable {f f' f'' : Face}

/-- The account, with `P` for what is not on the face. -/
def book (f : Face) (P : Multiset (ℕ × ℕ)) : Book :=
  ⟨completions f.sh.cmdRx + P, f.sh.resident, f.sh.nextTok, deals f.trace⟩

/-- What happened on the face are entries of the account. -/
structure Books (f f' : Face) : Prop where
  cap : f'.sh.cap = f.sh.cap
  sized : Sized f.trace → Sized f'.trace
  moves : ∀ P, Book.Moves (budgetRule f.sh.cap) (f.book P) (f'.book P)

namespace Books

theorem trans (h : Books f f') (h' : Books f' f'') : Books f f'' where
  cap := h'.cap.trans h.cap
  sized := h'.sized ∘ h.sized
  moves P := by
    have h1 := h'.moves P
    rw [h.cap] at h1
    exact (h.moves P).trans h1

theorem quiet (hc : f'.sh.cap = f.sh.cap) (hq : f'.sh.cmdRx = f.sh.cmdRx)
    (hr : f'.sh.resident = f.sh.resident) (hn : f'.sh.nextTok = f.sh.nextTok)
    (ht : Grows Event.idle f.trace f'.trace) : Books f f' where
  cap := hc
  sized h := h.grows ht
  moves P := by
    have h : f'.book P = f.book P := by
      unfold book
      rw [hq, hr, hn, blind_deals.grows ht]
    rw [h]

theorem refl (f : Face) : Books f f := .quiet rfl rfl rfl rfl (.refl _ _)

theorem ite {p : Prop} [Decidable p] {x y : Face} (hx : Books f x) (hy : Books f y) :
    Books f (if p then x else y) := by
  split
  · exact hx
  · exact hy

theorem modRecv (f : Face) (h : Nat) (g : RecvHalf → RecvHalf) : Books f (f.modRecv h g) :=
  .quiet rfl rfl rfl rfl (.refl _ _)

theorem modSend (f : Face) (c : Nat) (g : SendHalf → SendHalf) : Books f (f.modSend c g) :=
  .quiet rfl rfl rfl rfl (.refl _ _)

theorem setReply (f : Face) (r : Nat) (x : Reply) : Books f (f.setReply r x) :=
  .quiet rfl rfl rfl rfl (.refl _ _)

theorem dropSender (f : Face) : Books f f.dropSender := .quiet rfl rfl rfl rfl (.refl _ _)

theorem emit (f : Face) (e : Event) (he : e.idle) : Books f (f.emit e) :=
  .quiet rfl rfl rfl rfl (.one he)

/-- A command without a completion. -/
theorem cmdSend (f : Face) {cmd : DriverCommand} (hx : cmd.completion = none) :
    Books f (f.cmdSend cmd) := by
  unfold Face.cmdSend
  split
  · exact refl f
  · refine ⟨rfl, fun h => h.cons ?_, fun P => ?_⟩
    · rintro id buf t permit he
      cases he
      cases hx
    · have h : Face.book { f with
          sh.cmdRx := f.sh.cmdRx ++ [cmd], trace := .submit cmd :: f.trace } P = f.book P := by
        have hd : deals (.submit cmd :: f.trace) = deals f.trace :=
          List.filterMap_cons_none (by simp [Event.deal, hx])
        simp [book, completions_append, completions_cons_none hx, hd]
      rw [h]

/-- A command with a fresh completion enters the open channel. -/
theorem opened (f : Face) {cmd : DriverCommand} {n : ℕ}
    (hx : cmd.completion = some (f.sh.nextTok, n))
    (hn : budgetRule f.sh.cap f.sh.resident n)
    (hsize : ∀ id buf t permit, cmd = .send id buf t permit → permit = some buf.remaining) :
    Books f { f with
      sh := { f.sh with
        cmdRx := f.sh.cmdRx ++ [cmd], nextTok := f.sh.nextTok + 1, resident := f.sh.resident + n }
      trace := .submit cmd :: f.trace } := by
  refine ⟨rfl, fun h => h.cons ?_, fun P => .single ?_⟩
  · rintro id buf t permit he
    cases he
    exact hsize id buf t permit rfl
  · have hd : deals (.submit cmd :: f.trace) = .opened f.sh.nextTok n :: deals f.trace :=
      List.filterMap_cons_some (by simp [Event.deal, hx])
    have hp : completions (f.sh.cmdRx ++ [cmd]) + P =
        (f.sh.nextTok, n) ::ₘ (completions f.sh.cmdRx + P) := by
      rw [completions_append, completions_cons_some hx, completions_nil, Multiset.add_cons,
        add_zero, Multiset.cons_add]
    unfold book
    dsimp only
    rw [hp, hd]
    exact .opened n hn

theorem cmdSendFinish (f : Face) (id : Nat) : Books f (f.cmdSendFinish id) := by
  unfold Face.cmdSendFinish Face.cmdSend
  split
  · exact ⟨rfl, fun h => h, fun P => .single (.skip (f.sh.nextTok + 1) (Nat.le_succ _))⟩
  · refine opened f (n := 0) rfl (budgetRule_zero _ _) ?_
    rintro _ _ _ _ ⟨⟩

theorem dropSendHandoff (f : Face) (c : Nat) : Books f (f.dropSendHandoff c) := by
  have h1 := (modSend f c fun s => { s with holder := .gone }).trans
    (emit _ (.sendDropped c) trivial)
  exact h1.trans ((cmdSendFinish _ _).trans (dropSender _))

theorem dropRecvHandoff (f : Face) (h : Nat) : Books f (f.dropRecvHandoff h) := by
  have h1 := (modRecv f h fun r => { r with holder := .gone, bytes := [] }).trans
    (emit _ (.recvDropped h) trivial)
  exact h1.trans ((cmdSend _ rfl).trans (dropSender _))

theorem dropBidiHandoff (f : Face) (x : Nat × Nat) : Books f (f.dropBidiHandoff x) :=
  (dropSendHandoff f x.2).trans (dropRecvHandoff _ x.1)

theorem foldl {α : Type} (g : Face → α → Face) (hg : ∀ f x, Books f (g f x)) :
    ∀ (l : List α) (f : Face), Books f (l.foldl g f)
  | [], f => refl f
  | x :: l, f => (hg f x).trans (foldl g hg l (g f x))

/-- The flush of `poll_ready`: refused, turned away by the closed channel, or admitted. -/
theorem sendData (f : Face) (c : Nat) (buf : WriteBuf) : Books f (f.sendData c buf) := by
  unfold Face.sendData
  refine ite ?_ (refl f)
  split
  · exact refl f
  · rename_i next hr
    unfold tryReserveBytes at hr
    split
    · exact emit f _ trivial
    · rename_i hopen
      rw [cmdSend_open _ _ (by simpa using hopen)]
      have hx : (DriverCommand.send (f.sh.sendHalves c).id buf f.sh.nextTok
          (some buf.remaining)).completion = some (f.sh.nextTok, buf.remaining) := rfl
      have h := opened f hx (budgetRule_of_tryReserve hr) (by rintro _ _ _ _ ⟨⟩; rfl)
      rw [← tryReserve_eq_some hr] at h
      exact h

theorem sendFinish (f : Face) (c : Nat) : Books f (f.sendFinish c) := by
  unfold Face.sendFinish
  refine ite ?_ (refl f)
  have h1 := modSend f c fun s => { s with finalized := true }
  exact ite (h1.trans (emit _ _ trivial)) (h1.trans (cmdSendFinish _ _))

theorem sendDrop (f : Face) (c : Nat) : Books f (f.sendDrop c) := by
  unfold Face.sendDrop
  refine ite (ite ?_ ?_) (refl f)
  · exact (modSend f c _).trans ((emit _ (.sendDropped c) trivial).trans (dropSender _))
  · exact (modSend f c _).trans (emit _ (.sendDropped c) trivial)

theorem recvDrop (f : Face) (h : Nat) : Books f (f.recvDrop h) := by
  unfold Face.recvDrop
  refine ite (ite ?_ ?_) (refl f)
  · exact (modRecv f h _).trans (emit _ (.recvDropped h) trivial)
  · exact (modRecv f h _).trans (emit _ (.recvDropped h) trivial)

theorem openSend (f : Face) {cmd : Nat → DriverCommand} (hx : ∀ r, (cmd r).completion = none) :
    Books f (f.openSend cmd) := by
  unfold Face.openSend
  refine ite (ite (emit f _ trivial) ?_) (refl f)
  have h1 := (setReply f f.sh.nextReply .waiting).trans (cmdSend _ (hx f.sh.nextReply))
  exact h1.trans (.quiet rfl rfl rfl rfl (.refl _ _))

theorem takeReply (f : Face) (r : Nat) : Books f (f.takeReply r) := by
  unfold Face.takeReply
  split <;> exact .quiet rfl rfl rfl rfl (.refl _ _)

theorem dropReply (f : Face) (r : Nat) : Books f (f.dropReply r) := by
  unfold Face.dropReply
  split
  · exact setReply f r _
  · exact (dropBidiHandoff f _).trans (setReply _ r _)
  · exact (dropSendHandoff f _).trans (setReply _ r _)
  · exact setReply f r _
  · exact refl f

theorem accept (f : Face) : Books f f.acceptBidi ∧ Books f f.acceptUni := by
  constructor
  · unfold Face.acceptBidi
    refine ite ?_ (refl f)
    split <;> exact .quiet rfl rfl rfl rfl (.refl _ _)
  · unfold Face.acceptUni
    refine ite ?_ (refl f)
    split <;> exact .quiet rfl rfl rfl rfl (.refl _ _)

theorem signalled (f f' : Face) (h : Books f f') {cmd : DriverCommand}
    (hx : cmd.completion = none) : Books f (f'.cmdSend cmd) := h.trans (cmdSend f' hx)

/-- **Every front-end action is an entry of the account, or none.** -/
theorem front (f : Face) (a : FrontAct) : Books f (f.front a) := by
  cases a with
  | recvDequeue h | recvSwapBlocked h | recvSwapResume h | recvSeeTerminal h =>
    exact ite (modRecv f h _) (refl f)
  | recvSendResume h | recvStopSending h | recvDropStop h =>
    exact ite ((modRecv f h _).trans (cmdSend _ rfl)) (refl f)
  | recvDrop h => exact recvDrop f h
  | recvDropClose h => exact ite ((modRecv f h _).trans (dropSender _)) (refl f)
  | sendData c buf => exact sendData f c buf
  | sendFinish c => exact sendFinish f c
  | sendFinishSeen c => exact ite (modSend f c _) (refl f)
  | sendReset c code => exact ite ((modSend f c _).trans (cmdSend _ rfl)) (refl f)
  | sendDrop c => exact sendDrop f c
  | sendDropFinish c =>
    exact ite ((modSend f c _).trans ((cmdSendFinish _ _).trans (dropSender _))) (refl f)
  | acceptBidi => exact (accept f).1
  | acceptBidiSignal =>
    exact ite (signalled f { f with sh.acceptBidiPc := .idle } (.quiet rfl rfl rfl rfl (.refl _ _))
      rfl)
      (refl f)
  | acceptUni => exact (accept f).2
  | acceptUniSignal =>
    exact ite (signalled f { f with sh.acceptUniPc := .idle } (.quiet rfl rfl rfl rfl (.refl _ _))
      rfl)
      (refl f)
  | openBidi | openUni => exact openSend f fun _ => rfl
  | takeReply r => exact takeReply f r
  | dropReply r => exact dropReply f r
  | close code reason => exact ite (cmdSend f rfl) (refl f)
  | dropConnection =>
    exact ite (signalled f { f with sh.connStage := .dropping } (.quiet rfl rfl rfl rfl (.refl _ _))
      rfl)
      (refl f)
  | closeAcceptBidi =>
    exact ite ((foldl _ dropBidiHandoff f.sh.acceptBidi f).trans
      (.quiet rfl rfl rfl rfl (.refl _ _))) (refl f)
  | closeAcceptUni =>
    exact ite ((foldl _ dropRecvHandoff f.sh.acceptUni f).trans
      (.quiet rfl rfl rfl rfl (.refl _ _))) (refl f)
  | _ => exact ite (.quiet rfl rfl rfl rfl (.refl _ _)) (refl f)

theorem fronts (acts : List FrontAct) (f : Face) : Books f (acts.foldl Face.front f) :=
  foldl _ front acts f

end Books

end Face

end QuicheH3
