/-
# The send-byte budget is conserved

`resident` counts the bytes of the writes whose permit is alive.  The account of `Lib.Outstanding`
says what that means for a counter that is raised and lowered in places far apart; `runs keep it`
was shown step by step.  Here the invariant is read back in the words of the connection: which
writes are alive, what they reserved, what the counter is, how far it can go, and that the close
leaves nothing behind.

Contents
* §1  what is alive, and `Accounted`
* §2  the close leaves nothing queued
* §3  the theorem
-/
import QuicheH3.Budget.Refine

namespace QuicheH3

open Lib

namespace World

variable {σ : Type} {T : QuicConn σ} {w w' : World σ}

/-! ## 1. What is alive -/

/-- The operations not settled yet with the size of their permits: in the command channel, in
the inbox and in the operation queues of the streams. -/
def alive (w : World σ) : Multiset (ℕ × ℕ) :=
  completions w.sh.cmdRx + completions w.inbox + opsIn w.reg.send

theorem book_pending (w : World σ) : (w.book 0).pending = w.alive := by
  simp [book, Face.book, alive, add_assoc]

/-- A write admitted while no byte was resident. -/
def AdmittedAlone (tr : List Event) (n : ℕ) : Prop :=
  ∃ post pre id buf t, tr = post ++ .submit (.send id buf t (some n)) :: pre ∧
    buf.remaining = n ∧ replay (deals pre) = 0

/-- The state of the budget `cap` in `w`. -/
structure Accounted (cap : Option ℕ) (w : World σ) : Prop where
  -- the counter is the total of what is alive
  resident : w.sh.resident = (w.alive.map Prod.snd).sum
  -- what is alive keeps the size of the write as it was submitted; a Finish has none
  original : ∀ x ∈ w.alive,
    (∃ id buf, .submit (.send id buf x.1 (some x.2)) ∈ w.trace ∧ buf.remaining = x.2) ∨
    (x.2 = 0 ∧ ∃ id, .submit (.finish id x.1) ∈ w.trace)
  -- the counter at every earlier moment, and no release exceeded it
  replayed : w.sh.resident = replay (deals w.trace)
  lawful : Always (Lawful (budgetRule cap)) (deals w.trace)
  bounded : ∀ c, cap = some c → ∃ n, (n = 0 ∨ AdmittedAlone w.trace n) ∧
    w.sh.resident ≤ max c n ∧ w.sh.resident ≤ c + n
  -- everything settled leaves nothing resident
  settled : (∀ id buf t permit, .submit (.send id buf t permit) ∈ w.trace →
    (∃ res, .resolve t res ∈ w.trace) ∨ .cancel t ∈ w.trace) → w.sh.resident = 0

theorem mem_deals_opened {tr : List Event} {t n : ℕ} (h : .opened t n ∈ deals tr) :
    (∃ id buf permit, .submit (.send id buf t permit) ∈ tr ∧ permit.getD 0 = n) ∨
    (n = 0 ∧ ∃ id, .submit (.finish id t) ∈ tr) := by
  obtain ⟨e, he, hd⟩ := List.mem_filterMap.mp h
  cases e with
  | submit cmd =>
    cases cmd with
    | send id buf t' permit =>
      cases hd
      exact .inl ⟨id, buf, permit, he, rfl⟩
    | finish id t' =>
      cases hd
      exact .inr ⟨rfl, id, he⟩
    | _ => cases hd
  | _ => cases hd

theorem settled_mem_deals {tr : List Event} {t : ℕ}
    (h : (∃ res, .resolve t res ∈ tr) ∨ .cancel t ∈ tr) : .settled t ∈ deals tr := by
  rcases h with ⟨res, h⟩ | h
  · exact List.mem_filterMap.mpr ⟨_, h, rfl⟩
  · exact List.mem_filterMap.mpr ⟨_, h, rfl⟩

/-- A split of the record is a split of the history. -/
theorem deals_split {tr : List Event} {post pre : List Deal} {d : Deal}
    (h : deals tr = post ++ d :: pre) :
    ∃ post' e pre', tr = post' ++ e :: pre' ∧ e.deal = some d ∧ deals pre' = pre := by
  induction tr generalizing post with
  | nil =>
    exact absurd h (by simp [deals])
  | cons e tr ih =>
    cases hd : e.deal with
    | none =>
      rw [deals, List.filterMap_cons_none hd] at h
      obtain ⟨post', e', pre', rfl, he, hp⟩ := ih h
      exact ⟨e :: post', e', pre', rfl, he, hp⟩
    | some d' =>
      rw [deals, List.filterMap_cons_some hd] at h
      cases post with
      | nil =>
        obtain ⟨rfl, rfl⟩ := List.cons.inj h
        exact ⟨[], e, tr, rfl, hd, rfl⟩
      | cons d0 post =>
        obtain ⟨post', e', pre', rfl, he, hp⟩ := ih (List.cons.inj h).2
        exact ⟨e :: post', e', pre', rfl, he, hp⟩

theorem admittedAlone_of_opened {tr : List Event} {t n : ℕ} {post pre : List Deal}
    (hsized : Sized tr) (hd : deals tr = post ++ .opened t n :: pre) (hz : replay pre = 0) :
    n = 0 ∨ AdmittedAlone tr n := by
  obtain ⟨post', e, pre', rfl, he, rfl⟩ := deals_split hd
  cases e with
  | submit cmd =>
    cases cmd with
    | send id buf t' permit =>
      have hp : permit = some buf.remaining := hsized id buf t' permit (by simp)
      subst hp
      cases he
      exact .inr ⟨post', pre', id, buf, t', rfl, rfl, hz⟩
    | finish id t' =>
      cases he
      exact .inl rfl
    | _ => cases he
  | _ => cases he

/-- The invariants of the account, read as statements about the connection. -/
theorem Accounted.of_book {cap : Option ℕ} (hsized : Sized w.trace)
    (hi : (w.book 0).Inv (budgetRule cap))
    (hb : ∀ c, cap = some c → (w.book 0).Bounded c) : Accounted cap w where
  resident := by
    rw [← book_pending]
    exact hi.total
  original x hx := by
    rw [← book_pending] at hx
    rcases mem_deals_opened (hi.open_mem x hx) with ⟨id, buf, permit, hm, hn⟩ | ⟨hn, id, hm⟩
    · have hp := hsized id buf x.1 permit hm
      subst hp
      have hn' : buf.remaining = x.2 := hn
      exact .inl ⟨id, buf, by rwa [← hn'], hn'⟩
    · exact .inr ⟨hn, id, hm⟩
  replayed := hi.replay
  lawful := hi.lawful
  bounded c hc := by
    rcases hb c hc with h | ⟨t, n, -, hl, post, pre, hd, hz⟩
    · exact ⟨0, .inl rfl, h.trans (le_max_left c 0), h⟩
    · have hle : w.sh.resident ≤ n := le_of_eq hl
      exact ⟨n, admittedAlone_of_opened hsized hd hz, hle.trans (le_max_right c n),
        hle.trans (Nat.le_add_left n c)⟩
  settled hall := by
    -- an operation still alive would be a Finish, which has no size
    have h0 : ∀ x ∈ (w.book 0).pending, x.2 = 0 := by
      intro x hx
      have hm := hi.open_mem x hx
      rcases mem_deals_opened hm with ⟨id, buf, permit, hm', -⟩ | ⟨hn, -⟩
      · have hs := settled_mem_deals (hall id buf x.1 permit hm')
        have h1 := hi.once _ _ hm
        have h2 : 0 < (w.book 0).deals.count (.settled x.1) := List.count_pos_iff.mpr hs
        have h3 : 0 < ((w.book 0).pending.map Prod.fst).count x.1 :=
          Multiset.count_pos.mpr (Multiset.mem_map_of_mem _ hx)
        omega
      · exact hn
    have ht : (w.book 0).load = 0 := by
      rw [hi.total]
      refine Multiset.sum_eq_zero fun n hn => ?_
      obtain ⟨x, hx, rfl⟩ := Multiset.mem_map.mp hn
      exact h0 x hx
    exact ht

/-! ## 2. The close leaves nothing queued -/

/-- Nothing is queued and nothing can be. -/
structure Drained (w : World σ) : Prop where
  closed : w.sh.cmdRxClosed = true
  channel : w.sh.cmdRx = []
  inbox : w.inbox = []
  ops : opsIn w.reg.send = 0

theorem Drained.alive (h : Drained w) : w.alive = 0 := by
  unfold World.alive
  rw [h.channel, h.inbox, h.ops]
  rfl

theorem Drained.fronts (h : Drained w) (acts : List FrontAct) : Drained (w.fronts acts) := by
  have hr := Face.fronts_rel acts w.toFace
  obtain ⟨cs, hcs⟩ := hr.appends
  refine ⟨hr.closed.trans h.closed, ?_, h.inbox, h.ops⟩
  change (acts.foldl Face.front w.toFace).sh.cmdRx = []
  rw [hcs.queue, hcs.closed h.closed, h.channel]
  rfl

theorem Drained.completeOp (h : Drained w) (op : SendOp) (res : Except SendEnd Unit) :
    Drained (w.completeOp op res) := by
  cases op <;> exact ⟨h.closed, h.channel, h.inbox, h.ops⟩

theorem Drained.replyErr (h : Drained w) (r : Nat) (t : ConnTerminal) :
    Drained (w.replyErr r t) := by
  have h1 : Drained w.interleave := ⟨(h.fronts _).closed, (h.fronts _).channel, h.inbox, h.ops⟩
  unfold World.replyErr
  dsimp only
  split
  · exact ⟨h1.closed, h1.channel, h1.inbox, h1.ops⟩
  · exact h1

theorem Drained.foldl {α : Type} (g : World σ → α → World σ)
    (hg : ∀ w x, Drained w → Drained (g w x)) (l : List α) {w : World σ} (h : Drained w) :
    Drained (l.foldl g w) := by
  induction l generalizing w with
  | nil => exact h
  | cons x l ih => exact ih (hg w x h)

theorem completeCommandOnClose_drained (t : ConnTerminal) (w : World σ) (cmd : DriverCommand)
    (h : Drained w) : Drained (completeCommandOnClose t w cmd) := by
  cases cmd with
  | send id buf done permit => exact h.completeOp (.write buf done permit) _
  | finish id done => exact h.completeOp (.finish done) _
  | openBidi r | openUni r => exact h.replyErr r t
  | _ => exact h

theorem opsIn_eq_zero {m : Map StreamSendState}
    (h : ∀ id s, m.lookup id = some s → s.sendOps = []) : opsIn m = 0 := by
  refine List.sum_eq_zero fun x hx => ?_
  obtain ⟨⟨id, s⟩, hs, rfl⟩ := List.mem_map.mp hx
  dsimp only
  rw [h id s (AList.mem_lookup_iff.mpr hs), opsOf_nil]

/-- An entry that still has operations was not visited. -/
theorem closeSendEntries_ops (t : ConnTerminal) (ids : List Nat) (x : World σ × List SendOp)
    {id : Nat} {s : StreamSendState}
    (hs : (ids.foldl (closeSendEntry t) x).1.reg.send.lookup id = some s) :
    s.sendOps = [] ∨ (id ∉ ids ∧ x.1.reg.send.lookup id = some s) := by
  induction ids generalizing x with
  | nil => exact .inr ⟨List.not_mem_nil, hs⟩
  | cons i ids ih =>
    rcases ih _ hs with h | ⟨hn, h⟩
    · exact .inl h
    · unfold closeSendEntry at h
      dsimp only at h
      split at h
      · rename_i hi
        have hne : id ≠ i := by
          rintro rfl
          exact absurd (h.symm.trans hi) (by simp)
        exact .inr ⟨by simp [hne, hn], h⟩
      · rename_i s0 hi
        have hsend : (x.1.interleave.setSendCell s0.status (.conn t)).reg.send = x.1.reg.send :=
          (FaceOnly.setSendCell _ _ _).send
        unfold putSend at h
        dsimp only at h
        by_cases he : id = i
        · subst he
          rw [AList.lookup_insert] at h
          cases h
          exact .inl rfl
        · rw [AList.lookup_insert_ne he, hsend] at h
          exact .inr ⟨by simp [he, hn], h⟩

theorem completeOps_send (w : World σ) (ops : List SendOp) (res : Except SendEnd Unit) :
    (w.completeOps ops res).reg.send = w.reg.send := by
  unfold completeOps
  induction ops generalizing w with
  | nil => rfl
  | cons op ops ih =>
    refine (ih _).trans ?_
    cases op <;> rfl

theorem publishSends_ops (w : World σ) (t : ConnTerminal) :
    opsIn (w.publishSends t).reg.send = 0 := by
  refine opsIn_eq_zero fun id s hs => ?_
  unfold publishSends at hs
  dsimp only at hs
  rw [completeOps_send] at hs
  rcases closeSendEntries_ops t _ _ hs with h | ⟨hn, h⟩
  · exact h
  · exact absurd (AList.mem_keys.mpr (AList.lookup_isSome.mp (by rw [h]; rfl))) hn

theorem closeIngress_drained (t : ConnTerminal) (h : opsIn w.reg.send = 0) :
    Drained (w.closeIngress t) := by
  unfold closeIngress
  dsimp only
  exact Drained.foldl _ (completeCommandOnClose_drained t) _ ⟨rfl, rfl, rfl, h⟩

theorem doOnConnClose_drained (T : QuicConn σ) (w : World σ) : Drained (w.doOnConnClose T) := by
  have h1 := closeIngress_drained (classifyConnTerminal T w.ctl)
    (publishSends_ops (((w.publishConnTerminal (classifyConnTerminal T w.ctl)).publishRecvs
      (classifyConnTerminal T w.ctl))) (classifyConnTerminal T w.ctl))
  exact Drained.foldl _ (fun w r h => h.replyErr r _) _ ⟨h1.closed, h1.channel, h1.inbox, h1.ops⟩

theorem runClosed_drained (T : QuicConn σ) (w : World σ) (ticks : List (Tick σ))
    (rest : List FrontAct) : Drained (w.runClosed T ticks rest) :=
  Drained.foldl front (fun _ a h => h.fronts [a]) rest (doOnConnClose_drained T _)

/-! ## 3. The theorem -/

section Runs

variable (isServer : Bool) (bidiCap uniCap depth : Nat) (cap : Option Nat) (c : σ)
  (script : List (List FrontAct))

/-- Any sequence of entries from the start keeps the account. -/
theorem inv_of_books (h : Books (withBuffers isServer bidiCap uniCap depth cap c script) 0 w 0) :
    (w.book 0).Inv (budgetRule cap) := by
  have h0 : ((withBuffers isServer bidiCap uniCap depth cap c script).book 0).Inv
      (budgetRule cap) := Book.inv_empty 0
  exact h0.moves h.moves

theorem accounted_of_books
    (h : Books (withBuffers isServer bidiCap uniCap depth cap c script) 0 w 0) :
    Accounted cap w := by
  have h0 : ((withBuffers isServer bidiCap uniCap depth cap c script).book 0).Inv
      (budgetRule cap) := Book.inv_empty 0
  refine .of_book (h.sized (by rintro _ _ _ _ ⟨⟩))
    (inv_of_books isServer bidiCap uniCap depth cap c script h) ?_
  rintro k rfl
  exact Book.Bounded.moves (fun l n hln => hln k rfl) h0 (.inl (Nat.zero_le k)) h.moves

/-- **The budget is conserved and bounded.**  In every state of every run, and after the close
with whatever the front end still does, `resident` is the total of the sizes under which the
writes still alive were submitted.  No release ever exceeds the counter, and under a finite cap
the counter stays within the cap or within one write that was admitted while nothing was
resident.  The close leaves no write alive and nothing resident.  A reservation that is refused
changes nothing. -/
theorem budget_conserved (T : QuicConn σ) (ticks : List (Tick σ)) (rest : List FrontAct) :
    let w0 := withBuffers isServer bidiCap uniCap depth cap c script
    Accounted cap (w0.run T ticks) ∧ Accounted cap (w0.runClosed T ticks rest) ∧
    (w0.runClosed T ticks rest).alive = 0 ∧ (w0.runClosed T ticks rest).sh.resident = 0 ∧
    ∀ (f : Face) (c : Nat) (buf : WriteBuf),
      Face.tryReserveBytes f.sh buf.remaining = none → f.front (.sendData c buf) = f := by
  intro w0
  have hrun : Steps T w0 (w0.run T ticks) := run_steps ticks w0
  have hclosed : Accounted cap (w0.runClosed T ticks rest) :=
    accounted_of_books isServer bidiCap uniCap depth cap c script (runClosed_books T w0 ticks rest)
  have halive := (runClosed_drained T w0 ticks rest).alive
  refine ⟨accounted_of_books _ _ _ _ _ _ _ (steps_books hrun 0), hclosed, halive, ?_, ?_⟩
  · rw [hclosed.resident, halive]
    rfl
  · intro f c buf hnone
    simp only [Face.front, Face.sendData, hnone, ite_self]

end Runs

end World

end QuicheH3
