/-
# Local stream ids and the order of requests

Each class has its own queue and its own counter.  What the whole of a run does with them is one
book per class: every request that has left its queue, in the order it left, with what became of
it.  `Logged` says that the book, the queue and the commands still on their way are all the
requests ever made, in the order they were made (so no request is dropped, and none overtakes
another of its class), and that the streams opened are the book's used ids in the book's order.

The counter says which ids these are (`IdSeq`): the `k`-th is `first + 4 * k`, up to the wrap of
the addition, which fewer than 2^60 streams never reach.
-/
import QuicheH3.Open.Refine
import QuicheH3.Driver.Refine
import QuicheH3.Driver.Close
import QuicheH3.Mock

namespace QuicheH3

open Lib

/-! ## 1. Queries of the history -/

/-- The streams of class `b` the transport opened, in order. -/
def openedIds (b : Bool) : List Event → List Nat
  | [] => []
  | .streamPriority id true :: tr => openedIds b tr ++ if isBidi id = b then [id] else []
  | _ :: tr => openedIds b tr

/-- The requests for a stream of class `b`, in the order they were made. -/
def requested (b : Bool) (tr : List Event) : List Nat :=
  (submitted tr).reverse.flatMap (OpenView.requests b)

/-- The stream the transport opened last. -/
def lastOpened : List Event → Option Nat
  | [] => none
  | .streamPriority id true :: _ => some id
  | _ :: tr => lastOpened tr

/-- Who was given which stream of class `b`: a request is answered with the halves of the stream
opened last. -/
def deliveries (b : Bool) : List Event → List (Nat × Nat)
  | [] => []
  | .answer r none :: tr =>
    deliveries b tr ++ ((lastOpened tr).toList.filter (isBidi · = b)).map (r, ·)
  | _ :: tr => deliveries b tr

/-- Events that open nothing and deliver nothing. -/
def Event.isMute : Event → Prop
  | .streamPriority _ true | .answer _ none => False
  | _ => True

theorem isMute_of_isInner (e : Event) (h : e.isInner) : e.isMute := by
  cases e with
  | streamPriority id ok =>
    cases ok
    · trivial
    · exact h.elim
  | answer r a => exact h.elim
  | _ => trivial

theorem isMute_of_isFront (e : Event) (h : e.isFront) : e.isMute := by
  cases e with
  | streamPriority | answer => exact h.elim
  | _ => trivial

theorem isMute_of_isClose (e : Event) (h : e.isClose) : e.isMute := by
  cases e with
  | streamPriority id ok => exact h.elim
  | answer r a =>
    cases a
    · exact h.elim
    · trivial
  | _ => trivial

theorem blind_openedIds (b : Bool) : Blind Event.isMute (openedIds b) := by
  intro e tr he
  cases e with
  | streamPriority id ok =>
    cases ok
    · rfl
    · exact he.elim
  | _ => rfl

theorem blind_lastOpened : Blind Event.isMute lastOpened := by
  intro e tr he
  cases e with
  | streamPriority id ok =>
    cases ok
    · rfl
    · exact he.elim
  | _ => rfl

theorem blind_deliveries (b : Bool) : Blind Event.isMute (deliveries b) := by
  intro e tr he
  cases e with
  | answer r a =>
    cases a
    · exact he.elim
    · rfl
  | _ => rfl

theorem blind_submitted : Blind (fun e => ∀ c, e ≠ .submit c) submitted := by
  intro e tr he
  cases e with
  | submit c => exact absurd rfl (he c)
  | _ => rfl

theorem ne_submit_of_isInner (e : Event) (h : e.isInner) (c : DriverCommand) : e ≠ .submit c := by
  rintro rfl
  exact h

/-! ## 2. The requests of the two classes -/

namespace OpenView

/-- Every request is of one class. -/
theorem requests_perm (cs : List DriverCommand) :
    (cs.flatMap (requests true) ++ cs.flatMap (requests false)).Perm
      (cs.filterMap DriverCommand.reply) := by
  induction cs with
  | nil => exact .refl _
  | cons c cs ih =>
    cases c with
    | openBidi r => exact ih.cons r
    | openUni r => exact List.perm_middle.trans (ih.cons r)
    | _ => exact ih

theorem requests_sub {cs : List DriverCommand} {b : Bool} {r : Nat}
    (h : r ∈ cs.flatMap (requests b)) : r ∈ cs.filterMap DriverCommand.reply := by
  refine (requests_perm cs).mem_iff.mp ?_
  cases b
  · exact List.mem_append_right _ h
  · exact List.mem_append_left _ h

end OpenView

theorem requested_perm (tr : List Event) :
    (requested true tr ++ requested false tr).Perm ((submitted tr).filterMap DriverCommand.reply) :=
  (OpenView.requests_perm _).trans ((submitted tr).reverse_perm.filterMap _)

theorem requested_sub {tr : List Event} {b : Bool} {r : Nat} (h : r ∈ requested b tr) :
    r ∈ (submitted tr).filterMap DriverCommand.reply := by
  have h1 := OpenView.requests_sub h
  exact ((submitted tr).reverse_perm.filterMap _).mem_iff.mp h1

/-- The stream a request is served with is still the last one opened when the requester is asked
whether it is there. -/
theorem lastOpened_served {v v' : OpenView} {b : Bool} {rest : List Nat} {tr : List Event}
    (hg : Grows Event.isInner (.streamPriority (v.nextId b) true :: v.hist) tr)
    (hf : OpenView.Front (v.serve b rest tr) v') : lastOpened v'.hist = some (v.nextId b) :=
  (blind_lastOpened.grows (hf.grows.mono isMute_of_isFront)).trans
    (blind_lastOpened.grows (hg.mono isMute_of_isInner))

/-! ## 3. The book of a class -/

/-- What became of a request that has left its queue. -/
inductive OpenFate where
  | gaveUp
  | declined (t : ConnTerminal)
  | delivered (id : Nat)
  | undelivered (id : Nat)
deriving DecidableEq

/-- The id a request used. -/
def OpenFate.usedId : OpenFate → Option Nat
  | .delivered id | .undelivered id => some id
  | _ => none

/-- The stream a request got. -/
def OpenFate.given (r : Nat) : OpenFate → Option (Nat × Nat)
  | .delivered id => some (r, id)
  | _ => none

/-- The requests that have left their queues, per class, oldest first. -/
abbrev OpenLog := Bool → List (Nat × OpenFate)

def OpenLog.push (log : OpenLog) (b : Bool) (r : Nat) (f : OpenFate) : OpenLog :=
  Function.update log b (log b ++ [(r, f)])

/-- What the book says of request `r` has happened: a requester that got no answer has given up
itself. -/
def Fated (v : OpenView) (r : Nat) : OpenFate → Prop
  | .gaveUp | .undelivered _ => v.replies r = .cancelled
  | .declined t => .answer r (some t) ∈ v.hist
  | .delivered _ => .answer r none ∈ v.hist

/-- The book is right; `cur` is the request whose service has begun. -/
structure Logged (v : OpenView) (log : OpenLog) (cur : Option Nat) : Prop where
  /-- The requests ever made: served, queued, or on their way, in this order. -/
  fifo : ∀ b, requested b v.hist =
    (log b).map Prod.fst ++ v.queue b ++ v.cmds.flatMap (OpenView.requests b)
  /-- The streams opened are those the book's requests used, in the book's order. -/
  ids : ∀ b, (log b).filterMap (fun x => x.2.usedId) = openedIds b v.hist
  handed : ∀ b, (log b).filterMap (fun x => x.2.given x.1) = deliveries b v.hist
  fate : ∀ b, ∀ x ∈ log b, cur ≠ some x.1 → Fated v x.1 x.2
  -- every request has a reply slot of its own
  once : ((submitted v.hist).filterMap DriverCommand.reply).Nodup
  lt : ∀ r ∈ (submitted v.hist).filterMap DriverCommand.reply, r < v.nextReply
  pend : ∀ b, ∀ r ∈ v.queue b ++ v.cmds.flatMap (OpenView.requests b),
    v.replies r = .waiting ∨ v.replies r = .cancelled
  curLt : ∀ r, cur = some r → r < v.nextReply
  curPend : ∀ r, cur = some r → v.replies r = .waiting ∨ v.replies r = .cancelled

theorem ReplyLe.of_cancelled {x : Reply} (h : ReplyLe .cancelled x) : x = .cancelled := by
  rcases h with h | ⟨h, -⟩ | ⟨h, -⟩
  · exact h.symm
  · cases h
  · exact absurd rfl h.2

theorem ReplyLe.of_pending {x y : Reply} (hx : x = .waiting ∨ x = .cancelled) (h : ReplyLe x y) :
    y = .waiting ∨ y = .cancelled := by
  rcases hx with rfl | rfl
  · rcases h with h | ⟨-, h⟩ | ⟨h, -⟩
    · exact .inl h.symm
    · exact .inr h
    · exact absurd rfl h.1
  · exact .inr h.of_cancelled

/-- What the front end does not undo. -/
theorem Fated.mono {v v' : OpenView} {r : Nat} {f : OpenFate} (h : Fated v r f)
    (hr : v.replies r = .cancelled → v'.replies r = .cancelled) (hs : v.hist ⊆ v'.hist) :
    Fated v' r f := by
  cases f with
  | gaveUp => exact hr h
  | undelivered id => exact hr h
  | declined t => exact hs h
  | delivered id => exact hs h

namespace Logged

variable {v v' : OpenView} {log : OpenLog} {cur : Option Nat}

theorem log_lt (h : Logged v log cur) {b : Bool} {x : Nat × OpenFate} (hx : x ∈ log b) :
    x.1 < v.nextReply := by
  refine h.lt _ (requested_sub (b := b) ?_)
  rw [h.fifo b, List.append_assoc]
  exact List.mem_append_left _ (List.mem_map_of_mem hx)

theorem pend_lt (h : Logged v log cur) {b : Bool} {r : Nat}
    (hr : r ∈ v.queue b ++ v.cmds.flatMap (OpenView.requests b)) : r < v.nextReply := by
  refine h.lt _ (requested_sub (b := b) ?_)
  rw [h.fifo b, List.append_assoc]
  exact List.mem_append_right _ hr

theorem inner (h : Logged v log cur) {tr : List Event} (hg : Grows Event.isInner v.hist tr) :
    Logged { v with hist := tr } log cur := by
  have hm := hg.mono isMute_of_isInner
  have hs : submitted tr = submitted v.hist :=
    blind_submitted.grows (hg.mono ne_submit_of_isInner)
  refine ⟨fun b => ?_, fun b => ?_, fun b => ?_, fun b x hx hc => ?_, ?_, ?_, h.pend, h.curLt,
    h.curPend⟩
  · rw [← h.fifo b]
    unfold requested
    rw [hs]
  · rw [h.ids b]
    exact ((blind_openedIds b).grows hm).symm
  · rw [h.handed b]
    exact ((blind_deliveries b).grows hm).symm
  · exact (h.fate b x hx hc).mono id hg.subset
  · dsimp only
    rw [hs]
    exact h.once
  · dsimp only
    rw [hs]
    exact h.lt

theorem front (h : Logged v log cur) (hf : OpenView.Front v v') : Logged v' log cur := by
  obtain ⟨cs, hcmds, hrec, hnd, hmem⟩ := hf.appends
  have hm := hf.grows.mono isMute_of_isFront
  have hreq :
      ∀ b, requested b v'.hist = requested b v.hist ++ cs.flatMap (OpenView.requests b) := by
    intro b
    unfold requested
    rw [hrec, List.reverse_append, List.reverse_reverse, List.flatMap_append]
  have hrep : (submitted v'.hist).filterMap DriverCommand.reply =
      (cs.filterMap DriverCommand.reply).reverse ++
        (submitted v.hist).filterMap DriverCommand.reply := by
    rw [hrec, List.filterMap_append, List.filterMap_reverse]
  refine ⟨fun b => ?_, fun b => ?_, fun b => ?_, fun b x hx hc => ?_, ?_, fun r hr => ?_,
    fun b r hr => ?_, fun r hr => ?_, fun r hr => ?_⟩
  · rw [hreq, h.fifo b, hf.queue, hcmds, List.flatMap_append, ← List.append_assoc]
  · rw [h.ids b]
    exact ((blind_openedIds b).grows hm).symm
  · rw [h.handed b]
    exact ((blind_deliveries b).grows hm).symm
  · refine (h.fate b x hx hc).mono (fun hcan => ?_) hf.grows.subset
    have hle := hf.reply x.1 (h.log_lt hx)
    rw [hcan] at hle
    exact hle.of_cancelled
  · -- the new slots are not among the old ones
    rw [hrep]
    refine (List.nodup_reverse.mpr hnd).append h.once fun r hr hr' => ?_
    have hnew := (hmem r).mp (List.mem_reverse.mp hr)
    exact absurd (h.lt r hr') (Nat.not_lt.mpr hnew.1)
  · rw [hrep] at hr
    rcases List.mem_append.mp hr with hr | hr
    · exact ((hmem r).mp (List.mem_reverse.mp hr)).2
    · exact Nat.lt_of_lt_of_le (h.lt r hr) hf.nextReply
  · rw [hf.queue, hcmds, List.flatMap_append, ← List.append_assoc] at hr
    rcases List.mem_append.mp hr with hr | hr
    · exact (hf.reply r (h.pend_lt hr)).of_pending (h.pend b r hr)
    · obtain ⟨hge, hlt⟩ := (hmem r).mp (OpenView.requests_sub hr)
      exact hf.newReply r hge hlt
  · exact Nat.lt_of_lt_of_le (h.curLt r hr) hf.nextReply
  · exact (hf.reply r (h.curLt r hr)).of_pending (h.curPend r hr)

theorem pop (h : Logged v log cur) {cmd : DriverCommand} {rest : List DriverCommand}
    (hc : v.cmds = cmd :: rest) :
    Logged { v with
      cmds := rest, hist := .applied cmd :: v.hist
      queue := fun b => v.queue b ++ OpenView.requests b cmd } log cur := by
  have hsplit : ∀ b, v.queue b ++ v.cmds.flatMap (OpenView.requests b) =
      v.queue b ++ OpenView.requests b cmd ++ rest.flatMap (OpenView.requests b) := by
    intro b
    rw [hc, List.flatMap_cons, ← List.append_assoc]
  refine ⟨fun b => ?_, h.ids, h.handed, fun b x hx hcur => ?_, h.once, h.lt, fun b r hr => ?_,
    h.curLt, h.curPend⟩
  · have hb := h.fifo b
    rw [List.append_assoc, hsplit, ← List.append_assoc] at hb
    exact hb
  · exact (h.fate b x hx hcur).mono id (List.subset_cons_self _ _)
  · refine h.pend b r ?_
    rw [hsplit]
    exact hr

/-- A request is no other one, of its class or of the other. -/
theorem alone (h : Logged v log cur) {b : Bool} {r : Nat} {pre post : List Nat}
    (hb : requested b v.hist = pre ++ r :: post) {c : Bool} {r' : Nat}
    (hr : if c = b then r' ∈ pre ++ post else r' ∈ requested c v.hist) : r' ≠ r := by
  have hn := (requested_perm v.hist).nodup_iff.mpr h.once
  have hr0 : r ∈ requested b v.hist := by
    rw [hb]
    exact List.mem_append_right _ List.mem_cons_self
  rintro rfl
  by_cases hc : c = b
  · rw [if_pos hc] at hr
    have hnb : (requested b v.hist).Nodup := by
      cases b
      · exact (List.nodup_append.mp hn).2.1
      · exact (List.nodup_append.mp hn).1
    rw [hb] at hnb
    exact (List.nodup_cons.mp (List.nodup_middle.mp hnb)).1 hr
  · rw [if_neg hc] at hr
    have hdisj := (List.nodup_append.mp hn).2.2
    cases b <;> cases c
    · exact hc rfl
    · exact hdisj _ hr _ hr0 rfl
    · exact hdisj _ hr0 _ hr rfl
    · exact hc rfl

/-- The request entered last is no other one. -/
theorem apart_push {b : Bool} {r : Nat} {f : OpenFate} (h : Logged v (log.push b r f) cur) :
    (∀ c, ∀ x ∈ log c, x.1 ≠ r) ∧
    ∀ c, ∀ r' ∈ v.queue c ++ v.cmds.flatMap (OpenView.requests c), r' ≠ r := by
  have hb : requested b v.hist = (log b).map Prod.fst ++
      r :: (v.queue b ++ v.cmds.flatMap (OpenView.requests b)) := by
    rw [h.fifo b, OpenLog.push, Function.update_self]
    simp
  have hother : ∀ c, c ≠ b → requested c v.hist = (log c).map Prod.fst ++
      (v.queue c ++ v.cmds.flatMap (OpenView.requests c)) := by
    intro c hc
    rw [h.fifo c, OpenLog.push, Function.update_of_ne hc, List.append_assoc]
  have key : ∀ c r', r' ∈ (log c).map Prod.fst ++
      (v.queue c ++ v.cmds.flatMap (OpenView.requests c)) → r' ≠ r := by
    intro c r' hr'
    refine h.alone hb (c := c) ?_
    by_cases hc : c = b
    · subst hc
      rw [if_pos rfl]
      exact hr'
    · rw [if_neg hc, hother c hc]
      exact hr'
  exact ⟨fun c x hx => key c x.1 (List.mem_append_left _ (List.mem_map_of_mem hx)),
    fun c r' hr' => key c r' (List.mem_append_right _ hr')⟩

theorem filterMap_push {α : Type} (g : Nat × OpenFate → Option α) (log : OpenLog) (b c : Bool)
    (r : Nat) (f : OpenFate) : (log.push b r f c).filterMap g =
      (log c).filterMap g ++ if c = b then (g (r, f)).toList else [] := by
  unfold OpenLog.push
  by_cases hc : c = b
  · subst hc
    rw [Function.update_self, List.filterMap_append, if_pos rfl]
    cases hg : g (r, f) <;> simp [hg]
  · rw [Function.update_of_ne hc, if_neg hc, List.append_nil]

theorem mem_push {b c : Bool} {r : Nat} {f : OpenFate} {x : Nat × OpenFate}
    (hx : x ∈ log.push b r f c) : x ∈ log c ∨ x = (r, f) := by
  unfold OpenLog.push at hx
  by_cases hc : c = b
  · subst hc
    rw [Function.update_self] at hx
    rcases List.mem_append.mp hx with hx | hx
    · exact .inl hx
    · exact .inr (List.mem_singleton.mp hx)
  · rw [Function.update_of_ne hc] at hx
    exact .inl hx

/-- The head of a queue is taken up; it may open a stream. -/
theorem take (h : Logged v log none) {b : Bool} {r : Nat} {rest : List Nat}
    (hq : v.queue b = r :: rest) (f : OpenFate) (hgiven : f.given r = none) (tr : List Event)
    (next : Bool → Nat) (hs : submitted tr = submitted v.hist)
    (hd : ∀ c, deliveries c tr = deliveries c v.hist)
    (ho : ∀ c, openedIds c tr = openedIds c v.hist ++ if c = b then f.usedId.toList else [])
    (hsub : v.hist ⊆ tr) :
    Logged { v with queue := Function.update v.queue b rest, nextId := next, hist := tr }
      (log.push b r f) (some r) := by
  have hr : r ∈ v.queue b ++ v.cmds.flatMap (OpenView.requests b) := by
    rw [hq]
    exact List.mem_append_left _ List.mem_cons_self
  refine ⟨fun c => ?_, fun c => ?_, fun c => ?_, fun c x hx hc => ?_, ?_, ?_, fun c r' hr' => ?_,
    fun r' hr' => ?_, fun r' hr' => ?_⟩
  · -- the request moves from the queue to the book
    have hc := h.fifo c
    have hreq : requested c tr = requested c v.hist := by
      unfold requested
      rw [hs]
    rw [hreq, hc]
    unfold OpenLog.push
    by_cases hcb : c = b
    · subst hcb
      simp [hq]
    · simp [Function.update_of_ne hcb]
  · rw [filterMap_push, h.ids c, ho c]
  · rw [filterMap_push, h.handed c, hd c]
    simp [hgiven]
  · rcases mem_push hx with hx | rfl
    · exact (h.fate c x hx (by simp)).mono id hsub
    · exact absurd rfl hc
  · dsimp only
    rw [hs]
    exact h.once
  · dsimp only
    rw [hs]
    exact h.lt
  · refine h.pend c r' ?_
    dsimp only at hr'
    by_cases hcb : c = b
    · subst hcb
      rw [Function.update_self] at hr'
      rw [hq]
      exact List.mem_cons_of_mem _ hr'
    · rwa [Function.update_of_ne hcb] at hr'
  · cases hr'
    exact h.pend_lt hr
  · cases hr'
    exact h.pend b r hr

/-- The service of a request ends without an answer. -/
theorem lapse {b : Bool} {r : Nat} {f : OpenFate} (h : Logged v (log.push b r f) (some r))
    (hf : Fated v r f) : Logged v (log.push b r f) none := by
  refine { h with
    fate := fun c x hx _ => ?_, curLt := fun r' hr' => by cases hr'
    curPend := fun r' hr' => by cases hr' }
  rcases mem_push hx with hx' | rfl
  · refine h.fate c x hx fun heq => ?_
    cases heq
    exact h.apart_push.1 c x hx' rfl
  · exact hf

/-- The service of a request ends with an answer; only now is it known to be delivered. -/
theorem answer {b : Bool} {r : Nat} {f : OpenFate} (h : Logged v (log.push b r f) (some r))
    (f' : OpenFate) (ans : Reply) (a : Option ConnTerminal) (hu : f'.usedId = f.usedId)
    (hd : ∀ c, deliveries c (.answer r a :: v.hist) =
      (log c).filterMap (fun x => x.2.given x.1) ++ if c = b then (f'.given r).toList else [])
    (hf : Fated { v with
      replies := Function.update v.replies r ans, hist := .answer r a :: v.hist } r f') :
    Logged { v with
      replies := Function.update v.replies r ans, hist := .answer r a :: v.hist }
      (log.push b r f') none := by
  obtain ⟨hlog, hpend⟩ := h.apart_push
  refine ⟨fun c => ?_, fun c => ?_, fun c => ?_, fun c x hx _ => ?_, h.once, h.lt,
    fun c r' hr' => ?_, fun r' hr' => by (cases hr'), fun r' hr' => by (cases hr')⟩
  · have hc := h.fifo c
    have hmap : (log.push b r f' c).map Prod.fst = (log.push b r f c).map Prod.fst := by
      unfold OpenLog.push
      by_cases hcb : c = b
      · subst hcb
        simp
      · simp [Function.update_of_ne hcb]
    rw [hmap]
    exact hc
  · have hc := h.ids c
    rw [filterMap_push] at hc ⊢
    rw [hu]
    exact hc
  · rw [filterMap_push, hd c]
  · rcases mem_push hx with hx' | rfl
    · have hne := hlog c x hx'
      have hx0 : x ∈ log.push b r f c := by
        unfold OpenLog.push
        by_cases hcb : c = b
        · subst hcb
          rw [Function.update_self]
          exact List.mem_append_left _ hx'
        · rwa [Function.update_of_ne hcb]
      refine (h.fate c x hx0 fun heq => hne (Option.some.inj heq).symm).mono (fun hcan => ?_)
        (List.subset_cons_self _ _)
      dsimp only
      rw [Function.update_of_ne hne]
      exact hcan
    · exact hf
  · dsimp only
    rw [Function.update_of_ne (hpend c r' hr')]
    exact h.pend c r' hr'

/-- The head of a queue opens the next stream of its class, and the front end acts. -/
theorem serve (h : Logged v log none) (hc : Counters v) {b : Bool} {r : Nat} {rest : List Nat}
    {tr : List Event} (hq : v.queue b = r :: rest)
    (hg : Grows Event.isInner (.streamPriority (v.nextId b) true :: v.hist) tr)
    (hf : OpenView.Front (v.serve b rest tr) v') :
    Logged v' (log.push b r (.undelivered (v.nextId b))) (some r) := by
  have h1 := h.take hq (.undelivered (v.nextId b)) rfl
    (.streamPriority (v.nextId b) true :: v.hist)
    (Function.update v.nextId b (World.wrappingAdd4 (v.nextId b))) rfl (fun _ => rfl) (fun c => ?_)
    (List.subset_cons_self _ _)
  · exact (h1.inner hg).front hf
  · simp only [openedIds, (hc.cls b).1, OpenFate.usedId, Option.toList_some, eq_comm]

/-- One move of the machine enters at most one request. -/
theorem move (h : Logged v log none) (hc : Counters v) (hm : OpenView.Move v v') :
    ∃ log', Logged v' log' none := by
  cases hm with
  | inner tr hg => exact ⟨log, h.inner hg⟩
  | front _ hf => exact ⟨log, h.front hf⟩
  | pop cmd rest hcmd => exact ⟨log, h.pop hcmd⟩
  | skip b r rest hq hw =>
    have h1 := h.take hq .gaveUp rfl v.hist v.nextId rfl (fun _ => rfl)
      (fun c => by simp [OpenFate.usedId]) (List.Subset.refl _)
    have hcan := (h1.curPend r rfl).resolve_left hw
    exact ⟨_, h1.lapse hcan⟩
  | fail b r rest t hq hw =>
    have h1 := h.take hq (.declined t) rfl v.hist v.nextId rfl (fun _ => rfl)
      (fun c => by simp [OpenFate.usedId]) (List.Subset.refl _)
    refine ⟨_, h1.answer (.declined t) (.failed t) (some t) rfl (fun c => ?_) List.mem_cons_self⟩
    simp [deliveries, ← h.handed c, OpenFate.given]
  | deliver b r rest tr ans v1 hq hg hf hw ha =>
    have h1 := h.serve hc hq hg hf
    have hlast := lastOpened_served hg hf
    refine ⟨_, h1.answer (.delivered (v.nextId b)) ans none rfl (fun c => ?_)
      List.mem_cons_self⟩
    have hd : deliveries c v1.hist = (log c).filterMap fun x => x.2.given x.1 := by
      rw [← h1.handed c, filterMap_push]
      simp [OpenFate.given]
    simp only [deliveries, hd, hlast, Option.toList_some, List.filter_singleton, (hc.cls b).1]
    by_cases hcb : c = b
    · simp [hcb, OpenFate.given]
    · simp [hcb, Ne.symm hcb]
  | lapse b r rest tr _ hq hg hf hw =>
    have h1 := h.serve hc hq hg hf
    exact ⟨_, h1.lapse ((h1.curPend r rfl).resolve_left hw)⟩

end Logged

/-! ## 4. The ids of a class -/

/-- The first local id of a class: `0` and `2` for a client, `1` and `3` for a server. -/
def firstId (isServer bidi : Bool) : Nat :=
  (if isServer then 1 else 0) + if bidi then 0 else 2

/-- The counter of a class has counted the streams opened. -/
structure IdSeq (v : OpenView) : Prop where
  next : ∀ b, v.nextId b = (firstId v.srv b + 4 * (openedIds b v.hist).length) % 2 ^ 64
  ids : ∀ b, openedIds b v.hist =
    (List.range (openedIds b v.hist).length).map fun k => (firstId v.srv b + 4 * k) % 2 ^ 64

namespace IdSeq

variable {v v' : OpenView}

/-- Nothing is opened. -/
theorem mute (h : IdSeq v) (hn : v'.nextId = v.nextId) (hs : v'.srv = v.srv)
    (hg : Grows Event.isMute v.hist v'.hist) : IdSeq v' := by
  have ho : ∀ b, openedIds b v'.hist = openedIds b v.hist := fun b => (blind_openedIds b).grows hg
  refine ⟨fun b => ?_, fun b => ?_⟩
  · rw [hn, hs, ho]
    exact h.next b
  · rw [hs, ho]
    exact h.ids b

/-- The next stream of a class is opened. -/
theorem serve (h : IdSeq v) (hc : Counters v) {b : Bool} {rest : List Nat} {tr : List Event}
    (hg : Grows Event.isInner (.streamPriority (v.nextId b) true :: v.hist) tr) :
    IdSeq (v.serve b rest tr) := by
  have h1 : IdSeq (v.serve b rest (.streamPriority (v.nextId b) true :: v.hist)) := by
    have ho : ∀ c, openedIds c (.streamPriority (v.nextId b) true :: v.hist) =
        openedIds c v.hist ++ if b = c then [v.nextId b] else [] := by
      intro c
      simp only [openedIds, (hc.cls b).1]
    refine ⟨fun c => ?_, fun c => ?_⟩
    · simp only [OpenView.serve, ho]
      by_cases hcb : c = b
      · subst hcb
        rw [Function.update_self, if_pos rfl, List.length_append, List.length_singleton, h.next c]
        unfold World.wrappingAdd4
        omega
      · rw [Function.update_of_ne hcb, if_neg (Ne.symm hcb), List.append_nil]
        exact h.next c
    · simp only [OpenView.serve, ho]
      by_cases hcb : c = b
      · subst hcb
        rw [if_pos rfl, List.length_append, List.length_singleton, List.range_succ, List.map_append,
          ← h.ids c, List.map_singleton, ← h.next c]
      · rw [if_neg (Ne.symm hcb), List.append_nil]
        exact h.ids c
  exact h1.mute rfl rfl (hg.mono isMute_of_isInner)

theorem front (h : IdSeq v) (hf : OpenView.Front v v') : IdSeq v' :=
  h.mute hf.nextId hf.srv (hf.grows.mono isMute_of_isFront)

theorem move (h : IdSeq v) (hc : Counters v) (hm : OpenView.Move v v') : IdSeq v' := by
  cases hm with
  | inner tr hg => exact h.mute rfl rfl (hg.mono isMute_of_isInner)
  | front _ hf => exact h.front hf
  | pop | fail => exact h.mute rfl rfl (.one trivial)
  | skip b r rest hq hw => exact h.mute rfl rfl (.refl _ _)
  | deliver b r rest tr ans v1 hq hg hf hw ha =>
    obtain ⟨hn, hi⟩ := (h.serve hc hg).front hf
    exact ⟨hn, hi⟩
  | lapse b r rest tr _ hq hg hf hw => exact (h.serve hc hg).front hf

end IdSeq

/-- The whole of the machine's book-keeping. -/
structure OpenBooks (v : OpenView) : Prop where
  counters : Counters v
  seq : IdSeq v
  log : ∃ log, Logged v log none

theorem OpenBooks.moves {v v' : OpenView} (h : OpenBooks v) (hm : v.Moves v') : OpenBooks v' := by
  induction hm with
  | refl => exact h
  | tail _ hstep ih =>
    obtain ⟨log, hlog⟩ := ih.log
    exact ⟨ih.counters.move hstep, ih.seq.move ih.counters hstep, hlog.move ih.counters hstep⟩

/-! ## 5. No credit -/

namespace World

variable {σ : Type} {T : QuicConn σ}

/-- A pass of the open stage over class `b` that only drops requests whose requester gave up: the
others stay, in their order, and it makes no call, uses no id and gives no answer. -/
structure Passed (b : Bool) (w w' : World σ) : Prop where
  queue : ∃ gone, w.openOf b = gone ++ w'.openOf b ∧ ∀ r ∈ gone, w'.sh.replies r ≠ .waiting
  nextId : ∀ c, w'.nextIdOf c = w.nextIdOf c
  hist : Grows Event.isFront w.trace w'.trace
  reply : ∀ r < w.sh.nextReply, ReplyLe (w.sh.replies r) (w'.sh.replies r)

theorem not_waiting_of_replyLe {x y : Reply} (h : ReplyLe x y) (hx : x ≠ .waiting) :
    y ≠ .waiting := by
  rcases h with rfl | ⟨h, -⟩ | ⟨-, rfl | rfl⟩
  · exact hx
  · exact absurd h hx
  · simp
  · simp

/-- **Without credit** the loop ends at the first request that is still wanted. -/
theorem openLoop_blocked (b : Bool) : ∀ (n : Nat) (w : World σ), creditOf T w.ctl.qconn b = 0 →
    (∀ r ∈ w.openOf b, r < w.sh.nextReply) → Passed b w (openLoop T b n w) := by
  intro n
  induction n with
  | zero =>
    intro w _ _
    unfold openLoop
    split <;> exact ⟨⟨[], rfl, by simp⟩, fun _ => rfl, .refl _ _, fun _ _ => .inl rfl⟩
  | succ n ih =>
    intro w hcredit hlt
    unfold openLoop
    split
    · exact ⟨⟨[], rfl, by simp⟩, fun _ => rfl, .refl _ _, fun _ _ => .inl rfl⟩
    · rename_i r rest hq
      -- the head is taken off while the other tasks run
      rw [interleave_setOpenOf]
      have hrel := w.interleave_rel
      have hopen : ∀ q, (w.interleave.setOpenOf b q).openOf b = q := by
        intro q
        cases b <;> rfl
      have hkeep : ∀ q, (w.interleave.setOpenOf b q).toFace = w.interleave.toFace ∧
          (w.interleave.setOpenOf b q).ctl.qconn = w.ctl.qconn ∧
          ∀ c, (w.interleave.setOpenOf b q).nextIdOf c = w.nextIdOf c := by
        intro q
        cases b <;> exact ⟨rfl, rfl, fun c => by cases c <;> rfl⟩
      obtain ⟨hface, hconn, hnext⟩ := hkeep rest
      rw [hq] at hlt
      dsimp only
      rw [hface, hconn, if_pos hcredit]
      split
      · rename_i hw
        have hrest : Passed b (w.interleave.setOpenOf b rest)
            (openLoop T b n (w.interleave.setOpenOf b rest)) := by
          refine ih _ (hconn ▸ hcredit) fun r' hr' => ?_
          rw [hopen] at hr'
          rw [hface]
          exact Nat.lt_of_lt_of_le (hlt r' (List.mem_cons_of_mem _ hr')) hrel.nextReply
        obtain ⟨gone, hgone, hgw⟩ := hrest.queue
        have hreply : ∀ r < w.interleave.sh.nextReply, ReplyLe (w.interleave.sh.replies r)
            ((openLoop T b n (w.interleave.setOpenOf b rest)).sh.replies r) := by
          have := hrest.reply
          rwa [hface] at this
        have hr := Nat.lt_of_lt_of_le (hlt r List.mem_cons_self) hrel.nextReply
        refine ⟨⟨r :: gone, ?_, fun r' hr' => ?_⟩, fun c => ?_, ?_, fun r' hr' => ?_⟩
        · rw [hopen] at hgone
          rw [hq, List.cons_append, ← hgone]
        · rcases List.mem_cons.mp hr' with rfl | hr'
          · exact not_waiting_of_replyLe (hreply r' hr) hw
          · exact hgw r' hr'
        · rw [hrest.nextId, hnext]
        · have hg := hrest.hist
          rw [hface] at hg
          exact hrel.grows.trans hg
        · exact (hrel.reply r' hr').trans
            (hreply r' (Nat.lt_of_lt_of_le hr' hrel.nextReply))
      · -- the request is put back where it was
        have hback : (w.interleave.setOpenOf b rest).setOpenOf b
            (r :: (w.interleave.setOpenOf b rest).openOf b) =
            w.interleave.setOpenOf b (r :: rest) := by
          rw [hopen]
          cases b <;> rfl
        rw [hback]
        obtain ⟨hface', -, hnext'⟩ := hkeep (r :: rest)
        refine ⟨⟨[], ?_, by simp⟩, hnext', ?_, ?_⟩
        · rw [hopen, hq, List.nil_append]
        · rw [hface']
          exact hrel.grows
        · rw [hface']
          exact hrel.reply

/-! ## 6. Every run -/

theorem openBooks_withBuffers (isServer : Bool) (bidiCap uniCap depth : Nat) (cap : Option Nat)
    (c : σ) (script : List (List FrontAct)) :
    OpenBooks (withBuffers isServer bidiCap uniCap depth cap c script).oview where
  counters := counters_withBuffers isServer bidiCap uniCap depth cap c script
  seq := by
    refine ⟨fun b => ?_, fun b => rfl⟩
    cases isServer <;> cases b <;> rfl
  log := by
    refine ⟨fun _ => [], ?_⟩
    refine ⟨fun b => ?_, fun _ => rfl, fun _ => rfl, fun _ _ h => ?_, .nil, fun _ h => ?_,
      fun b r h => ?_, fun _ h => ?_, fun _ h => ?_⟩
    · cases b <;> rfl
    · cases h
    · cases h
    · cases b <;> cases h
    · cases h
    · cases h

/-- The streams a book has delivered are among those it opened. -/
theorem given_sublist (l : List (Nat × OpenFate)) :
    ((l.filterMap fun x => x.2.given x.1).map Prod.snd).Sublist
      (l.filterMap fun x => x.2.usedId) := by
  induction l with
  | nil => exact .slnil
  | cons x l ih =>
    obtain ⟨r, f⟩ := x
    cases f with
    | delivered id => exact ih.cons_cons id
    | undelivered id => exact ih.cons id
    | _ => exact ih

/-- How a connection gives out its local ids. -/
structure OpenOrder (isServer : Bool) (w : World σ) : Prop where
  /-- The streams opened of a class are `first`, `first + 4`, `first + 8`, ... -/
  ids : ∀ b, openedIds b w.trace =
    (List.range (openedIds b w.trace).length).map fun k => firstId isServer b + 4 * k
  /-- Nothing but the opening of a stream moves the counter. -/
  next : ∀ b, w.nextIdOf b = firstId isServer b + 4 * (openedIds b w.trace).length
  /-- A stream is delivered to one requester at most. -/
  once : ∀ b, ((deliveries b w.trace).map Prod.snd).Nodup
  /-- Requests leave their queue in order, the used ids go to them in that order, and none is
  gone without an answer whose requester has not given up. -/
  log : ∃ log, Logged w.oview log none

theorem openOrder_of_books {w : World σ} {isServer : Bool} (h : OpenBooks w.oview)
    (hs : w.isServer = isServer) (hlen : ∀ b, (openedIds b w.trace).length < 2 ^ 60) :
    OpenOrder isServer w := by
  subst hs
  have hfirst : ∀ b, firstId w.isServer b ≤ 3 := by
    intro b
    cases b <;> cases w.isServer <;> decide
  have hids : ∀ b, openedIds b w.trace =
      (List.range (openedIds b w.trace).length).map fun k => firstId w.isServer b + 4 * k := by
    intro b
    have hb := h.seq.ids b
    refine hb.trans (List.map_congr_left fun k hk => Nat.mod_eq_of_lt ?_)
    have hk' := List.mem_range.mp hk
    have hl := hlen b
    have hf := hfirst b
    change k < (openedIds b w.trace).length at hk'
    change firstId w.isServer b + 4 * k < 2 ^ 64
    omega
  refine ⟨hids, fun b => ?_, fun b => ?_, h.log⟩
  · have hb := h.seq.next b
    refine hb.trans (Nat.mod_eq_of_lt ?_)
    have hl := hlen b
    have hf := hfirst b
    change firstId w.isServer b + 4 * (openedIds b w.trace).length < 2 ^ 64
    omega
  · obtain ⟨log, hlog⟩ := h.log
    have hd : deliveries b w.trace = _ := (hlog.handed b).symm
    have ho : openedIds b w.trace = _ := (hlog.ids b).symm
    have hnd : (openedIds b w.trace).Nodup := by
      rw [hids b]
      exact List.Nodup.map (fun x y hxy => by omega) List.nodup_range
    rw [hd]
    rw [ho] at hnd
    exact (given_sublist (log b)).nodup hnd

/-- **Local stream ids.**  In every run of a connection the streams opened of a class are `first`,
`first + 4`, `first + 8`, ..., used by the requests of the class in the order these were made,
each delivered at most once; a request that gave up before it used an id, or was declined, used
none; and where there is no credit a pass of the open stage leaves every request that is still
wanted in its queue, in its place.  The final close opens and delivers nothing more. -/
theorem open_requests_in_order (T : QuicConn σ) (isServer : Bool) (bidiCap uniCap depth : Nat)
    (cap : Option Nat) (c : σ) (script : List (List FrontAct)) (ticks : List (Tick σ))
    (hlen : ∀ b, (openedIds b ((withBuffers isServer bidiCap uniCap depth cap c script).run T
      ticks).trace).length < 2 ^ 60) :
    OpenOrder isServer ((withBuffers isServer bidiCap uniCap depth cap c script).run T ticks) ∧
    (∀ w, Steps T (withBuffers isServer bidiCap uniCap depth cap c script) w → ∀ b n,
      creditOf T w.ctl.qconn b = 0 → Passed b w (openLoop T b n w)) ∧
    ∀ rest b,
      openedIds b ((withBuffers isServer bidiCap uniCap depth cap c script).runClosed T ticks
        rest).trace =
      openedIds b ((withBuffers isServer bidiCap uniCap depth cap c script).run T ticks).trace ∧
      deliveries b ((withBuffers isServer bidiCap uniCap depth cap c script).runClosed T ticks
        rest).trace =
      deliveries b
        ((withBuffers isServer bidiCap uniCap depth cap c script).run T ticks).trace := by
  have hbooks : ∀ w, Steps T (withBuffers isServer bidiCap uniCap depth cap c script) w →
      OpenBooks w.oview := fun w hs =>
    (openBooks_withBuffers isServer bidiCap uniCap depth cap c script).moves (openMoves_steps hs)
  refine ⟨?_, ?_, fun rest b => ?_⟩
  · have hs := run_steps (T := T) ticks (withBuffers isServer bidiCap uniCap depth cap c script)
    exact openOrder_of_books (hbooks _ hs) (isServer_steps hs) hlen
  · intro w hs b n hcredit
    refine openLoop_blocked b n w hcredit fun r hr => ?_
    obtain ⟨log, hlog⟩ := (hbooks w hs).log
    exact hlog.pend_lt (b := b) (List.mem_append_left _ hr)
  · have hm := Grows.mono isMute_of_isClose (runClosed_close T
      (withBuffers isServer bidiCap uniCap depth cap c script) ticks rest)
    exact ⟨(blind_openedIds b).grows hm, (blind_deliveries b).grows hm⟩

/-- A client with credit for bidi streams only: its first and third request get streams, the
second waits. -/
def openThrice : World MockConn :=
  (withBuffers false 4 4 8 none { streamsLeftBidi := 4 } []).run mockConn
    [.front .openBidi, .front .openUni, .front .openBidi, .processWrites]

theorem openThrice_in_order :
    deliveries true openThrice.trace = [(0, 0), (2, 4)] ∧ openThrice.openOf false = [1] ∧
    OpenOrder false openThrice := by
  refine ⟨by decide +kernel, by decide +kernel, ?_⟩
  refine (open_requests_in_order mockConn false 4 4 8 none { streamsLeftBidi := 4 } []
    [.front .openBidi, .front .openUni, .front .openBidi, .processWrites] fun b => ?_).1
  cases b <;> decide +kernel

end World

end QuicheH3
