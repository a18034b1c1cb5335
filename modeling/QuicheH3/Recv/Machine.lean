/-
# The receive side as a machine of its own

What the worker does to byte channels, seen without the rest of the driver: an entry maps a
stream to its half, a half has a permit and a terminal cell, and the history says what was read
and what was placed.  Seven moves change it: entries are opened and closed, a slot is reserved,
a read answers, a half is sealed, and history grows by events of other parts.

The machine is the specification of the receive side.  Its invariant `RecvInv` says that the
state is what the history says it is, and that the history is in order (`RecvOk`): a read is
made with a slot in hand, what is placed is what was read, FIN comes after its chunk, and
nothing is placed after the seal.  `Recv/Refine.lean` shows that the driver makes only these
moves.
-/
import QuicheH3.Driver.Steps

namespace QuicheH3

open Lib

/-! ## 1. Queries of the history -/

/-- The half that receives for stream `id`. -/
def owner (id : Nat) : List Event → Option Nat
  | [] => none
  | .recvOpen id' h :: tr => if id' = id then some h else owner id tr
  | .recvClose id' _ :: tr => if id' = id then none else owner id tr
  | _ :: tr => owner id tr

/-- A slot of half `h` is reserved and not yet used. -/
def reserved (h : Nat) : List Event → Bool
  | [] => false
  | .reserve h' :: tr => if h' = h then true else reserved h tr
  | .release h' :: tr => if h' = h then false else reserved h tr
  | .place h' _ :: tr => if h' = h then false else reserved h tr
  | _ :: tr => reserved h tr

/-- The chunks placed in the byte queue of half `h`, oldest first. -/
def placed (h : Nat) : List Event → List Bytes
  | [] => []
  | .place h' chunk :: tr => if h' = h then placed h tr ++ [chunk] else placed h tr
  | _ :: tr => placed h tr

/-- The non-empty chunks `stream_recv` returned for the stream of half `h` while the half was
registered, oldest first. -/
def returned (h : Nat) : List Event → List Bytes
  | [] => []
  | .streamRecv id (.ok (chunk, _)) :: tr =>
    if owner id tr = some h ∧ chunk ≠ [] then returned h tr ++ [chunk] else returned h tr
  | _ :: tr => returned h tr

/-- The non-empty chunks `stream_recv` ever returned for stream `id`, oldest first. -/
def returnedFor (id : Nat) : List Event → List Bytes
  | [] => []
  | .streamRecv id' (.ok (chunk, _)) :: tr =>
    if id' = id ∧ chunk ≠ [] then returnedFor id tr ++ [chunk] else returnedFor id tr
  | _ :: tr => returnedFor id tr

/-- The terminal cell of half `h` has been set. -/
def Sealed (h : Nat) (tr : List Event) : Prop := ∃ e, .recvSet h e ∈ tr

/-- Events the receive side is about. -/
def Event.isRecv : Event → Prop
  | .streamRecv _ _ | .reserve _ | .release _ | .place _ _ | .recvOpen _ _ | .recvClose _ _
  | .recvSet _ _ => True
  | _ => False

/-- The events of the other parts. -/
def Event.notRecv (e : Event) : Prop := ¬ e.isRecv

theorem blind_owner (id : Nat) : Blind Event.notRecv (owner id) := by
  intro e tr he
  cases e <;> first | rfl | exact absurd trivial he

theorem blind_reserved (h : Nat) : Blind Event.notRecv (reserved h) := by
  intro e tr he
  cases e <;> first | rfl | exact absurd trivial he

theorem blind_placed (h : Nat) : Blind Event.notRecv (placed h) := by
  intro e tr he
  cases e <;> first | rfl | exact absurd trivial he

theorem blind_returned (h : Nat) : Blind Event.notRecv (returned h) := by
  intro e tr he
  cases e <;> first | rfl | exact absurd trivial he

/-! ## 2. What is in order -/

/-- What each event of the receive side requires of what happened before it. -/
def RecvOk : Event → List Event → Prop
  | .streamRecv id _, pre => ∃ h, owner id pre = some h ∧ reserved h pre = true
  | .place h chunk, pre => returned h pre = placed h pre ++ [chunk] ∧ ¬ Sealed h pre
  | .recvSet h .fin, pre => ∃ id chunk, owner id pre = some h ∧
      lastRead id pre = some (.ok (chunk, true)) ∧ placed h pre = returned h pre
  | _, _ => True

theorem recvOk_of_notRecv {e : Event} (pre : List Event) (he : e.notRecv) : RecvOk e pre := by
  cases e <;> first | trivial | exact absurd trivial he

/-! ## 3. The machine -/

/-- The receive side: entries, permits, cells, the next free half, and the history. -/
structure RecvView where
  entry : Nat → Option Nat
  permit : Nat → Bool
  cell : Nat → Option RecvEnd
  next : Nat
  hist : List Event

namespace RecvView

/-- The entry of `id` goes. -/
def close (v : RecvView) (id h : Nat) : RecvView :=
  { v with entry := Function.update v.entry id none, hist := .recvClose id h :: v.hist }

/-- A terminal cell is written by its first writer. -/
def set (v : RecvView) (h : Nat) (e : RecvEnd) : RecvView :=
  match v.cell h with
  | some _ => v
  | none => { v with cell := Function.update v.cell h (some e), hist := .recvSet h e :: v.hist }

/-- The moves. -/
inductive Move : RecvView → RecvView → Prop
  | skip (v : RecvView) (tr : List Event) (hg : Grows Event.notRecv v.hist tr) :
      Move v { v with hist := tr }
  | opens (v : RecvView) (id : Nat) (he : v.entry id = none) :
      Move v
        { entry := Function.update v.entry id (some v.next)
          permit := Function.update v.permit v.next false
          cell := Function.update v.cell v.next none
          next := v.next + 1
          hist := .recvOpen id v.next :: v.hist }
  | close (v : RecvView) (id h : Nat) (he : v.entry id = some h) : Move v (v.close id h)
  | reserve (v : RecvView) (id h : Nat) (he : v.entry id = some h) :
      Move v { v with permit := Function.update v.permit h true, hist := .reserve h :: v.hist }
  | readErr (v : RecvView) (id h : Nat) (err : QuicheError) (he : v.entry id = some h)
      (hp : v.permit h = true) :
      Move v { v with
        permit := Function.update v.permit h false
        hist := .release h :: .streamRecv id (.error err) :: v.hist }
  | readOk (v : RecvView) (id h : Nat) (chunk : Bytes) (fin : Bool) (he : v.entry id = some h)
      (hp : v.permit h = true) :
      Move v { v with
        permit := Function.update v.permit h false
        hist := (if chunk ≠ [] then .place h chunk else .release h) ::
          .streamRecv id (.ok (chunk, fin)) :: v.hist }
  | ends (v : RecvView) (id h : Nat) (e : RecvEnd) (he : v.entry id = some h)
      (hf : e = .fin → ∃ chunk, lastRead id v.hist = some (.ok (chunk, true))) :
      Move v ((v.set h e).close id h)

abbrev Moves : RecvView → RecvView → Prop := Relation.ReflTransGen Move

end RecvView

/-! ## 4. The invariant -/

/-- The state is what the history says, and the history is in order. -/
structure RecvInv (v : RecvView) : Prop where
  entry : ∀ id, v.entry id = owner id v.hist
  permit : ∀ h, v.permit h = reserved h v.hist
  cell : ∀ h, v.cell h = none ↔ ¬ Sealed h v.hist
  live : ∀ id h, v.entry id = some h → v.cell h = none
  bound : ∀ id h, .recvOpen id h ∈ v.hist → h < v.next
  inj : ∀ id id' h, .recvOpen id h ∈ v.hist → .recvOpen id' h ∈ v.hist → id = id'
  free : ∀ h, v.next ≤ h → reserved h v.hist = false ∧ ¬ Sealed h v.hist
  exact : ∀ h, placed h v.hist = returned h v.hist
  ok : Always RecvOk v.hist

/-- The owner of a stream was opened for it. -/
theorem recvOpen_of_owner {id h : Nat} : ∀ {tr : List Event}, owner id tr = some h →
    .recvOpen id h ∈ tr
  | [], ho => by simp [owner] at ho
  | e :: tr, ho => by
    have hrec : owner id tr = some h → .recvOpen id h ∈ e :: tr :=
      fun h' => List.mem_cons_of_mem _ (recvOpen_of_owner h')
    cases e with
    | recvOpen id' h' =>
      simp only [owner] at ho
      split at ho
      · rename_i hid
        simp [hid, Option.some.inj ho]
      · exact hrec ho
    | recvClose id' h' =>
      simp only [owner] at ho
      split at ho
      · cases ho
      · exact hrec ho
    | _ => exact hrec ho

namespace RecvInv

variable {v v' : RecvView}

/-- Two streams never share a half. -/
theorem entry_inj (hv : RecvInv v) {id id' h : Nat} (h1 : v.entry id = some h)
    (h2 : v.entry id' = some h) : id = id' :=
  hv.inj id id' h (recvOpen_of_owner ((hv.entry id).symm.trans h1))
    (recvOpen_of_owner ((hv.entry id').symm.trans h2))

theorem entry_lt (hv : RecvInv v) {id h : Nat} (he : v.entry id = some h) : h < v.next :=
  hv.bound id h (recvOpen_of_owner ((hv.entry id).symm.trans he))

theorem init (tr : List Event) (ht : tr = []) :
    RecvInv ⟨fun _ => none, fun _ => false, fun _ => none, 0, tr⟩ := by
  subst ht
  constructor <;> simp [owner, reserved, placed, returned, Sealed, Always]

/-! ### One lemma per move -/

theorem skip {tr : List Event} (hv : RecvInv v) (hg : Grows Event.notRecv v.hist tr) :
    RecvInv { v with hist := tr } := by
  have hset : ∀ h, Sealed h tr ↔ Sealed h v.hist := fun h =>
    exists_congr fun e => hg.mem_iff (fun hn => hn trivial)
  have hopen : ∀ id h, .recvOpen id h ∈ tr ↔ .recvOpen id h ∈ v.hist := fun id h =>
    hg.mem_iff (fun hn => hn trivial)
  exact
    { entry := fun id => (hv.entry id).trans ((blind_owner id).grows hg).symm
      permit := fun h => (hv.permit h).trans ((blind_reserved h).grows hg).symm
      cell := fun h => (hv.cell h).trans (not_congr (hset h)).symm
      live := hv.live
      bound := fun id h ho => hv.bound id h ((hopen id h).mp ho)
      inj := fun id id' h ho ho' => hv.inj id id' h ((hopen id h).mp ho) ((hopen id' h).mp ho')
      free := fun h hh => ⟨((blind_reserved h).grows hg).trans (hv.free h hh).1,
        fun hs => (hv.free h hh).2 ((hset h).mp hs)⟩
      exact := fun h => ((blind_placed h).grows hg).trans
        ((hv.exact h).trans ((blind_returned h).grows hg).symm)
      ok := hg.always (fun _ pre he => recvOk_of_notRecv pre he) hv.ok }

theorem opens {id : Nat} (hv : RecvInv v) (he : v.entry id = none) :
    RecvInv
      { entry := Function.update v.entry id (some v.next)
        permit := Function.update v.permit v.next false
        cell := Function.update v.cell v.next none
        next := v.next + 1
        hist := .recvOpen id v.next :: v.hist } where
  entry i := by
    by_cases hi : i = id
    · simp [hi, owner]
    · simp [hi, owner, hv.entry i, Ne.symm hi]
  permit h := by
    by_cases hh : h = v.next
    · simp [hh, reserved, (hv.free v.next le_rfl).1]
    · simp [hh, reserved, hv.permit h]
  cell h := by
    by_cases hh : h = v.next
    · simpa [hh, Sealed] using (hv.free v.next le_rfl).2
    · simpa [hh, Sealed] using hv.cell h
  live i h hi := by
    by_cases hii : i = id
    · subst hii
      simp only [Function.update_self, Option.some.injEq] at hi
      simp [← hi]
    · simp only [Function.update_of_ne hii] at hi
      have hlt := hv.entry_lt hi
      simpa [hlt.ne] using hv.live i h hi
  bound i h ho := by
    rcases List.mem_cons.mp ho with ho | ho
    · cases ho
      exact Nat.lt_succ_self _
    · exact Nat.lt_succ_of_lt (hv.bound i h ho)
  inj i i' h ho ho' := by
    rcases List.mem_cons.mp ho with ho | ho <;> rcases List.mem_cons.mp ho' with ho' | ho'
    · cases ho
      cases ho'
      rfl
    · cases ho
      exact absurd (hv.bound _ _ ho') (lt_irrefl _)
    · cases ho'
      exact absurd (hv.bound _ _ ho) (lt_irrefl _)
    · exact hv.inj i i' h ho ho'
  free h hh := by
    have := hv.free h (Nat.le_of_succ_le hh)
    simpa [reserved, Sealed] using this
  exact h := by simpa [placed, returned] using hv.exact h
  ok := ⟨trivial, hv.ok⟩

theorem close {id h : Nat} (hv : RecvInv v) : RecvInv (v.close id h) where
  entry i := by
    by_cases hi : i = id
    · simp [RecvView.close, hi, owner]
    · simp [RecvView.close, hi, owner, hv.entry i, Ne.symm hi]
  permit k := by simpa [RecvView.close, reserved] using hv.permit k
  cell k := by simpa [RecvView.close, Sealed] using hv.cell k
  live i k hi := by
    by_cases hii : i = id
    · simp [RecvView.close, hii] at hi
    · exact hv.live i k (by simpa [RecvView.close, hii] using hi)
  bound i k ho := hv.bound i k (by simpa [RecvView.close] using ho)
  inj i i' k ho ho' := hv.inj i i' k (by simpa [RecvView.close] using ho)
    (by simpa [RecvView.close] using ho')
  free k hk := by simpa [RecvView.close, reserved, Sealed] using hv.free k hk
  exact k := by simpa [RecvView.close, placed, returned] using hv.exact k
  ok := ⟨trivial, hv.ok⟩

theorem reserve {id h : Nat} (hv : RecvInv v) (he : v.entry id = some h) :
    RecvInv { v with permit := Function.update v.permit h true, hist := .reserve h :: v.hist } where
  entry i := by simpa [owner] using hv.entry i
  permit k := by
    by_cases hk : k = h
    · simp [hk, reserved]
    · simp [hk, Ne.symm hk, reserved, hv.permit k]
  cell k := by simpa [Sealed] using hv.cell k
  live := hv.live
  bound i k ho := hv.bound i k (by simpa using ho)
  inj i i' k ho ho' := hv.inj i i' k (by simpa using ho) (by simpa using ho')
  free k hk := by
    have hne : h ≠ k := ((hv.entry_lt he).trans_le hk).ne
    simpa [reserved, hne, Sealed] using hv.free k hk
  exact k := by simpa [placed, returned] using hv.exact k
  ok := ⟨trivial, hv.ok⟩

theorem readErr {id h : Nat} {err : QuicheError} (hv : RecvInv v) (he : v.entry id = some h)
    (hp : v.permit h = true) :
    RecvInv { v with
      permit := Function.update v.permit h false
      hist := .release h :: .streamRecv id (.error err) :: v.hist } where
  entry i := by simpa [owner] using hv.entry i
  permit k := by
    by_cases hk : k = h
    · simp [hk, reserved]
    · simp [hk, Ne.symm hk, reserved, hv.permit k]
  cell k := by simpa [Sealed] using hv.cell k
  live := hv.live
  bound i k ho := hv.bound i k (by simpa using ho)
  inj i i' k ho ho' := hv.inj i i' k (by simpa using ho) (by simpa using ho')
  free k hk := by
    have hne : h ≠ k := ((hv.entry_lt he).trans_le hk).ne
    simpa [reserved, hne, Sealed] using hv.free k hk
  exact k := by simpa [placed, returned] using hv.exact k
  ok := ⟨trivial, ⟨h, (hv.entry id).symm.trans he, (hv.permit h).symm.trans hp⟩, hv.ok⟩

theorem readOk {id h : Nat} {chunk : Bytes} {fin : Bool} (hv : RecvInv v)
    (he : v.entry id = some h) (hp : v.permit h = true) :
    RecvInv { v with
      permit := Function.update v.permit h false
      hist := (if chunk ≠ [] then .place h chunk else .release h) ::
        .streamRecv id (.ok (chunk, fin)) :: v.hist } := by
  have ho : owner id v.hist = some h := (hv.entry id).symm.trans he
  have hread : RecvOk (.streamRecv id (.ok (chunk, fin))) v.hist :=
    ⟨h, ho, (hv.permit h).symm.trans hp⟩
  have hne : ∀ k, v.next ≤ k → h ≠ k := fun k hk => ((hv.entry_lt he).trans_le hk).ne
  by_cases hc : chunk = []
  · -- an empty read gives the permit back
    simp only [hc, ne_eq, not_true_eq_false, if_false]
    exact
      { entry := fun i => by simpa [owner] using hv.entry i
        permit := fun k => by
          by_cases hk : k = h
          · simp [hk, reserved]
          · simp [hk, Ne.symm hk, reserved, hv.permit k]
        cell := fun k => by simpa [Sealed] using hv.cell k
        live := hv.live
        bound := fun i k hm => hv.bound i k (by simpa using hm)
        inj := fun i i' k hm hm' => hv.inj i i' k (by simpa using hm) (by simpa using hm')
        free := fun k hk => by simpa [reserved, hne k hk, Sealed] using hv.free k hk
        exact := fun k => by simpa [placed, returned] using hv.exact k
        ok := ⟨trivial, hc ▸ hread, hv.ok⟩ }
  · -- the chunk goes where the read belongs
    have hret : ∀ k, returned k (.streamRecv id (.ok (chunk, fin)) :: v.hist) =
        if k = h then returned k v.hist ++ [chunk] else returned k v.hist := by
      intro k
      simp [returned, ho, hc, eq_comm]
    simp only [ne_eq, hc, not_false_eq_true, if_true]
    refine
      { entry := fun i => by simpa [owner] using hv.entry i
        permit := fun k => by
          by_cases hk : k = h
          · simp [hk, reserved]
          · simp [hk, Ne.symm hk, reserved, hv.permit k]
        cell := fun k => by simpa [Sealed] using hv.cell k
        live := hv.live
        bound := fun i k hm => hv.bound i k (by simpa using hm)
        inj := fun i i' k hm hm' => hv.inj i i' k (by simpa using hm) (by simpa using hm')
        free := fun k hk => by simpa [reserved, hne k hk, Sealed] using hv.free k hk
        exact := fun k => ?_
        ok := ⟨⟨?_, ?_⟩, hread, hv.ok⟩ }
    · change placed k (.place h chunk :: _) = returned k (.streamRecv id _ :: v.hist)
      rw [hret k]
      by_cases hk : k = h
      · simp [hk, placed, hv.exact h]
      · simp [hk, Ne.symm hk, placed, hv.exact k]
    · rw [hret h, if_pos rfl]
      simp [placed, hv.exact h]
    · have := (hv.cell h).mp (hv.live id h he)
      simpa [Sealed] using this

theorem ends {id h : Nat} {e : RecvEnd} (hv : RecvInv v) (he : v.entry id = some h)
    (hf : e = .fin → ∃ chunk, lastRead id v.hist = some (.ok (chunk, true))) :
    RecvInv ((v.set h e).close id h) := by
  have hcell := hv.live id h he
  have ho : owner id v.hist = some h := (hv.entry id).symm.trans he
  have hset : v.set h e =
      { v with cell := Function.update v.cell h (some e), hist := .recvSet h e :: v.hist } := by
    simp [RecvView.set, hcell]
  rw [hset]
  -- the half leaves the registry in the same move, so no registered half is sealed
  have hother : ∀ i k, i ≠ id → v.entry i = some k → k ≠ h := fun i k hi hk hkh =>
    hi (hv.entry_inj (hkh ▸ hk) he)
  refine
    { entry := fun i => ?_, permit := fun k => ?_, cell := fun k => ?_, live := fun i k hi => ?_
      bound := fun i k hm => hv.bound i k (by simpa [RecvView.close] using hm)
      inj := fun i i' k hm hm' => hv.inj i i' k (by simpa [RecvView.close] using hm)
        (by simpa [RecvView.close] using hm')
      free := fun k hk => ?_
      exact := fun k => by simpa [RecvView.close, placed, returned] using hv.exact k
      ok := ⟨trivial, ?_, hv.ok⟩ }
  · by_cases hi : i = id
    · simp [RecvView.close, hi, owner]
    · simp [RecvView.close, hi, owner, hv.entry i, Ne.symm hi]
  · simpa [RecvView.close, reserved] using hv.permit k
  · by_cases hk : k = h
    · simp only [RecvView.close, hk, Function.update_self, reduceCtorEq, false_iff, not_not]
      exact ⟨e, by simp⟩
    · have := hv.cell k
      simpa [RecvView.close, Function.update_of_ne hk, Sealed, hk] using this
  · by_cases hii : i = id
    · simp [RecvView.close, hii] at hi
    · have hik : v.entry i = some k := by simpa [RecvView.close, hii] using hi
      simpa [RecvView.close, hother i k hii hik] using hv.live i k hik
  · have hne : k ≠ h := ((hv.entry_lt he).trans_le hk).ne'
    simpa [RecvView.close, reserved, Sealed, hne] using hv.free k hk
  · cases e with
    | fin =>
      obtain ⟨chunk, hl⟩ := hf rfl
      exact ⟨id, chunk, ho, hl, hv.exact h⟩
    | reset code => trivial
    | conn t => trivial

/-- **Every move keeps the invariant.** -/
theorem move (hm : v.Move v') (hv : RecvInv v) : RecvInv v' := by
  cases hm with
  | skip tr hg => exact hv.skip hg
  | opens id he => exact hv.opens he
  | close id h he => exact hv.close
  | reserve id h he => exact hv.reserve he
  | readErr id h err he hp => exact hv.readErr he hp
  | readOk id h chunk fin he hp => exact hv.readOk he hp
  | ends id h e he hf => exact hv.ends he hf

theorem moves (hm : v.Moves v') (hv : RecvInv v) : RecvInv v' := by
  induction hm with
  | refl => exact hv
  | tail _ hm ih => exact ih.move hm

end RecvInv

end QuicheH3
