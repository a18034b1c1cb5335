/-
# Send cursor and terminal cell (`buffer.rs`)

`h3`'s `WriteBuf` is a `Buf` of several contiguous segments (frame header, payload).  The
`Buf` contract promises that `chunk` is empty only when nothing remains, so a `WriteBuf` here
carries the proof that no segment is empty; `send_from_buf`'s two `debug_assert`s rest on it.
-/
import Mathlib.Data.List.Basic
import QuicheH3.Error

namespace QuicheH3

/-- `MAX_CHUNK`, the cap on a single read or write. -/
def maxChunk : Nat := 16 * 1024

/-! ## 1. `WriteBuf` -/

/-- The unread part of a write buffer: its segments in order, none of them empty. -/
structure WriteBuf where
  segs : List Bytes
  nonempty : ∀ s ∈ segs, s ≠ []
  deriving DecidableEq

namespace WriteBuf

/-- Everything still to be sent, in order. -/
def bytes (b : WriteBuf) : Bytes := b.segs.flatten

def remaining (b : WriteBuf) : Nat := b.bytes.length

def hasRemaining (b : WriteBuf) : Bool := 0 < b.remaining

/-- The current contiguous segment. -/
def chunk (b : WriteBuf) : Bytes := b.segs.headD []

/-- Drop `n` bytes from the front, walking across segments. -/
def advanceSegs : Nat → List Bytes → List Bytes
  | _, [] => []
  | n, s :: rest => if n < s.length then s.drop n :: rest else advanceSegs (n - s.length) rest

theorem advanceSegs_ne_nil : ∀ (n : Nat) (l : List Bytes), (∀ s ∈ l, s ≠ []) →
    ∀ s ∈ advanceSegs n l, s ≠ []
  | _, [], _ => by simp [advanceSegs]
  | n, s :: rest, h => by
    unfold advanceSegs
    split
    · rename_i hn
      intro t ht
      rcases List.mem_cons.mp ht with rfl | ht
      · exact fun h0 => absurd (List.drop_eq_nil_iff.mp h0) (by omega)
      · exact h t (List.mem_cons_of_mem _ ht)
    · exact advanceSegs_ne_nil _ rest fun t ht => h t (List.mem_cons_of_mem _ ht)

/-- `Buf::advance`. -/
def advance (b : WriteBuf) (n : Nat) : WriteBuf :=
  ⟨advanceSegs n b.segs, advanceSegs_ne_nil n b.segs b.nonempty⟩

theorem flatten_advanceSegs : ∀ (n : Nat) (l : List Bytes),
    (advanceSegs n l).flatten = l.flatten.drop n
  | n, [] => by simp [advanceSegs]
  | n, s :: rest => by
    unfold advanceSegs
    split
    · rename_i hn
      rw [List.flatten_cons, List.flatten_cons, List.drop_append_of_le_length (by omega)]
    · rename_i hn
      have hs : s.drop n = [] := List.drop_of_length_le (by omega)
      rw [flatten_advanceSegs, List.flatten_cons, List.drop_append, hs, List.nil_append]

@[simp] theorem bytes_advance (b : WriteBuf) (n : Nat) :
    (b.advance n).bytes = b.bytes.drop n := flatten_advanceSegs n b.segs

/-- The first segment is where the remaining bytes start. -/
theorem bytes_eq_chunk_append (b : WriteBuf) : ∃ rest, b.bytes = b.chunk ++ rest := by
  obtain ⟨segs, hne⟩ := b
  cases segs with
  | nil => exact ⟨[], rfl⟩
  | cons s rest => exact ⟨rest.flatten, rfl⟩

/-- The `Buf` contract: something remains exactly when the current chunk is not empty. -/
theorem chunk_eq_nil_iff (b : WriteBuf) : b.chunk = [] ↔ b.bytes = [] := by
  obtain ⟨segs, hne⟩ := b
  cases segs with
  | nil => simp [chunk, bytes]
  | cons s rest =>
    have hs : s ≠ [] := hne s List.mem_cons_self
    simp [chunk, bytes, hs]

theorem hasRemaining_iff (b : WriteBuf) : b.hasRemaining = true ↔ b.bytes ≠ [] := by
  simp [hasRemaining, remaining, List.length_pos_iff]

end WriteBuf

/-! ## 2. `send_from_buf` -/

/-- Drive one `stream_send` turn: offer the current chunk to `sink` and advance the cursor by
what it accepted.  `ω` is whatever state the sink works on. -/
def sendFromBuf {ω : Type} (buf : WriteBuf) (sink : Bytes → ω → Except QuicheError Nat × ω)
    (w : ω) : Except QuicheError Nat × WriteBuf × ω :=
  if buf.hasRemaining then
    match sink buf.chunk w with
    | (.ok written, w') => (.ok written, buf.advance written, w')
    | (.error err, w') => (.error err, buf, w')
  else (.ok 0, buf, w)

/-! ## 3. `TerminalCell` -/

/-- `TerminalCell::set` on the stored value: first writer wins. -/
def cellSet {α : Type} (cell : Option α) (value : α) : Option α :=
  match cell with
  | some v => some v
  | none => some value

@[simp] theorem cellSet_none {α : Type} (v : α) : cellSet none v = some v := rfl

@[simp] theorem cellSet_some {α : Type} (u v : α) : cellSet (some u) v = some u := rfl

/-! ## 4. `SendAccounting` -/

/-- `SendAccounting::try_reserve` on the resident bytes: the new residency if `bytes` more are
admitted, `none` if the write has to wait.  Whatever its size, a write is admitted when nothing
is resident. -/
def tryReserve (cap : Option Nat) (resident bytes : Nat) : Option Nat :=
  let next := resident + bytes
  if 2 ^ 64 ≤ next then none
  else
    match cap with
    | some cap => if 0 < bytes ∧ cap < next ∧ resident ≠ 0 then none else some next
    | none => some next

theorem tryReserve_eq_some {cap : Option Nat} {resident bytes next : Nat}
    (h : tryReserve cap resident bytes = some next) : next = resident + bytes := by
  unfold tryReserve at h
  dsimp only at h
  split at h
  · cases h
  · split at h
    · split at h
      · cases h
      · exact (Option.some.inj h).symm
    · exact (Option.some.inj h).symm

/-- A write that fits a `usize` is refused only while something is resident. -/
theorem resident_ne_zero_of_refused {cap : Option Nat} {resident bytes : Nat}
    (hb : bytes < 2 ^ 64) (h : tryReserve cap resident bytes = none) : resident ≠ 0 := by
  rintro rfl
  unfold tryReserve at h
  rw [Nat.zero_add] at h
  dsimp only at h
  rw [if_neg (by omega)] at h
  cases cap <;> simp at h

end QuicheH3
