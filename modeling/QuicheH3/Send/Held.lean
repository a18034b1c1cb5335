/-
# A write is held for one opportunity

A write that fits is completed at once and HELD, so that a `Finish` right behind it can put the
FIN on its last chunk.  If nothing follows, the held bytes must leave on their own: before
`wait_for_data` suspends it marks every stream whose held write has nothing behind it.

It does so only in the branch that awaits the channel.  Where the worker yields, because some
other stream keeps `needs_iteration` set, the held write is looked at by nobody.
-/
import QuicheH3.Registry.Cursors
import QuicheH3.Mock

namespace QuicheH3

open Lib

namespace World

variable {σ : Type} {T : QuicConn σ} {w : World σ}

/-! ## 1. The streams that are marked -/

theorem mem_quiescentHeldIds {r : Registry} {id : Nat} : id ∈ quiescentHeldIds r ↔
    ∃ s, r.send.lookup id = some s ∧ StreamSendState.quiescentHeld s = true := by
  unfold quiescentHeldIds
  constructor
  · intro h
    obtain ⟨⟨i, s⟩, hm, rfl⟩ := List.mem_map.mp h
    obtain ⟨he, hq⟩ := List.mem_filter.mp hm
    exact ⟨s, AList.mem_lookup_iff.mpr he, hq⟩
  · rintro ⟨s, hl, hq⟩
    exact List.mem_map.mpr ⟨⟨id, s⟩, List.mem_filter.mpr ⟨AList.mem_lookup_iff.mp hl, hq⟩, rfl⟩

theorem foldl_markSendRunnable (l : List Nat) (r : Registry) :
    l.foldl Registry.markSendRunnable r =
      { r with runnableSend := l.foldl OnceQueue.push r.runnableSend } := by
  induction l generalizing r with
  | nil => rfl
  | cons id l ih =>
    rw [List.foldl_cons, ih]
    rfl

/-- Every held write with nothing behind it is about to be offered. -/
def HeldRunnable (w : World σ) : Prop :=
  ∀ id s, w.reg.send.lookup id = some s → StreamSendState.quiescentHeld s = true →
    id ∈ w.reg.runnableSend.queue

theorem markQuiescent_reg (w : World σ) : w.markQuiescentHeldWritesRunnable.reg =
    (quiescentHeldIds w.reg).foldl Registry.markSendRunnable w.reg := by
  unfold markQuiescentHeldWritesRunnable
  dsimp only
  split <;> rfl

theorem markQuiescent_heldRunnable (h : w.reg.Synced) :
    HeldRunnable w.markQuiescentHeldWritesRunnable := by
  intro id s hl hq
  rw [markQuiescent_reg, foldl_markSendRunnable] at hl ⊢
  exact (h.runnable.mem_foldl_push _ id).mpr (.inl (mem_quiescentHeldIds.mpr ⟨s, hl, hq⟩))

/-! ## 2. `wait_for_data` -/

/-- **When a write is held for one opportunity only.**  No close is issued, and `wait_for_data`
leaves the inbox empty with handles alive: every held write with nothing behind it is runnable
then, exactly when no iteration was owed to other work, or each of them was runnable before the
call. -/
theorem held_runnable_iff (hw : Reachable T w) (hg : w.ctl.gracefulCloseIssued = false)
    (hi : w.waitForData.inbox = []) (hs : w.waitForData.sh.senders ≠ 0) :
    HeldRunnable w.waitForData ↔ w.ctl.needsIteration = false ∨ HeldRunnable w := by
  have hsync := synced_reachable hw
  cases hd : w.waitDecision with
  | pending =>
    unfold waitDecision at hd
    rw [hg] at hd
    split at hd
    · rename_i hf
      cases hf
    · split at hd <;> cases hd
  | yield =>
    -- nothing happens to the registries, and the inbox was empty already
    have hw' : w.waitForData = w.interleave := by
      unfold waitForData
      rw [hd]
    have hn : w.ctl.needsIteration = true := by
      rw [hw'] at hi
      have hi' : w.inbox = [] := hi
      unfold waitDecision at hd
      simpa [hg, hi'] using hd
    rw [hw', hn]
    exact ⟨.inr, fun h => h.resolve_left (by simp)⟩
  | recv =>
    have hn : w.ctl.needsIteration = false := by
      unfold waitDecision at hd
      cases hx : w.ctl.needsIteration with
      | false => rfl
      | true => simp [hg, hx] at hd
    refine ⟨fun _ => .inl hn, fun _ => ?_⟩
    unfold waitForData at hi hs ⊢
    rw [hd] at hi hs ⊢
    dsimp only at hi hs ⊢
    split at hi
    · simp at hi
    · rename_i hcmd
      simp only [hcmd] at hs ⊢
      split at hs
      · rename_i h0
        exact absurd h0 hs
      · rename_i h0
        rw [if_neg h0]
        split
        · exact markQuiescent_heldRunnable (w := w.interleave) hsync
        · rename_i hq
          -- there is no such stream
          intro id s hl hh
          have hm : id ∈ quiescentHeldIds w.reg := mem_quiescentHeldIds.mpr ⟨s, hl, hh⟩
          exact absurd (List.ne_nil_of_mem hm) (by simpa using hq)

/-- A client with two streams: a small write on the second, `bulk` one-byte segments on the
first, for which the transport promises no capacity and takes what it is offered. -/
def twoWriters (bulk : Nat) : World MockConn :=
  (withBuffers false 4 4 8 none
    { streamsLeftBidi := 4, capacity := fun id => .ok (if id = 0 then 0 else 100) } []).run mockConn
    [.front .openBidi, .front .openBidi, .processWrites, .front (.takeReply 0),
      .front (.takeReply 1), .front (.sendData 1 ⟨[[7]], by decide⟩),
      .front (.sendData 0 ⟨List.replicate bulk [1], fun _ hs => by
        rw [List.eq_of_mem_replicate hs]; exact List.cons_ne_nil _ _⟩),
      .processWrites]

theorem twoWriters_flushes : (twoWriters 0).waitForData.reg.runnableSend.queue = [4] ∧
    HeldRunnable (twoWriters 0).waitForData := by
  have hg : (twoWriters 0).ctl.gracefulCloseIssued = false := by decide +kernel
  have hn : (twoWriters 0).ctl.needsIteration = false := by decide +kernel
  refine ⟨by decide +kernel, ?_⟩
  exact (held_runnable_iff (reachable_run ..) hg (by decide +kernel) (by decide +kernel)).mpr
    (.inl hn)

/-- With a bulk write on the first stream the worker yields, and the write held on the second
stream stays where it is. -/
theorem twoWriters_starves :
    let w := twoWriters 40
    w.ctl.gracefulCloseIssued = false ∧ w.waitForData.inbox = [] ∧ w.waitForData.sh.cmdRx = [] ∧
    w.waitForData.sh.senders ≠ 0 ∧ w.waitForData.reg.runnableSend.queue = [0] ∧
    quiescentHeldIds w.waitForData.reg = [4] := by
  decide +kernel

end World

end QuicheH3
