/-
# The receiving end of a channel

A queue of items with senders at one end and one receiver at the other, polled.  A poll takes the
oldest item, reports the end when nothing is queued and no sender is left, and is pending when
nothing is queued.  It may also be pending while items ARE queued: a receiver that takes part in
cooperative scheduling gives up once its task has used up its share.  Such a poll is `spurious`,
and which polls are is not for the caller to choose.
-/
import Mathlib.Data.List.Basic

namespace QuicheH3.Lib

/-- What is queued, and whether the last sender is gone. -/
structure Channel (α : Type) where
  queue : List α
  closed : Bool

/-- The answer of a poll. -/
inductive Polled (α : Type)
  | item (a : α)
  | closed
  | pending

namespace Channel

variable {α : Type}

/-- Nothing is sent once the last sender is gone. -/
def send (c : Channel α) (a : α) : Channel α :=
  if c.closed then c else { c with queue := c.queue ++ [a] }

def close (c : Channel α) : Channel α := { c with closed := true }

def poll (c : Channel α) (spurious : Bool) : Polled α × Channel α :=
  if spurious then (.pending, c)
  else
    match c.queue with
    | a :: rest => (.item a, { c with queue := rest })
    | [] => (if c.closed then .closed else .pending, c)

/-- What an answer tells of the channel. -/
inductive PollSpec (c : Channel α) (spurious : Bool) : Polled α × Channel α → Prop
  | item (a : α) (c' : Channel α) (hq : c.queue = a :: c'.queue) (hc : c'.closed = c.closed) :
      PollSpec c spurious (.item a, c')
  | closed (hq : c.queue = []) (hc : c.closed = true) : PollSpec c spurious (.closed, c)
  | pending (h : spurious = true ∨ c.queue = []) : PollSpec c spurious (.pending, c)

theorem poll_spec (c : Channel α) (spurious : Bool) : PollSpec c spurious (c.poll spurious) := by
  unfold poll
  split
  · rename_i hs
    exact .pending (.inl hs)
  · split
    · rename_i a rest hq
      exact .item a _ hq rfl
    · rename_i hq
      split
      · rename_i hc
        exact .closed hq hc
      · exact .pending (.inr hq)

/-- A send closes nothing. -/
@[simp] theorem send_closed (c : Channel α) (a : α) : (c.send a).closed = c.closed := by
  unfold send
  split <;> rfl

end Channel

end QuicheH3.Lib
