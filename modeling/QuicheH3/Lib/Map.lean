/-
# Finite maps read as functions

A registry is an association list without duplicate keys.  Seen through `lookup` it is a
partial function, and the two operations on it are updates of that function.
-/
import Mathlib.Data.List.AList
import Mathlib.Logic.Function.Basic

namespace QuicheH3.Lib

variable {α V : Type} [DecidableEq α]

theorem lookup_insert (m : AList fun _ : α => V) (k : α) (v : V) :
    (m.insert k v).lookup = Function.update (fun i => m.lookup i) k (some v) := by
  funext i
  by_cases hi : i = k
  · subst hi
    rw [AList.lookup_insert, Function.update_self]
  · rw [AList.lookup_insert_ne hi, Function.update_of_ne hi]

theorem lookup_erase (m : AList fun _ : α => V) (k : α) :
    (m.erase k).lookup = Function.update (fun i => m.lookup i) k none := by
  funext i
  by_cases hi : i = k
  · subst hi
    rw [AList.lookup_erase, Function.update_self]
  · rw [AList.lookup_erase_ne hi, Function.update_of_ne hi]

end QuicheH3.Lib
