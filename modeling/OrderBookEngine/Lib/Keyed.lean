import Mathlib.Data.List.Nodup
import Mathlib.Data.List.Perm.Basic

/-!
# Lists of keyed records

A list of records with distinct keys, under lookup, removal, and rewriting by key. Each operation is
stated through a cut of the list at the record, or through the list of keys.
-/

namespace OrderBookEngine

namespace Keyed

variable {α β : Type} {key : α → β} {xs : List α} {x : α} {k : β}

/-- Distinct keys tell records apart. -/
theorem eq_of_key (hnd : (xs.map key).Nodup) {y : α} (hx : x ∈ xs) (hy : y ∈ xs)
    (hk : key x = key y) : x = y :=
  List.inj_on_of_nodup_map hnd hx hy hk

/-- Rewriting records under their keys keeps the keys. -/
theorem map_key_modify {f : α → α} (hf : ∀ y ∈ xs, key (f y) = key y) :
    (xs.map f).map key = xs.map key := by
  rw [List.map_map]
  exact List.map_congr_left fun y hy => hf y hy

variable [DecidableEq β]

/-- Lookup finds a record of the list, with the key. -/
theorem find?_spec (h : xs.find? (fun y => key y = k) = some x) : x ∈ xs ∧ key x = k :=
  ⟨List.mem_of_find?_eq_some h, by simpa using List.find?_some h⟩

/-- Lookup fails exactly for a key that is not there. -/
theorem find?_eq_none : xs.find? (fun y => key y = k) = none ↔ k ∉ xs.map key := by
  simp only [List.find?_eq_none, decide_eq_true_eq, List.mem_map, not_exists, not_and]

/-- Removing a key that is not there. -/
theorem filter_ne_of_notMem (h : k ∉ xs.map key) : xs.filter (fun y => key y ≠ k) = xs :=
  List.filter_eq_self.mpr fun y hy => by
    simpa using fun he : key y = k => h (he ▸ List.mem_map_of_mem hy)

/-- Removing a key takes one record out. -/
theorem perm_cons_filter_ne (hnd : (xs.map key).Nodup) (hx : x ∈ xs) :
    xs.Perm (x :: xs.filter fun y => key y ≠ key x) := by
  obtain ⟨before, after, rfl⟩ := List.append_of_mem hx
  rw [List.map_append, List.map_cons] at hnd
  have hout := (List.nodup_cons.mp (List.nodup_middle.mp hnd)).1
  rw [← List.map_append] at hout
  rw [List.filter_append, List.filter_cons_of_neg (by simp), ← List.filter_append,
    filter_ne_of_notMem hout]
  exact List.perm_middle

end Keyed

end OrderBookEngine
