import OrderBookEngine.Lib.SortedMap

/-!
# Lists under the keys of an ordered map

A map from keys to lists, read as one list of pairs: key by key, and each list in its own order
(`flat`). An element that is pushed under a key goes behind all the elements whose keys are not larger
(`flat_pushBack`), and one that is removed leaves the others in their places (`flat_removeFrom`).
-/

namespace OrderBookEngine

namespace SortedMap

variable {κ α : Type} {lt : κ → κ → Prop}

/-- The elements with their keys, in iteration order. -/
def flat (m : SortedMap κ (List α) lt) : List (κ × α) :=
  m.entries.flatMap fun e => e.2.map (Prod.mk e.1)

/-- The elements of a map cut at a key. -/
theorem flat_of_split {m : SortedMap κ (List α) lt} {k : κ} {as : List α}
    {before after : List (κ × List α)} (h : m.entries = before ++ (k, as) :: after) :
    m.flat = before.flatMap (fun e => e.2.map (Prod.mk e.1)) ++ as.map (Prod.mk k) ++
      after.flatMap fun e => e.2.map (Prod.mk e.1) := by
  unfold flat
  rw [h, List.flatMap_append, List.flatMap_cons, List.append_assoc]

/-- The keys of some lists' elements are those of the lists. -/
theorem forall_mem_flatMap {es : List (κ × List α)} {P : κ → Prop} (h : ∀ e ∈ es, P e.1) :
    ∀ x ∈ es.flatMap (fun e => e.2.map (Prod.mk e.1)), P x.1 := by
  intro x hx
  obtain ⟨e, he, hxe⟩ := List.mem_flatMap.mp hx
  obtain ⟨a, -, rfl⟩ := List.mem_map.mp hxe
  exact h e he

variable [DecidableEq κ]

/-- `map[key].push_back(a)`. -/
def pushBack [IsStrictTotalOrder κ lt] [DecidableRel lt] (m : SortedMap κ (List α) lt) (k : κ) (a : α) :
    SortedMap κ (List α) lt :=
  (m.emplace k []).modify k (· ++ [a])

/-- An element is removed from the list under a key, and the key with its last element. -/
def removeFrom [DecidableEq α] (m : SortedMap κ (List α) lt) (k : κ) (a : α) : SortedMap κ (List α) lt :=
  match m.find? k with
  | none => m
  | some as =>
    let rest := as.filter (· ≠ a)
    if rest = [] then m.erase k else m.modify k fun _ => rest

/-- A pushed element goes behind the keys that are not larger than its own. -/
theorem flat_pushBack [IsStrictTotalOrder κ lt] [DecidableRel lt] (m : SortedMap κ (List α) lt) (k : κ)
    (a : α) : ∃ before after, m.flat = before ++ after ∧ (m.pushBack k a).flat = before ++ (k, a) :: after ∧
      (∀ x ∈ before, ¬ lt k x.1) ∧ ∀ x ∈ after, lt k x.1 := by
  have hasymm : ∀ {k' : κ}, lt k' k → ¬ lt k k' := fun hlt hgt => asymm_of lt hlt hgt
  by_cases hk : ∃ as, (k, as) ∈ m.entries
  · -- The list of the key grows at its back.
    obtain ⟨as, has⟩ := hk
    obtain ⟨before, after, hsplit⟩ := exists_split has
    obtain ⟨hbefore, hafter⟩ := lt_of_split hsplit
    have hpushed : (m.pushBack k a).entries = before ++ (k, as ++ [a]) :: after := by
      unfold pushBack
      rw [emplace_of_mem [] has, entries_modify hsplit]
    refine ⟨before.flatMap (fun e => e.2.map (Prod.mk e.1)) ++ as.map (Prod.mk k), _,
      flat_of_split hsplit, ?_, fun x hx => ?_, forall_mem_flatMap hafter⟩
    · rw [flat_of_split hpushed, List.map_append, List.append_assoc, List.append_assoc, List.append_assoc]
      rfl
    · rcases List.mem_append.mp hx with hx | hx
      · exact hasymm (forall_mem_flatMap (P := fun k' => lt k' k) hbefore x hx)
      · obtain ⟨a', -, rfl⟩ := List.mem_map.mp hx
        exact irrefl_of lt k
  · -- The key gets a list of its own.
    have hnew : ∀ e ∈ m.entries, e.1 ≠ k := fun e he heq => hk ⟨e.2, heq ▸ he⟩
    obtain ⟨before, after, hsplit, hbefore, hafter, hemplaced⟩ := entries_emplace [] hnew
    have hpushed : (m.pushBack k a).entries = before ++ (k, [] ++ [a]) :: after := by
      unfold pushBack
      rw [entries_modify hemplaced]
    refine ⟨before.flatMap fun e => e.2.map (Prod.mk e.1), after.flatMap fun e => e.2.map (Prod.mk e.1),
      ?_, ?_, fun x hx => hasymm (forall_mem_flatMap (P := fun k' => lt k' k) hbefore x hx), forall_mem_flatMap hafter⟩
    · unfold flat
      rw [hsplit, List.flatMap_append]
    · rw [flat_of_split hpushed, List.append_assoc]
      rfl

/-- A removed element is gone from under its key, and nothing else is. -/
theorem flat_removeFrom [Std.Irrefl lt] [DecidableEq α] (m : SortedMap κ (List α) lt) (k : κ) (a : α) :
    (m.removeFrom k a).flat = m.flat.filter fun x => x ≠ (k, a) := by
  -- The lists of the other keys keep their elements.
  have hother : ∀ es : List (κ × List α), (∀ e ∈ es, e.1 ≠ k) →
      (es.flatMap fun e => e.2.map (Prod.mk e.1)).filter (fun x => x ≠ (k, a)) =
        es.flatMap fun e => e.2.map (Prod.mk e.1) := by
    intro es hes
    refine List.filter_eq_self.mpr fun x hx => ?_
    have hne := forall_mem_flatMap (P := fun k' => k' ≠ k) hes x hx
    exact decide_eq_true fun heq => hne (congrArg Prod.fst heq)
  unfold removeFrom
  cases hfind : m.find? k with
  | none => exact (hother m.entries (find?_eq_none.mp hfind)).symm
  | some as =>
    obtain ⟨before, after, hsplit⟩ := exists_split (find?_eq_some.mp hfind)
    obtain ⟨hbefore, hafter⟩ := ne_of_split hsplit
    have hlist : (as.map (Prod.mk k)).filter (fun x => x ≠ (k, a)) =
        (as.filter (· ≠ a)).map (Prod.mk k) := by
      rw [List.filter_map]
      congr 1
      exact List.filter_congr fun a' _ => by simp
    rw [flat_of_split hsplit, List.filter_append, List.filter_append, hother before hbefore,
      hother after hafter, hlist]
    simp only
    split_ifs with hempty
    · unfold flat
      rw [entries_erase hsplit, hempty, List.flatMap_append, List.map_nil, List.append_nil]
    · rw [flat_of_split (entries_modify hsplit _)]

end SortedMap

end OrderBookEngine
