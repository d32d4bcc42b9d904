import Mathlib.Data.List.Pairwise
import Mathlib.Data.List.TakeWhile
import Mathlib.Data.List.Basic
import Mathlib.Order.Defs.Unbundled

/-!
# Ordered maps as sorted lists of entries

`SortedMap κ ν lt` is the ordered map of a C++ program (`std::map<κ, ν, lt>`): its entries in
iteration order, with the proof that the keys increase strictly. A map that is out of order, or that
holds a key twice, cannot be built. The operations are `find?`, `emplace` (which does nothing when
the key is taken), `insertOrAssign`, `modify`, `erase`, and `filter` for a range erase.

The lemmas come in two forms. `find?_*` says what a later lookup returns. `exists_split` cuts the
entries at a key, and `entries_*` says what an operation makes of a cut list, which is the form a
proof about the iteration order needs.
-/

namespace OrderBookEngine

/-- Entries sorted by strictly increasing key. -/
structure SortedMap (κ ν : Type) (lt : κ → κ → Prop) where
  /-- The entries, in iteration order. -/
  entries : List (κ × ν)
  /-- The keys increase strictly along the iteration. -/
  sorted : entries.Pairwise fun a b => lt a.1 b.1

namespace SortedMap

variable {κ ν : Type} {lt : κ → κ → Prop}

/-- The map without entries. -/
def empty : SortedMap κ ν lt := ⟨[], List.Pairwise.nil⟩

/-- The empty map has no entries. -/
@[simp] theorem entries_empty : (empty : SortedMap κ ν lt).entries = [] := rfl

/-- A map is its entries. -/
@[ext] theorem ext {m m' : SortedMap κ ν lt} (h : m.entries = m'.entries) : m = m' := by
  cases m
  cases m'
  simp only at h
  subst h
  rfl

/-! ## Operations -/

/-- The value stored under a key. -/
def find? [DecidableEq κ] (m : SortedMap κ ν lt) (k : κ) : Option ν :=
  (m.entries.find? fun e => e.1 = k).map Prod.snd

/-- The map without the entries that fail a test. -/
def filter (m : SortedMap κ ν lt) (p : κ × ν → Bool) : SortedMap κ ν lt :=
  ⟨m.entries.filter p, m.sorted.filter _⟩

/-- The map without a key. -/
def erase [DecidableEq κ] (m : SortedMap κ ν lt) (k : κ) : SortedMap κ ν lt :=
  m.filter fun e => e.1 ≠ k

/-- The map with the value under a key rewritten. -/
def modify [DecidableEq κ] (m : SortedMap κ ν lt) (k : κ) (f : ν → ν) : SortedMap κ ν lt where
  entries := m.entries.map fun e => if e.1 = k then (e.1, f e.2) else e
  sorted := by
    refine List.pairwise_map.mpr (m.sorted.imp fun {a b} h => ?_)
    split_ifs <;> exact h

/-- A strictly sorted list stays so with an entry put at its place, if its key is not taken. -/
theorem sorted_insert [IsStrictTotalOrder κ lt] [DecidableRel lt] {es : List (κ × ν)} {k : κ}
    (v : ν) (h : es.Pairwise fun a b => lt a.1 b.1) (hk : ∀ e ∈ es, e.1 ≠ k) :
    (es.takeWhile (fun e => lt e.1 k) ++ (k, v) :: es.dropWhile (fun e => lt e.1 k)).Pairwise
      fun a b => lt a.1 b.1 := by
  have hbefore : ∀ e ∈ es.takeWhile (fun e => lt e.1 k), lt e.1 k := fun e he => by
    simpa using List.mem_takeWhile_imp he
  have hafter : ∀ e ∈ es.dropWhile (fun e => lt e.1 k), lt k e.1 := by
    clear hbefore
    induction es with
    | nil => simp
    | cons a es ih =>
      obtain ⟨ha, hes⟩ := List.pairwise_cons.mp h
      by_cases hak : lt a.1 k
      · rw [List.dropWhile_cons_of_pos (by simpa using hak)]
        exact ih hes fun e he => hk e (List.mem_cons_of_mem _ he)
      · rw [List.dropWhile_cons_of_neg (by simpa using hak)]
        -- The first key that is not before the new one is behind it, as it is not the same.
        have hka : lt k a.1 := by
          rcases trichotomous_of lt a.1 k with h | h | h
          · exact absurd h hak
          · exact absurd h (hk a List.mem_cons_self)
          · exact h
        intro e he
        rcases List.mem_cons.mp he with rfl | he
        · exact hka
        · exact IsTrans.trans _ _ _ hka (ha e he)
  refine List.pairwise_append.mpr ⟨h.sublist (List.takeWhile_sublist _), ?_, ?_⟩
  · exact List.pairwise_cons.mpr ⟨hafter, h.sublist (List.dropWhile_sublist _)⟩
  · intro a ha b hb
    rcases List.mem_cons.mp hb with rfl | hb
    · exact hbefore a ha
    · exact IsTrans.trans _ _ _ (hbefore a ha) (hafter b hb)

/-- `emplace` and `insert` of `std::map`: the entry is added if its key is not taken. -/
def emplace [DecidableEq κ] [IsStrictTotalOrder κ lt] [DecidableRel lt] (m : SortedMap κ ν lt)
    (k : κ) (v : ν) : SortedMap κ ν lt :=
  if h : ∀ e ∈ m.entries, e.1 ≠ k then
    ⟨m.entries.takeWhile (fun e => lt e.1 k) ++ (k, v) :: m.entries.dropWhile (fun e => lt e.1 k),
      sorted_insert v m.sorted h⟩
  else m

/-- `map[key] = value`. -/
def insertOrAssign [DecidableEq κ] [IsStrictTotalOrder κ lt] [DecidableRel lt] (m : SortedMap κ ν lt)
    (k : κ) (v : ν) : SortedMap κ ν lt :=
  (m.emplace k v).modify k fun _ => v

/-! ## Lookup -/

/-- The keys on either side of a cut are smaller and larger. -/
theorem lt_of_split {m : SortedMap κ ν lt} {k : κ} {v : ν} {before after : List (κ × ν)}
    (h : m.entries = before ++ (k, v) :: after) :
    (∀ e ∈ before, lt e.1 k) ∧ ∀ e ∈ after, lt k e.1 := by
  have hs := m.sorted
  rw [h] at hs
  obtain ⟨-, hcons, hcross⟩ := List.pairwise_append.mp hs
  exact ⟨fun e he => hcross e he (k, v) List.mem_cons_self,
    fun e he => List.rel_of_pairwise_cons hcons he⟩

/-- The entries cut at a stored key. -/
theorem exists_split {m : SortedMap κ ν lt} {k : κ} {v : ν} (h : (k, v) ∈ m.entries) :
    ∃ before after, m.entries = before ++ (k, v) :: after :=
  List.append_of_mem h

/-- The key of a cut occurs on neither side of it. -/
theorem ne_of_split [Std.Irrefl lt] {m : SortedMap κ ν lt} {k : κ} {v : ν}
    {before after : List (κ × ν)} (h : m.entries = before ++ (k, v) :: after) :
    (∀ e ∈ before, e.1 ≠ k) ∧ ∀ e ∈ after, e.1 ≠ k := by
  obtain ⟨hb, ha⟩ := lt_of_split h
  refine ⟨fun e he hek => ?_, fun e he hek => ?_⟩
  · exact irrefl_of lt k (hek ▸ hb e he)
  · exact irrefl_of lt k (hek ▸ ha e he)

section Find

variable [DecidableEq κ]

/-- Lookup fails exactly when no entry has the key. -/
theorem find?_eq_none {m : SortedMap κ ν lt} {k : κ} :
    m.find? k = none ↔ ∀ e ∈ m.entries, e.1 ≠ k := by
  simp [find?, List.find?_eq_none]

/-- Lookup finds exactly the stored entries. -/
theorem find?_eq_some [Std.Irrefl lt] {m : SortedMap κ ν lt} {k : κ} {v : ν} :
    m.find? k = some v ↔ (k, v) ∈ m.entries := by
  constructor
  · intro h
    obtain ⟨e, he, rfl⟩ := Option.map_eq_some_iff.mp h
    have hk : e.1 = k := by simpa using List.find?_some he
    subst hk
    exact List.mem_of_find?_eq_some he
  · intro h
    obtain ⟨before, after, hsplit⟩ := exists_split h
    have hb : before.find? (fun e => e.1 = k) = none :=
      List.find?_eq_none.mpr fun e he => by simpa using (ne_of_split hsplit).1 e he
    rw [find?, hsplit, List.find?_append, hb]
    simp

end Find

/-! ## What the operations make of the entries -/

/-- The entries of a filtered map. -/
@[simp] theorem entries_filter (m : SortedMap κ ν lt) (p : κ × ν → Bool) :
    (m.filter p).entries = m.entries.filter p := rfl

section Entries

variable [DecidableEq κ]

/-- Erasing a stored key closes the list over it. -/
theorem entries_erase [Std.Irrefl lt] {m : SortedMap κ ν lt} {k : κ} {v : ν}
    {before after : List (κ × ν)} (h : m.entries = before ++ (k, v) :: after) :
    (m.erase k).entries = before ++ after := by
  obtain ⟨hb, ha⟩ := ne_of_split h
  rw [erase, entries_filter, h, List.filter_append, List.filter_cons_of_neg (by simp),
    List.filter_eq_self.mpr fun e he => by simpa using hb e he,
    List.filter_eq_self.mpr fun e he => by simpa using ha e he]

/-- Modifying a stored key rewrites its value in place. -/
theorem entries_modify [Std.Irrefl lt] {m : SortedMap κ ν lt} {k : κ} {v : ν}
    {before after : List (κ × ν)} (h : m.entries = before ++ (k, v) :: after) (f : ν → ν) :
    (m.modify k f).entries = before ++ (k, f v) :: after := by
  obtain ⟨hb, ha⟩ := ne_of_split h
  have hmap : ∀ es : List (κ × ν), (∀ e ∈ es, e.1 ≠ k) →
      es.map (fun e => if e.1 = k then (e.1, f e.2) else e) = es := fun es hes =>
    (List.map_congr_left fun e he => if_neg (hes e he)).trans (List.map_id _)
  simp only [modify, h, List.map_append, List.map_cons, if_true, hmap before hb, hmap after ha]

/-- A key that is not stored has a place between the smaller and the larger ones, and `emplace`
puts its entry there. -/
theorem entries_emplace [IsStrictTotalOrder κ lt] [DecidableRel lt] {m : SortedMap κ ν lt} {k : κ}
    (v : ν) (h : ∀ e ∈ m.entries, e.1 ≠ k) :
    ∃ before after, m.entries = before ++ after ∧ (∀ e ∈ before, lt e.1 k) ∧
      (∀ e ∈ after, lt k e.1) ∧ (m.emplace k v).entries = before ++ (k, v) :: after := by
  have hs := sorted_insert v m.sorted h
  obtain ⟨-, hcons, hcross⟩ := List.pairwise_append.mp hs
  refine ⟨m.entries.takeWhile (fun e => lt e.1 k), m.entries.dropWhile (fun e => lt e.1 k),
    (List.takeWhile_append_dropWhile).symm, fun e he => hcross e he _ List.mem_cons_self,
    fun e he => List.rel_of_pairwise_cons hcons he, ?_⟩
  rw [emplace, dif_pos h]

/-- A key that is taken keeps its value. -/
theorem emplace_of_mem [IsStrictTotalOrder κ lt] [DecidableRel lt] {m : SortedMap κ ν lt} {k : κ}
    {w : ν} (v : ν) (h : (k, w) ∈ m.entries) : m.emplace k v = m := by
  rw [emplace, dif_neg fun hne => hne _ h rfl]

/-- A new key adds its entry. -/
theorem mem_entries_emplace [IsStrictTotalOrder κ lt] [DecidableRel lt] {m : SortedMap κ ν lt}
    {k : κ} {v : ν} (h : ∀ e ∈ m.entries, e.1 ≠ k) {e : κ × ν} :
    e ∈ (m.emplace k v).entries ↔ e = (k, v) ∨ e ∈ m.entries := by
  obtain ⟨before, after, hm, -, -, he⟩ := entries_emplace v h
  rw [he, hm]
  simp only [List.mem_append, List.mem_cons]
  tauto

/-- An assigned key has the value, and the other keys keep theirs. -/
theorem mem_entries_insertOrAssign [IsStrictTotalOrder κ lt] [DecidableRel lt] {m : SortedMap κ ν lt}
    {k k' : κ} {v v' : ν} : (k', v') ∈ (m.insertOrAssign k v).entries ↔
      k' = k ∧ v' = v ∨ k' ≠ k ∧ (k', v') ∈ m.entries := by
  have hassigned : ∀ {before after : List (κ × ν)}, m.entries.filter (fun e => e.1 ≠ k) = before ++ after →
      (m.insertOrAssign k v).entries = before ++ (k, v) :: after →
      ((k', v') ∈ (m.insertOrAssign k v).entries ↔ k' = k ∧ v' = v ∨ k' ≠ k ∧ (k', v') ∈ m.entries) := by
    intro before after hother hentries
    have hmem : k' ≠ k ∧ (k', v') ∈ m.entries ↔ (k', v') ∈ before ++ after := by
      rw [← hother, List.mem_filter]
      simp [and_comm]
    rw [hentries, hmem]
    simp only [List.mem_append, List.mem_cons, Prod.mk.injEq]
    tauto
  -- Either way the key goes between the entries of the others.
  by_cases hk : ∃ w, (k, w) ∈ m.entries
  · obtain ⟨w, hw⟩ := hk
    obtain ⟨before, after, hsplit⟩ := exists_split hw
    have herased : (m.erase k).entries = before ++ after := entries_erase hsplit
    refine hassigned herased ?_
    unfold insertOrAssign
    rw [emplace_of_mem v hw, entries_modify hsplit]
  · have hnew : ∀ e ∈ m.entries, e.1 ≠ k := fun e he heq => hk ⟨e.2, heq ▸ he⟩
    obtain ⟨before, after, hsplit, -, -, hemplaced⟩ := entries_emplace v hnew
    have hkeep : m.entries.filter (fun e => e.1 ≠ k) = before ++ after := by
      rw [← hsplit]
      exact List.filter_eq_self.mpr fun e he => by simpa using hnew e he
    refine hassigned hkeep ?_
    unfold insertOrAssign
    rw [entries_modify hemplaced]

/-- Erasing a key removes its entry. -/
theorem mem_entries_erase {m : SortedMap κ ν lt} {k : κ} {e : κ × ν} :
    e ∈ (m.erase k).entries ↔ e ∈ m.entries ∧ e.1 ≠ k := by
  simp [erase]

end Entries

end SortedMap

end OrderBookEngine
