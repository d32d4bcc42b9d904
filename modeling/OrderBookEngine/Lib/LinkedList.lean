import Mathlib.Data.List.Chain
import Mathlib.Data.List.Nodup
import Mathlib.Logic.Function.Basic

/-!
# Intrusive linked lists

Linked lists threaded through the link fields of nodes, over an arbitrary type of node addresses.
`next` and `prev` are the link fields as functions of the address, so that nothing here depends on
what else a node holds.

* `Threaded next head xs`: following `next` from `head` visits `xs` and ends in a null link. `follow`
  is the loop that visits it.
* `Linked next prev xs`: `xs` is a doubly linked list, the first `prev` and the last `next` null.
  `Linked.unlink` and `Linked.concat` are its two edits.

Both only read the links of their own nodes (`Threaded.congr`, `Linked.congr`), so an edit of one
list leaves every disjoint list alone.
-/

namespace OrderBookEngine

variable {P : Type}

/-! ## Singly linked lists -/

/-- Following `next` from `head` visits exactly `xs`. -/
def Threaded (next : P → Option P) : Option P → List P → Prop
  | head, [] => head = none
  | head, x :: xs => head = some x ∧ Threaded next (next x) xs

/-- The addresses that a loop over `next` visits from `head`, in at most `fuel` steps. -/
def follow (next : P → Option P) : ℕ → Option P → List P
  | 0, _ => []
  | _ + 1, none => []
  | fuel + 1, some x => x :: follow next fuel (next x)

/-- The head points to the first address. -/
theorem Threaded.head_eq {next : P → Option P} {head : Option P} {xs : List P}
    (h : Threaded next head xs) : head = xs.head? := by
  cases xs with
  | nil => exact h
  | cons x xs => exact h.1

/-- A list only depends on the links of its own addresses. -/
theorem Threaded.congr {next next' : P → Option P} {head : Option P} {xs : List P}
    (h : Threaded next head xs) (hn : ∀ x ∈ xs, next' x = next x) : Threaded next' head xs := by
  induction xs generalizing head with
  | nil => exact h
  | cons x xs ih =>
    refine ⟨h.1, ?_⟩
    rw [hn x List.mem_cons_self]
    exact ih h.2 fun y hy => hn y (List.mem_cons_of_mem _ hy)

/-- With enough fuel for its length, the loop visits the whole list. -/
theorem Threaded.follow_eq {next : P → Option P} {head : Option P} {xs : List P}
    (h : Threaded next head xs) {fuel : ℕ} (hf : xs.length ≤ fuel) :
    follow next fuel head = xs := by
  induction xs generalizing head fuel with
  | nil =>
    obtain rfl : head = none := h
    cases fuel <;> rfl
  | cons x xs ih =>
    obtain ⟨rfl, hx⟩ := h
    cases fuel with
    | zero => simp at hf
    | succ fuel => rw [follow, ih hx (by simpa using hf)]

/-! ## Doubly linked lists -/

/-- Neighbours in a doubly linked list point at each other; `none` stands for either end. -/
def Neighbours (next prev : P → Option P) (a b : Option P) : Prop :=
  (∀ p ∈ a, next p = b) ∧ ∀ q ∈ b, prev q = a

/-- `xs` is a doubly linked list. -/
def Linked (next prev : P → Option P) (xs : List P) : Prop :=
  (none :: xs.map some ++ [none]).IsChain (Neighbours next prev)

/-- A relation that holds along a chain may be replaced by one that holds of its neighbours. -/
theorem isChain_of_imp {α : Type} {R S : α → α → Prop} {l : List α} (h : l.IsChain R)
    (hRS : ∀ a ∈ l.dropLast, ∀ b ∈ l.tail, R a b → S a b) : l.IsChain S := by
  induction l with
  | nil => exact List.IsChain.nil
  | cons a l ih =>
    cases l with
    | nil => exact List.IsChain.singleton a
    | cons b l =>
      rw [List.isChain_cons_cons] at h ⊢
      refine ⟨hRS a (by simp) b (by simp) h.1, ih h.2 fun x hx y hy => hRS x ?_ y ?_⟩
      · rw [List.dropLast_cons_of_ne_nil (by simp)]
        exact List.mem_cons_of_mem _ hx
      · exact List.mem_cons_of_mem _ hy

/-- Two lists in a row are linked up to the seam, across it, and from it on. -/
theorem linked_append {next prev : P → Option P} {xs ys : List P} :
    Linked next prev (xs ++ ys) ↔
      (none :: xs.map some).IsChain (Neighbours next prev) ∧
        (ys.map some ++ [none]).IsChain (Neighbours next prev) ∧
        Neighbours next prev xs.getLast? ys.head? := by
  have hlast : (none :: xs.map some).getLast? = some xs.getLast? := by
    rcases List.eq_nil_or_concat xs with rfl | ⟨xs', x, rfl⟩
    · rfl
    · rw [List.concat_eq_append, List.map_append, ← List.cons_append, List.getLast?_append]
      simp
  have hhead : (ys.map some ++ [none]).head? = some ys.head? := by cases ys <;> simp
  rw [Linked, List.map_append, ← List.cons_append, List.append_assoc, List.isChain_append, hlast,
    hhead]
  simp

/-- A doubly linked list cut at one of its nodes. -/
theorem linked_append_cons {next prev : P → Option P} {xs ys : List P} {y : P} :
    Linked next prev (xs ++ y :: ys) ↔
      (none :: xs.map some).IsChain (Neighbours next prev) ∧
        (ys.map some ++ [none]).IsChain (Neighbours next prev) ∧
        Neighbours next prev xs.getLast? (some y) ∧ Neighbours next prev (some y) ys.head? := by
  have hhead : (ys.map some ++ [none]).head? = some ys.head? := by cases ys <;> simp
  have hcons : ((y :: ys).map some ++ [none]).IsChain (Neighbours next prev) ↔
      Neighbours next prev (some y) ys.head? ∧
        (ys.map some ++ [none]).IsChain (Neighbours next prev) := by
    rw [List.map_cons, List.cons_append, List.isChain_cons, hhead]
    simp
  rw [linked_append, hcons]
  simp only [List.head?_cons]
  tauto

section Linked

variable {next prev next' prev' : P → Option P} {xs ys : List P} {y : P}

/-- The empty list has no links. -/
@[simp] theorem linked_nil : Linked next prev [] := by simp [Linked, Neighbours]

/-- A list only depends on the links of its own addresses. -/
theorem Linked.congr (h : Linked next prev xs) (hn : ∀ x ∈ xs, next' x = next x)
    (hp : ∀ x ∈ xs, prev' x = prev x) : Linked next' prev' xs := by
  refine isChain_of_imp h fun a ha b hb hab => ⟨?_, ?_⟩
  · rintro p rfl
    rw [hn p (by simpa using List.dropLast_subset _ ha), hab.1 p rfl]
  · rintro q rfl
    rw [hp q (by simpa using hb), hab.2 q rfl]

/-- The back link of an address is the one before it. -/
theorem Linked.prev_eq (h : Linked next prev (xs ++ y :: ys)) : prev y = xs.getLast? :=
  (linked_append_cons.mp h).2.2.1.2 y rfl

/-- The forward link of an address is the one behind it. -/
theorem Linked.next_eq (h : Linked next prev (xs ++ y :: ys)) : next y = ys.head? :=
  (linked_append_cons.mp h).2.2.2.1 y rfl

/-- A doubly linked list is threaded through its `next` links. -/
theorem Linked.threaded (h : Linked next prev xs) : Threaded next xs.head? xs := by
  have key : ∀ (ys : List P) (a : Option P),
      (a :: (ys.map some ++ [none])).IsChain (Neighbours next prev) →
      Threaded next ys.head? ys := by
    intro ys
    induction ys with
    | nil => intros; rfl
    | cons y ys ih =>
      intro a ha
      have hy := (List.isChain_cons_cons.mp ha).2
      have hnext : next y = ys.head? := by
        cases ys with
        | nil => exact (List.isChain_cons_cons.mp hy).1.1 y rfl
        | cons z zs => exact (List.isChain_cons_cons.mp hy).1.1 y rfl
      exact ⟨rfl, hnext ▸ ih (some y) hy⟩
  exact key xs none h

/-- The part of a list before a node, with the link that leaves it rewritten. -/
theorem isChain_before (h : (none :: xs.map some).IsChain (Neighbours next prev)) (hxs : xs.Nodup)
    (hn : ∀ x ∈ xs, some x ≠ xs.getLast? → next' x = next x)
    (hp : ∀ x ∈ xs, prev' x = prev x) : (none :: xs.map some).IsChain (Neighbours next' prev') := by
  refine isChain_of_imp h fun a ha b hb hab => ⟨?_, ?_⟩
  · rintro p rfl
    rcases List.eq_nil_or_concat xs with rfl | ⟨xs', x, rfl⟩
    · simp at ha
    · rw [List.concat_eq_append, List.map_append, ← List.cons_append, List.map_singleton,
        List.dropLast_concat] at ha
      have hp' : p ∈ xs' := by simpa using ha
      rw [hn p (by simp [hp']), hab.1 p rfl]
      simp only [List.concat_eq_append, List.getLast?_concat, ne_eq, Option.some.injEq]
      rintro rfl
      simp [List.nodup_append] at hxs
      exact hxs.2 p hp' rfl
  · rintro q rfl
    rw [hp q (by simpa using hb), hab.2 q rfl]

/-- The part of a list after a node, with the link that enters it rewritten. -/
theorem isChain_after (h : (ys.map some ++ [none]).IsChain (Neighbours next prev)) (hys : ys.Nodup)
    (hn : ∀ y ∈ ys, next' y = next y)
    (hp : ∀ y ∈ ys, some y ≠ ys.head? → prev' y = prev y) :
    (ys.map some ++ [none]).IsChain (Neighbours next' prev') := by
  refine isChain_of_imp h fun a ha b hb hab => ⟨?_, ?_⟩
  · rintro p rfl
    rw [hn p (by simpa using List.dropLast_subset _ ha), hab.1 p rfl]
  · rintro q rfl
    cases ys with
    | nil => simp at hb
    | cons z zs =>
      have hq : q ∈ zs := by simpa using hb
      rw [hp q (List.mem_cons_of_mem _ hq), hab.2 q rfl]
      simp only [List.head?_cons, ne_eq, Option.some.injEq]
      rintro rfl
      exact (List.nodup_cons.mp hys).1 hq

section Edits

variable [DecidableEq P]

/-- **Unlinking a node.** Its neighbours are pointed at each other. -/
theorem Linked.unlink (h : Linked next prev (xs ++ y :: ys)) (hnd : (xs ++ y :: ys).Nodup)
    (hn : ∀ x ∈ xs ++ ys, next' x = if prev y = some x then next y else next x)
    (hp : ∀ x ∈ xs ++ ys, prev' x = if next y = some x then prev y else prev x) :
    Linked next' prev' (xs ++ ys) := by
  rw [h.prev_eq, h.next_eq] at hn hp
  obtain ⟨hxs, hys, -, -⟩ := linked_append_cons.mp h
  obtain ⟨hndx, hndy, hdisj⟩ := List.nodup_append.mp hnd
  have hndy := (List.nodup_cons.mp hndy).2
  -- No node is on both sides of the one that goes.
  have hxy : ∀ x ∈ xs, ys.head? ≠ some x := fun x hx he =>
    hdisj x hx x (List.mem_cons_of_mem _ (List.mem_of_mem_head? he)) rfl
  have hyx : ∀ x ∈ ys, xs.getLast? ≠ some x := fun x hx he =>
    hdisj x (List.mem_of_getLast? he) x (List.mem_cons_of_mem _ hx) rfl
  refine linked_append.mpr ⟨isChain_before hxs hndx ?_ ?_, isChain_after hys hndy ?_ ?_, ?_, ?_⟩
  · intro x hx hne
    rw [hn x (by simp [hx]), if_neg hne.symm]
  · intro x hx
    rw [hp x (by simp [hx]), if_neg (hxy x hx)]
  · intro x hx
    rw [hn x (by simp [hx]), if_neg (hyx x hx)]
  · intro x hx hne
    rw [hp x (by simp [hx]), if_neg hne.symm]
  · intro x hx
    rw [hn x (by simp [List.mem_of_getLast? hx]), if_pos (Option.mem_def.mp hx)]
  · intro x hx
    rw [hp x (by simp [List.mem_of_mem_head? hx]), if_pos (Option.mem_def.mp hx)]

/-- **Linking a node in at the tail.** -/
theorem Linked.concat (h : Linked next prev xs) (hnd : (xs ++ [y]).Nodup)
    (hn : ∀ x ∈ xs, next' x = if xs.getLast? = some x then some y else next x)
    (hny : next' y = none) (hp : ∀ x ∈ xs, prev' x = prev x) (hpy : prev' y = xs.getLast?) :
    Linked next' prev' (xs ++ [y]) := by
  have hxs : (none :: xs.map some).IsChain (Neighbours next prev) := by
    rw [← List.append_nil xs] at h
    simpa using (linked_append.mp h).1
  have hndx := (List.nodup_append.mp hnd).1
  refine linked_append_cons.mpr ⟨isChain_before hxs hndx ?_ hp, by simp, ⟨?_, ?_⟩, ⟨?_, ?_⟩⟩
  · intro x hx hne
    rw [hn x hx, if_neg hne.symm]
  · intro x hx
    rw [hn x (List.mem_of_getLast? hx), if_pos (Option.mem_def.mp hx)]
  · rintro q hq
    rw [Option.mem_some] at hq
    rw [← hq, hpy]
  · rintro q hq
    rw [Option.mem_some] at hq
    rw [← hq, hny]
    rfl
  · simp

/-- The head field of a list after a node is unlinked. -/
theorem head?_unlink (hnd : (xs ++ y :: ys).Nodup) :
    (xs ++ ys).head? = if (xs ++ y :: ys).head? = some y then ys.head? else (xs ++ y :: ys).head? := by
  cases xs with
  | nil => simp
  | cons x xs =>
    have hne : x ≠ y := by
      rintro rfl
      simp at hnd
    simp [hne]

/-- The tail field of a list after a node is unlinked. -/
theorem getLast?_unlink (hnd : (xs ++ y :: ys).Nodup) :
    (xs ++ ys).getLast? =
      if (xs ++ y :: ys).getLast? = some y then xs.getLast? else (xs ++ y :: ys).getLast? := by
  rcases List.eq_nil_or_concat ys with rfl | ⟨ys', z, rfl⟩
  · simp
  · have hne : z ≠ y := by
      rintro rfl
      simp [List.nodup_append] at hnd
    have hlast : (xs ++ y :: ys'.concat z).getLast? = some z := by
      rw [List.concat_eq_append, ← List.cons_append, ← List.append_assoc, List.getLast?_concat]
    rw [hlast, if_neg (by simpa using hne), List.concat_eq_append, ← List.append_assoc,
      List.getLast?_concat]

end Edits

end Linked

end OrderBookEngine
