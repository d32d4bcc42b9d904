import Mathlib.Algebra.BigOperators.Group.Finset.Basic

/-!
# A sequential queue

The operations of a first-in first-out queue with what they return (`Fifo.Step`), one after the other
(`Fifo.Run`): what has been taken from it, and what is left, are what has been put into it, in order
(`Fifo.Run.conserves`). A structure that several threads use may be compared with it.

The threads are a finite type, and what they weigh together changes by what one of them does (`sum_update`).
-/

namespace OrderBookEngine

namespace Fifo

variable {T : Type*}

/-- An operation, and what it has returned. -/
inductive Op (T : Type*) where
  /-- It has put an item. -/
  | push (item : T)
  /-- It has got an item. -/
  | pop (item : T)
  /-- It has got an item, or none. -/
  | tryPop (item : Option T)
  /-- It has seen so many items. -/
  | size (n : ℕ)
deriving DecidableEq, Repr

/-- What an operation does to the items and returns. -/
inductive Step : List T → Op T → List T → Prop
  /-- The item goes to the back. -/
  | push (items : List T) (item : T) : Step items (.push item) (items ++ [item])
  /-- The first item leaves. -/
  | pop (item : T) (items : List T) : Step (item :: items) (.pop item) items
  /-- The first item leaves. -/
  | tryPop (item : T) (items : List T) : Step (item :: items) (.tryPop (some item)) items
  /-- There is no item. -/
  | nothing : Step [] (.tryPop none) []
  /-- Nothing changes. -/
  | size (items : List T) : Step items (.size items.length) items

/-- Operations one after the other. -/
inductive Run (items : List T) : List (Op T) → List T → Prop
  /-- No operation. -/
  | nil : Run items [] items
  /-- One operation more. -/
  | concat {ops : List (Op T)} {op : Op T} {items' items'' : List T} (run : Run items ops items')
      (step : Step items' op items'') : Run items (ops ++ [op]) items''

/-- What an operation puts in. -/
def Op.put? : Op T → Option T
  | .push item => some item
  | _ => none

/-- What an operation takes out. -/
def Op.taken? : Op T → Option T
  | .pop item => some item
  | .tryPop item => item
  | _ => none

/-- Nothing is lost, doubled or taken out of its turn. -/
theorem Run.conserves {items items' : List T} {ops : List (Op T)} (h : Run items ops items') :
    items ++ ops.filterMap Op.put? = ops.filterMap Op.taken? ++ items' := by
  induction h with
  | nil => rw [List.filterMap_nil, List.filterMap_nil, List.append_nil, List.nil_append]
  | @concat ops op items' items'' _ step ih =>
    rw [List.filterMap_append, List.filterMap_append, ← List.append_assoc, ih, List.append_assoc, List.append_assoc]
    congr 1
    cases step with
    | push item => rfl
    | pop item => exact List.append_nil _
    | tryPop item => exact List.append_nil _
    | nothing => rfl
    | size => exact List.append_nil _

end Fifo

variable {ι α : Type*} [Fintype ι] [DecidableEq ι]

/-- One of some threads goes on. -/
theorem sum_update (f : ι → α) (weight : α → ℕ) (i : ι) (a : α) :
    ∑ j, weight (Function.update f i a j) + weight (f i) = ∑ j, weight (f j) + weight a := by
  have hothers : ∑ j ∈ Finset.univ.erase i, weight (Function.update f i a j) =
      ∑ j ∈ Finset.univ.erase i, weight (f j) :=
    Finset.sum_congr rfl fun j hj => by rw [Function.update_of_ne (Finset.ne_of_mem_erase hj)]
  rw [← Finset.add_sum_erase _ _ (Finset.mem_univ i), ← Finset.add_sum_erase _ (fun j => weight (f j))
    (Finset.mem_univ i), hothers, Function.update_self]
  omega

end OrderBookEngine
