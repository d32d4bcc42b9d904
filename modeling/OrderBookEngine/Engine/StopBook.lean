import OrderBookEngine.Lib.SortedMap
import OrderBookEngine.Engine.Session
import Mathlib.Order.Defs.LinearOrder
import Mathlib.Order.RelClasses
import Mathlib.Algebra.Order.Group.Int
import Mathlib.Data.List.Sort

/-!
# The store of dormant stops

The two maps of `book.hpp` keyed by stop price and priority, the index over them, and the two
counters that hand priorities out. The counters are kept exactly; the key that a stop is stored under
is the counter read in the configured arithmetic, which for `uint64_t` is its value modulo `2^64`.
-/

namespace OrderBookEngine

/-- Stop price, then priority. -/
abbrev StopKey := ℤ × ℤ

/-- The order of `std::pair`: lexicographic. -/
def StopKey.Lt (a b : StopKey) : Prop := a.1 < b.1 ∨ a.1 = b.1 ∧ a.2 < b.2

/-- Keys are compared by price, and then by priority. -/
instance : DecidableRel StopKey.Lt := fun a b =>
  inferInstanceAs (Decidable (a.1 < b.1 ∨ a.1 = b.1 ∧ a.2 < b.2))

/-- Keys are in a strict total order. -/
instance : IsStrictTotalOrder StopKey StopKey.Lt where
  irrefl a := by simp [StopKey.Lt]
  trans a b c hab hbc := by
    unfold StopKey.Lt at *
    omega
  trichotomous a b := by
    intro hab hba
    unfold StopKey.Lt at hab hba
    exact Prod.ext (by omega) (by omega)

/-- Dormant stops by price and priority. -/
abbrev StopMap := SortedMap StopKey StopOrder StopKey.Lt

/-- Where a dormant stop is. -/
structure StopLocation where
  /-- The map that it is in. -/
  side : Side
  /-- Its key there. -/
  key : StopKey
deriving DecidableEq, Repr

/-- `kPriorityMid`. -/
def kPriorityMid : ℤ := 2 ^ 62

/-- The members of `Book` that hold the dormant stops. -/
structure StopBook where
  /-- Those that sell. -/
  sellStops : StopMap := SortedMap.empty
  /-- Those that buy. -/
  buyStops : StopMap := SortedMap.empty
  /-- Dormant stops only. -/
  stopIndex : OrderId → Option StopLocation := fun _ => none
  /-- The next priority behind all others. -/
  nextBackPriority : ℤ := kPriorityMid
  /-- The next priority ahead of all others. -/
  nextFrontPriority : ℤ := kPriorityMid - 1

namespace StopBook

/-- `Book::stops_for`. -/
def stopsFor (sb : StopBook) : Side → StopMap
  | .sell => sb.sellStops
  | .buy => sb.buyStops

/-- Replace the stops of a side. -/
def setStopsFor (sb : StopBook) : Side → StopMap → StopBook
  | .sell, m => { sb with sellStops := m }
  | .buy, m => { sb with buyStops := m }

/-- `Book::insert_dormant_stop`. -/
def insertDormantStop (sb : StopBook) (stop : StopOrder) (priority : ℤ) : StopBook :=
  let key : StopKey := (stop.stopPrice, priority)
  let sb := sb.setStopsFor stop.side ((sb.stopsFor stop.side).emplace key stop)
  { sb with
    stopIndex := Function.update sb.stopIndex stop.id (some { side := stop.side, key }) }

/-- `insert_dormant_stop(stop, next_back_priority_++)`. -/
def insertBack (sb : StopBook) (arith : PriorityArith) (stop : StopOrder) : StopBook :=
  -- The back of the queue counts up, so a later stop fires later.
  let sb' := sb.insertDormantStop stop (arith.wrap sb.nextBackPriority)
  { sb' with nextBackPriority := sb.nextBackPriority + 1 }

/-- `insert_dormant_stop(stop, next_front_priority_--)`. -/
def insertFront (sb : StopBook) (arith : PriorityArith) (stop : StopOrder) : StopBook :=
  -- The front counts down, so the last one sent back fires first.
  let sb' := sb.insertDormantStop stop (arith.wrap sb.nextFrontPriority)
  { sb' with nextFrontPriority := sb.nextFrontPriority - 1 }

/-- Erase a stop from its map. -/
def eraseStop (sb : StopBook) (location : StopLocation) : StopBook :=
  sb.setStopsFor location.side ((sb.stopsFor location.side).erase location.key)

/-- The keys that `take` is called on: sell stops from `{low, 0}`, the least key at the lowest trade
price since priorities are unsigned, and buy stops to `{high, max}`, the greatest at the highest. -/
def touched (low high : ℤ) : Side → StopKey → Bool
  | .sell, key => low ≤ key.1
  | .buy, key => key.1 ≤ high

/-- The two calls of `take` in `check_and_trigger_stops`: the stops that a sweep wakes, with their
priorities, and the store without them. -/
def take (sb : StopBook) (low high : ℤ) : List (ℤ × StopOrder) × StopBook :=
  let woke := (sb.sellStops.entries.filter fun e => touched low high .sell e.1) ++
    sb.buyStops.entries.filter fun e => touched low high .buy e.1
  (woke.map fun e => (e.1.2, e.2),
    { sb with
      sellStops := sb.sellStops.filter fun e => !touched low high .sell e.1
      buyStops := sb.buyStops.filter fun e => !touched low high .buy e.1
      stopIndex := woke.foldl (fun index e => Function.update index e.2.id none) sb.stopIndex })

/-- The stops in the order that `Book::snapshot` lists them. -/
def dormant (sb : StopBook) : List StopOrder :=
  (sb.sellStops.entries ++ sb.buyStops.entries).map Prod.snd

end StopBook

end OrderBookEngine
