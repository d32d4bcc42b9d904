import OrderBookEngine.Engine.Types
import OrderBookEngine.Engine.Store
import OrderBookEngine.Lib.Levels
import Mathlib.Data.List.Sort

/-!
# The replica of a book

`book_replica.hpp`: the state that a subscriber builds from a snapshot and the events behind it. It knows
of the book what those tell, and fails where they do not fit together.
-/

namespace OrderBookEngine

/-- What the replica throws. -/
inductive ReplicaError where
  | runtimeError (what : String)
  /-- `unordered_map::at` of an absent key. -/
  | outOfRange
  /-- `optional::value` of an empty one. -/
  | badOptionalAccess
deriving DecidableEq, Repr

/-- `BookReplica::Entry`. -/
structure ReplicaEntry where
  /-- Who the order belongs to. -/
  owner : OwnerId
  /-- The side that it is on. -/
  side : Side
  /-- The price that it rests at. -/
  price : ℤ
  /-- What is left to trade. -/
  quantity : ℤ
deriving DecidableEq, Repr

/-- The ids at each price of a side, best first. -/
abbrev ReplicaSide (side : Side) := SortedMap ℤ (List OrderId) side.Better

/-- A copy of a book, kept up from its events. -/
structure BookReplica where
  /-- Highest price first. -/
  bids : ReplicaSide .buy := SortedMap.empty
  /-- Lowest price first. -/
  asks : ReplicaSide .sell := SortedMap.empty
  /-- The orders by id. -/
  resting : OrderId → Option ReplicaEntry := fun _ => none
  /-- An absent key reads as zero. -/
  filled : OrderId → ℤ := fun _ => 0
  /-- The dormant stops by id. -/
  stops : SortedMap OrderId DormantStop (· < ·) := SortedMap.empty
  /-- The price of the last trade. -/
  lastTrade : Option ℤ := none
  /-- Whether the symbol is halted. -/
  halted : Bool := false
  /-- The number of the last event that it has read. -/
  lastSeq : ℕ := 0

namespace BookReplica

/-- An exception of the replica. -/
def fail {α : Type} (why : String) : Except ReplicaError α := .error (.runtimeError ("replica: " ++ why))

/-- The levels of a side. -/
def sideMap (r : BookReplica) : (side : Side) → ReplicaSide side
  | .buy => r.bids
  | .sell => r.asks

/-- Replace the levels of a side. -/
def setSideMap (r : BookReplica) : (side : Side) → ReplicaSide side → BookReplica
  | .buy, m => { r with bids := m }
  | .sell, m => { r with asks := m }

/-- `add_resting`. -/
def addResting (r : BookReplica) (id : OrderId) (owner : OwnerId) (side : Side) (price qty filled : ℤ) :
    Except ReplicaError BookReplica :=
  if (r.resting id).isSome then fail ("order " ++ toString id ++ " rested twice")
  else
    let r := { r with
      resting := Function.update r.resting id (some { owner, side, price, quantity := qty })
      -- `filled_` has no entry for an order that has not traded.
      filled := if filled ≠ 0 then Function.update r.filled id filled else r.filled }
    .ok (r.setSideMap side ((r.sideMap side).pushBack price id))

/-- `remove_resting`. -/
def removeResting (r : BookReplica) (id : OrderId) : Except ReplicaError BookReplica :=
  match r.resting id with
  | none => .error .outOfRange
  | some o =>
    let r := { r with resting := Function.update r.resting id none }
    .ok (r.setSideMap o.side ((r.sideMap o.side).removeFrom o.price id))

/-- `filled_[id] += quantity`. -/
def addFilled (r : BookReplica) (id : OrderId) (quantity : ℤ) : BookReplica :=
  { r with filled := Function.update r.filled id (r.filled id + quantity) }

/-- The `Trade` case of `apply`. -/
def applyTrade (r : BookReplica) (e : EngineEvent) : Except ReplicaError BookReplica :=
  let r := ({ r with lastTrade := e.price }.addFilled e.orderId e.quantity).addFilled e.passiveId e.quantity
  match r.resting e.passiveId with
  | none => fail ("trade against unknown passive order " ++ toString e.passiveId)
  | some o =>
    if e.price ≠ some o.price then fail "trade price differs from the passive order's price"
    else
      -- Here the price agrees, and the passive order loses the quantity.
      let o := { o with quantity := o.quantity - e.quantity }
      let r := { r with resting := Function.update r.resting e.passiveId (some o) }
      if o.quantity < 0 then fail "passive order overfilled"
      else if o.quantity = 0 then r.removeResting e.passiveId
      else .ok r

/-- The `switch` of `apply`. -/
def applyKind (r : BookReplica) (e : EngineEvent) : Except ReplicaError BookReplica :=
  match e.kind with
  | .accepted => .ok r -- not on the book yet
  | .rested =>
    match e.price with
    | none => fail "Rested without a price"
    -- What it has traded on its way in has been counted under its id.
    | some price => r.addResting e.orderId e.ownerId e.side price e.quantity (r.filled e.orderId)
  | .trade => r.applyTrade e
  | .cancelled =>
    match r.resting e.orderId with
    | none => .ok r -- it never rested
    | some o =>
      if o.quantity ≠ e.quantity then fail "cancelled quantity differs from the resting quantity"
      else r.removeResting e.orderId
  | .modified =>
    match r.resting e.orderId with
    | none => fail "modify of an order the replica doesn't have at that price"
    | some o =>
      if e.price ≠ some o.price then fail "modify of an order the replica doesn't have at that price"
      else .ok { r with
        resting := Function.update r.resting e.orderId (some { o with quantity := e.quantity }) }
  | .replaced =>
    if (r.resting e.orderId).isNone then fail "replace of an order the replica doesn't have"
    else r.removeResting e.orderId
  | .stopAccepted | .stopModified =>
    match e.price with
    | none => .error .badOptionalAccess
    | some stopPrice =>
      .ok { r with
        stops := r.stops.insertOrAssign e.orderId
          { orderId := e.orderId, ownerId := e.ownerId, side := e.side, stopPrice
            limitPrice := e.limitPrice, quantity := e.quantity } }
  | .stopCancelled | .stopTriggered =>
    if (r.stops.find? e.orderId).isNone then fail "stop event for an unknown stop"
    else .ok { r with stops := r.stops.erase e.orderId }
  | .halted => .ok { r with halted := true }
  | .resumed => .ok { r with halted := false }
  | .rejected | .expired => .ok r -- never on the book

/-- `apply`. -/
def apply (r : BookReplica) (e : EngineEvent) : Except ReplicaError BookReplica :=
  if e.sequenceNumber ≠ r.lastSeq + 1 then
    fail ("gap: expected seq " ++ toString (r.lastSeq + 1) ++ ", got " ++ toString e.sequenceNumber)
  else { r with lastSeq := e.sequenceNumber }.applyKind e

/-- Apply events one after the other, until one fails. -/
def applyAll (r : BookReplica) : List EngineEvent → Except ReplicaError BookReplica
  | [] => .ok r
  | e :: es =>
    match r.apply e with
    | .error error => .error error
    | .ok r => r.applyAll es

/-- Add the orders of one side of a snapshot. -/
def addSide (side : Side) (r : BookReplica) : List RestingOrder → Except ReplicaError BookReplica
  | [] => .ok r
  | o :: os =>
    match r.addResting o.orderId o.ownerId side o.price o.quantity o.filled with
    | .error error => .error error
    | .ok r => addSide side r os

/-- `load`. -/
def load (snap : BookSnapshot) : Except ReplicaError BookReplica :=
  match addSide .buy { lastSeq := snap.asOfSequence } snap.bids with
  | .error error => .error error
  | .ok r =>
    match addSide .sell r snap.asks with
    | .error error => .error error
    | .ok r =>
      .ok { r with
        stops := snap.stops.foldl (fun stops s => stops.insertOrAssign s.orderId s) r.stops
        lastTrade := snap.lastTradePrice
        halted := snap.halted }

/-- The orders under some prices, as `to_snapshot` lists them. -/
def collect (r : BookReplica) : List (ℤ × OrderId) → Except ReplicaError (List RestingOrder)
  | [] => .ok []
  | (price, id) :: rest =>
    match r.resting id with
    | none => .error .outOfRange
    | some o =>
      (r.collect rest).map fun orders =>
        { orderId := id, ownerId := o.owner, price, quantity := o.quantity, filled := r.filled id } :: orders

/-- `sort_stops`. -/
def sortStops (stops : List DormantStop) : List DormantStop :=
  stops.insertionSort fun a b => a.orderId ≤ b.orderId

/-- `to_snapshot`. -/
def toSnapshot (r : BookReplica) : Except ReplicaError BookSnapshot :=
  match r.collect (r.sideMap .buy).flat, r.collect (r.sideMap .sell).flat with
  | .error error, _ => .error error
  | .ok _, .error error => .error error
  | .ok bids, .ok asks =>
    .ok { asOfSequence := r.lastSeq, bids, asks, stops := sortStops (r.stops.entries.map Prod.snd)
          lastTradePrice := r.lastTrade, halted := r.halted }

/-! ## One event after the other -/

section Applying

variable {r r' : BookReplica} {es : List EngineEvent} {e : EngineEvent}

/-- The first event is applied, and then the others. -/
theorem applyAll_cons (r : BookReplica) (e : EngineEvent) (es : List EngineEvent) :
    r.applyAll (e :: es) = (r.apply e).bind fun r => r.applyAll es := by
  rw [applyAll]
  cases r.apply e <;> rfl

/-- Two lists of events are applied one after the other. -/
theorem applyAll_append (r : BookReplica) (es es' : List EngineEvent) :
    r.applyAll (es ++ es') = (r.applyAll es).bind fun r => r.applyAll es' := by
  induction es generalizing r with
  | nil => rfl
  | cons e es ih =>
    rw [List.cons_append, applyAll_cons, applyAll_cons]
    cases r.apply e with
    | error error => rfl
    | ok r₁ => exact ih r₁

/-- The events before the last have been applied. -/
theorem applyAll_of_concat (h : r.applyAll (es ++ [e]) = .ok r') :
    ∃ r₁, r.applyAll es = .ok r₁ ∧ r₁.apply e = .ok r' := by
  rw [applyAll_append] at h
  cases hes : r.applyAll es with
  | error error =>
    rw [hes] at h
    cases h
  | ok r₁ =>
    refine ⟨r₁, rfl, ?_⟩
    rw [hes] at h
    replace h : r₁.applyAll [e] = .ok r' := h
    rw [applyAll_cons] at h
    cases he : r₁.apply e with
    | error error =>
      rw [he] at h
      cases h
    | ok r₂ =>
      rw [he] at h
      exact h

end Applying

end BookReplica

end OrderBookEngine
