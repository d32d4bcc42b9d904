import Mathlib.Algebra.Order.Ring.Int

/-!
# Orders, trades, events, and results

The value types of `order.hpp`, `trade.hpp`, `event.hpp`, `result.hpp` and the snapshot types of
`book.hpp`. Prices, quantities, and timestamps are exact integers. Ids are only ever compared, so
they are natural numbers.
-/

namespace OrderBookEngine

/-- The id of an order or a stop. -/
abbrev OrderId := ℕ
/-- The account that an order belongs to. -/
abbrev OwnerId := ℕ

/-- The side of an order. -/
inductive Side where
  | buy
  | sell
deriving DecidableEq, Repr

/-- The other side, which an incoming order matches against. -/
def Side.opposite : Side → Side
  | .buy => .sell
  | .sell => .buy

/-- What an order asks for: a price, or whatever there is. -/
inductive OrderType where
  | limit
  | market
deriving DecidableEq, Repr

/-- An order, incoming or resting. `quantity` is what is left of it. -/
structure Order where
  /-- Given by the caller, and unique while the book remembers it. -/
  id : OrderId
  /-- Who may change or cancel the order. -/
  ownerId : OwnerId
  /-- Which side it buys or sells on. -/
  side : Side
  /-- A market order has no price. -/
  type : OrderType
  /-- A limit order's price; a market order has none. -/
  price : Option ℤ
  /-- What is left to trade. -/
  quantity : ℤ
  /-- What has been traded. -/
  filled : ℤ := 0
deriving DecidableEq, Repr

/-- Nothing is left to trade. -/
def Order.isFullyFilled (order : Order) : Bool := order.quantity = 0

/-- How an order ended. -/
inductive FinalState where
  | filled
  | cancelled
deriving DecidableEq, Repr

/-- A stop: an order that is entered when the market has traded at its price. -/
structure StopOrder where
  /-- Its order has the same id. -/
  id : OrderId
  /-- Who may change or cancel it. -/
  ownerId : OwnerId
  /-- The side of its order. -/
  side : Side
  /-- The price that fires it: at or below it for a sell, at or above it for a buy. -/
  stopPrice : ℤ
  /-- The quantity of its order. -/
  quantity : ℤ
  /-- Empty for a stop-market, which fires a market order; set for a stop-limit. -/
  limitPrice : Option ℤ := none
deriving DecidableEq, Repr

/-- One fill between two orders. -/
structure Trade where
  /-- Counted from 1, a number for each fill. -/
  tradeId : ℕ
  /-- The price of the passive order. -/
  price : ℤ
  /-- What has changed hands. -/
  quantity : ℤ
  /-- The incoming order. -/
  aggressorId : OrderId
  /-- The order that rested. -/
  passiveId : OrderId
  /-- The owner of the order that buys. -/
  buyOwner : OwnerId
  /-- The owner of the order that sells. -/
  sellOwner : OwnerId
  /-- The side of the incoming order. -/
  aggressorSide : Side
  /-- When the incoming order was entered. -/
  ts : ℤ
deriving DecidableEq, Repr

/-- Why an operation was refused. -/
inductive RejectReason where
  | none
  | invalidPrice
  | invalidQuantity
  | selfTrade
  | poolExhausted
  | symbolHalted
  | unknownOrder
  | duplicateOrderId
  | tooLate
  | priceBand
  | priceCollar
  | stopWouldTrigger
deriving DecidableEq, Repr

/-- The answer to `add_order` and `modify_order`. -/
structure OrderResult where
  /-- The fills of the order itself, in order. -/
  trades : List Trade
  /-- Quantity rejected or discarded rather than accepted onto the book. -/
  unacceptedQuantity : ℤ
  /-- The reason of a refusal, or of an order that was stopped. -/
  rejectReason : RejectReason
  /-- The price that the remainder rests at. -/
  restedPrice : Option ℤ := none
deriving DecidableEq, Repr

/-- What an event reports. -/
inductive EventKind where
  | accepted
  | rested
  | trade
  | cancelled
  | modified
  | replaced
  | stopAccepted
  | stopTriggered
  | stopCancelled
  | stopModified
  | halted
  | resumed
  | rejected
  | expired
deriving DecidableEq, Repr

/-- One entry of the event stream. `emit` fills in the sequence number. -/
structure EngineEvent where
  /-- Counted from 1, without a gap. -/
  sequenceNumber : ℕ := 0
  /-- What has happened. -/
  kind : EventKind
  /-- When, as the caller said. -/
  ts : ℤ
  /-- For a trade, the aggressor. -/
  orderId : OrderId
  /-- Trades only. -/
  passiveId : OrderId := 0
  /-- For a trade, the buyer. -/
  ownerId : OwnerId
  /-- For a trade, the seller. -/
  otherOwner : OwnerId := 0
  /-- For a trade, the aggressor's side. -/
  side : Side
  /-- Stop events carry the stop price here. -/
  price : Option ℤ
  /-- What the event is about; what has traded, or what is left. -/
  quantity : ℤ
  /-- Stop events only: the limit price of a stop-limit. -/
  limitPrice : Option ℤ := none
  /-- Set on a `Rejected` event. -/
  rejectReason : RejectReason := .none
deriving DecidableEq, Repr

/-- The event of a kind that carries an order's own fields. -/
def Order.event (order : Order) (kind : EventKind) (now : ℤ) : EngineEvent :=
  { kind, ts := now, orderId := order.id, ownerId := order.ownerId, side := order.side,
    price := order.price, quantity := order.quantity }

/-- The test of `plan_match` that ends the walk at a price the order does not reach. -/
def Order.crosses (incoming : Order) (price : ℤ) : Bool :=
  incoming.type = .market ||
    match incoming.side with
    | .buy => incoming.price.all (price ≤ ·)
    | .sell => incoming.price.all (price ≥ ·)

/-- The order that a stop fires, under its own id. -/
def StopOrder.firedOrder (stop : StopOrder) : Order :=
  match stop.limitPrice with
  | some limit =>
    { id := stop.id, ownerId := stop.ownerId, side := stop.side, type := .limit, price := some limit,
      quantity := stop.quantity }
  | none =>
    { id := stop.id, ownerId := stop.ownerId, side := stop.side, type := .market, price := none,
      quantity := stop.quantity }

/-- The event of a kind that carries a stop's own fields. -/
def StopOrder.event (stop : StopOrder) (kind : EventKind) (now : ℤ) : EngineEvent :=
  { kind, ts := now, orderId := stop.id, ownerId := stop.ownerId, side := stop.side,
    price := some stop.stopPrice, quantity := stop.quantity, limitPrice := stop.limitPrice }

/-- A resting order as a snapshot lists it. `quantity` is what is still on the book, `filled` what
was filled over the order's whole life. -/
structure RestingOrder where
  /-- The id of the order. -/
  orderId : OrderId
  /-- Its owner. -/
  ownerId : OwnerId
  /-- The price of its level. -/
  price : ℤ
  /-- What is left to trade. -/
  quantity : ℤ
  /-- What has been traded. -/
  filled : ℤ
deriving DecidableEq, Repr

/-- A dormant stop as a snapshot lists it. -/
structure DormantStop where
  /-- The id of the stop. -/
  orderId : OrderId
  /-- Its owner. -/
  ownerId : OwnerId
  /-- The side of its order. -/
  side : Side
  /-- The price that fires it. -/
  stopPrice : ℤ
  /-- The price of its order, or `none` for a market order. -/
  limitPrice : Option ℤ
  /-- The quantity of its order. -/
  quantity : ℤ
deriving DecidableEq, Repr

/-- A book as a subscriber is shown it. -/
structure BookSnapshot where
  /-- The number of the last event that it includes. -/
  asOfSequence : ℕ
  /-- Best price first, oldest first at a price. -/
  bids : List RestingOrder
  /-- Best price first, oldest first at a price. -/
  asks : List RestingOrder
  /-- All that are dormant. -/
  stops : List DormantStop
  /-- None before the first trade. -/
  lastTradePrice : Option ℤ
  /-- Whether the symbol is halted. -/
  halted : Bool
deriving DecidableEq, Repr

end OrderBookEngine
