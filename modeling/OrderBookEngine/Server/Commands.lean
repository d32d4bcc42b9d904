import OrderBookEngine.Engine.Types

/-!
# Commands and outputs

The value types of `commands.hpp`. A client, a gateway and an account are only ever named, and the
names compared.
-/

namespace OrderBookEngine

/-- A symbol, which has a book of its own. -/
abbrev SymbolId := ℕ
/-- What a client calls its command. -/
abbrev ClientOrderId := String
/-- A gateway that clients send their commands through. -/
abbrev GatewayId := String
/-- The client that a gateway has authenticated. -/
abbrev AccountId := ℕ
/-- A subscription at the publisher. -/
abbrev SubscriberId := ℕ
/-- The number of a command in its partition, or of an event in its symbol. -/
abbrev Seq := ℕ

/-- A command for a worker. `shutdown` and `takeSnapshot` come from the server itself. -/
inductive Command where
  /-- A new order. -/
  | newOrder (clientOrderId : ClientOrderId) (symbol : SymbolId) (order : Order)
  /-- A cancellation of an order. -/
  | cancelOrder (clientOrderId : ClientOrderId) (symbol : SymbolId) (requester : OwnerId)
      (orderId : OrderId)
  /-- A modification of an order. -/
  | modifyOrder (clientOrderId : ClientOrderId) (symbol : SymbolId) (requester : OwnerId)
      (orderId : OrderId) (newPrice newQuantity : ℤ)
  /-- A new stop. -/
  | placeStop (clientOrderId : ClientOrderId) (symbol : SymbolId) (stop : StopOrder)
  /-- A cancellation of a stop. -/
  | cancelStop (clientOrderId : ClientOrderId) (symbol : SymbolId) (requester : OwnerId)
      (orderId : OrderId)
  /-- A modification of a stop. -/
  | modifyStop (clientOrderId : ClientOrderId) (symbol : SymbolId) (requester : OwnerId)
      (orderId : OrderId) (newStopPrice : ℤ) (newLimitPrice : Option ℤ) (newQuantity : ℤ)
  /-- The end of the worker's loop. -/
  | shutdown
  /-- A snapshot of a book, for a subscriber. -/
  | takeSnapshot (symbol : SymbolId) (subscriber : SubscriberId)
deriving DecidableEq, Repr

/-- A command as it comes from the sequencer. -/
structure Stamped where
  /-- The number that the sequencer gave it. -/
  seq : Seq := 0
  /-- The time that the sequencer gave it. -/
  ts : ℤ := 0
  /-- The command itself. -/
  command : Command
  /-- Where it came from. -/
  gatewayId : GatewayId := ""
  /-- Who sent it. -/
  accountId : AccountId := 0
deriving DecidableEq, Repr

/-- An event of a book. `clientOrderId` is empty unless the event is about the sender's own new order
or stop. -/
structure MarketEvent where
  /-- The symbol of the book. -/
  symbol : SymbolId
  /-- What the book has emitted. -/
  event : EngineEvent
  /-- The client's name for the command that created the order. -/
  clientOrderId : ClientOrderId := ""
deriving DecidableEq, Repr

/-- The answer to a command, for the client that sent it. -/
structure Reply where
  /-- The client's name for the command. -/
  clientOrderId : ClientOrderId
  /-- The symbol of the command. -/
  symbol : SymbolId
  /-- Why it was refused, or that it was not. -/
  rejectReason : RejectReason
  /-- What is left of an order that neither traded nor rests. -/
  unacceptedQuantity : ℤ := 0
  /-- The price that a new order rests at. -/
  restedPrice : Option ℤ := none
  /-- Copied from the stamped command. -/
  gatewayId : GatewayId := ""
  /-- Copied from the stamped command. -/
  accountId : AccountId := 0
  /-- For a new order or stop, the id it was given; otherwise the target. -/
  orderId : OrderId := 0
deriving DecidableEq, Repr

/-- A snapshot that was asked for. -/
structure SnapshotReady where
  /-- The symbol of its book. -/
  symbol : SymbolId
  /-- Who asked. -/
  subscriber : SubscriberId
  /-- The book as it was when the worker came to the command. -/
  snapshot : BookSnapshot
deriving DecidableEq, Repr

/-- What a worker pushes into the outbox. -/
inductive Output where
  /-- An event, for everybody. -/
  | marketEvent (event : MarketEvent)
  /-- An answer, for one gateway. -/
  | reply (reply : Reply)
  /-- A snapshot, for one subscriber. -/
  | snapshotReady (ready : SnapshotReady)
  /-- The pill of the publisher's thread. -/
  | outboxClosed
deriving DecidableEq, Repr

end OrderBookEngine
