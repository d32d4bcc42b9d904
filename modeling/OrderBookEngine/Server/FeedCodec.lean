import OrderBookEngine.Server.Publisher

/-!
# The codec of feeds

`feed_codec.cpp`: what a subscriber is given, as a `FeedMessage` or a `Reply` message. The message classes
are generated from a schema that is not in the repository. The records of `Pb` are what the setters are given:
a field that is not set has its default, a string is empty then and an enumeration `unspecified`. What the
getters of a message give back, at the other end of the stream, is a parameter, `FeedProtobuf`; that nothing is
cut or lost in between is its hypothesis `Lawful`. The bytes of a message are left out.
-/

namespace OrderBookEngine

/-! ## Messages -/

namespace Pb

/-- A side on the wire. -/
inductive Side where
  | unspecified
  | buy
  | sell
deriving DecidableEq, Repr

/-- The kind of an event on the wire. -/
inductive EventKind where
  | unspecified
  | accepted
  | rested
  | trade
  | cancelled
  | modified
  | replaced
  | stopAccepted
  | stopTriggered
  | stopCancelled
  | stopModified
  | halted
  | resumed
  | rejected
  | expired
deriving DecidableEq, Repr

/-- A reason on the wire. -/
inductive RejectReason where
  | unspecified
  | none
  | invalidPrice
  | invalidQuantity
  | selfTrade
  | poolExhausted
  | symbolHalted
  | unknownOrder
  | duplicateOrderId
  | tooLate
  | priceBand
  | priceCollar
  | stopWouldTrigger
deriving DecidableEq, Repr

/-- An event on the wire. -/
structure MarketEvent where
  /-- The symbol of the book. -/
  symbol : SymbolId := 0
  /-- Counted from 1 in every symbol. -/
  seq : Seq := 0
  /-- What has happened. -/
  kind : EventKind := .unspecified
  /-- When, in nanoseconds. -/
  ts : ℤ := 0
  /-- The order or the stop that it is about. -/
  orderId : OrderId := 0
  /-- The order that rested, of a trade. -/
  passiveId : OrderId := 0
  /-- Who owns the order. -/
  ownerId : OwnerId := 0
  /-- Who owns the other order, of a trade. -/
  otherOwner : OwnerId := 0
  /-- The side of the order. -/
  side : Side := .unspecified
  /-- Unset where there is no price. -/
  price : Option ℤ := Option.none
  /-- What the event is about; what has traded, or what is left. -/
  quantity : ℤ := 0
  /-- The price of a stop's order, if it has one. -/
  limitPrice : Option ℤ := Option.none
  /-- The client's name for its own order. -/
  clientOrderId : ClientOrderId := ""
  /-- Set on a rejection. -/
  rejectReason : RejectReason := .unspecified
deriving DecidableEq, Repr

/-- An answer on the wire. -/
structure Reply where
  /-- The gateway that it is for. -/
  gatewayId : GatewayId := ""
  /-- The client's name for the command. -/
  clientOrderId : ClientOrderId := ""
  /-- The client that sent it. -/
  accountId : AccountId := 0
  /-- The order or the stop that it is about. -/
  orderId : OrderId := 0
  /-- The symbol of the command. -/
  symbol : SymbolId := 0
  /-- Why it was refused, or that it was not. -/
  rejectReason : RejectReason := .unspecified
  /-- What is left of an order that neither traded nor rests. -/
  unacceptedQuantity : ℤ := 0
  /-- The price that a new order rests at. -/
  restedPrice : Option ℤ := Option.none
deriving DecidableEq, Repr

/-- A resting order on the wire. -/
structure RestingOrder where
  /-- The id of the order. -/
  orderId : OrderId := 0
  /-- Its owner. -/
  ownerId : OwnerId := 0
  /-- The price of its level. -/
  price : ℤ := 0
  /-- What is left to trade. -/
  quantity : ℤ := 0
  /-- What has been traded. -/
  filled : ℤ := 0
deriving DecidableEq, Repr

/-- A dormant stop on the wire. -/
structure DormantStop where
  /-- The id of the stop. -/
  orderId : OrderId := 0
  /-- Its owner. -/
  ownerId : OwnerId := 0
  /-- The side of its order. -/
  side : Side := .unspecified
  /-- The price that fires it. -/
  stopPrice : ℤ := 0
  /-- Unset for a market order. -/
  limitPrice : Option ℤ := Option.none
  /-- The quantity of its order. -/
  quantity : ℤ := 0
deriving DecidableEq, Repr

/-- A book on the wire. -/
structure BookSnapshot where
  /-- The symbol of the book. -/
  symbol : SymbolId := 0
  /-- The number of the last event that it includes. -/
  asOfSeq : Seq := 0
  /-- Best price first, oldest first at a price. -/
  bids : List RestingOrder := []
  /-- Best price first, oldest first at a price. -/
  asks : List RestingOrder := []
  /-- All that are dormant. -/
  stops : List DormantStop := []
  /-- Unset before the first trade. -/
  lastTradePrice : Option ℤ := Option.none
  /-- Whether the symbol is halted. -/
  halted : Bool := false
deriving DecidableEq, Repr

/-- The cases of the message. -/
inductive FeedMessage where
  /-- The book that the events behind it start from. -/
  | snapshot (message : BookSnapshot)
  /-- An event of a symbol that is live. -/
  | event (message : MarketEvent)
deriving DecidableEq, Repr

end Pb

/-- The generated code: what a client's getters give of a message whose fields have been set like this. -/
structure FeedProtobuf where
  /-- Of a `BookSnapshot`. -/
  bookSnapshot : Pb.BookSnapshot → Pb.BookSnapshot
  /-- Of a `MarketEvent`. -/
  marketEvent : Pb.MarketEvent → Pb.MarketEvent
  /-- Of a `Reply`. -/
  reply : Pb.Reply → Pb.Reply

/-- What is relied on: a field is as wide as the value that it is set from, an optional field that has not been set
is absent, and any other that has not been set reads as its default. -/
structure FeedProtobuf.Lawful (fp : FeedProtobuf) : Prop where
  /-- A snapshot is read as it was set. -/
  bookSnapshot : ∀ message, fp.bookSnapshot message = message
  /-- An event is read as it was set. -/
  marketEvent : ∀ message, fp.marketEvent message = message
  /-- A reply is read as it was set. -/
  reply : ∀ message, fp.reply message = message

/-- Messages whose fields hold what they are set to. -/
def FeedProtobuf.exact : FeedProtobuf where
  bookSnapshot message := message
  marketEvent message := message
  reply message := message

/-- Exact fields keep everything. -/
theorem FeedProtobuf.exact_lawful : FeedProtobuf.exact.Lawful where
  bookSnapshot _ := rfl
  marketEvent _ := rfl
  reply _ := rfl

/-! ## Enumerations -/

/-- `to_pb` of a side. -/
def Side.toPb : Side → Pb.Side
  | .buy => .buy
  | .sell => .sell

/-- `to_pb` of a kind. -/
def EventKind.toPb : EventKind → Pb.EventKind
  | .accepted => .accepted
  | .rested => .rested
  | .trade => .trade
  | .cancelled => .cancelled
  | .modified => .modified
  | .replaced => .replaced
  | .stopAccepted => .stopAccepted
  | .stopTriggered => .stopTriggered
  | .stopCancelled => .stopCancelled
  | .stopModified => .stopModified
  | .halted => .halted
  | .resumed => .resumed
  | .rejected => .rejected
  | .expired => .expired

/-- `to_pb` of a reason. -/
def RejectReason.toPb : RejectReason → Pb.RejectReason
  | .none => .none
  | .invalidPrice => .invalidPrice
  | .invalidQuantity => .invalidQuantity
  | .selfTrade => .selfTrade
  | .poolExhausted => .poolExhausted
  | .symbolHalted => .symbolHalted
  | .unknownOrder => .unknownOrder
  | .duplicateOrderId => .duplicateOrderId
  | .tooLate => .tooLate
  | .priceBand => .priceBand
  | .priceCollar => .priceCollar
  | .stopWouldTrigger => .stopWouldTrigger

/-! ## Filling -/

/-- `fill` of an event: the fields that it sets. -/
def MarketEvent.fill (m : MarketEvent) : Pb.MarketEvent :=
  let e := m.event
  { symbol := m.symbol
    seq := e.sequenceNumber
    kind := e.kind.toPb
    ts := e.ts
    orderId := e.orderId
    passiveId := e.passiveId
    ownerId := e.ownerId
    otherOwner := e.otherOwner
    side := e.side.toPb
    price := e.price
    quantity := e.quantity
    limitPrice := e.limitPrice
    clientOrderId := if m.clientOrderId.isEmpty then "" else m.clientOrderId
    rejectReason := if e.kind = .rejected then e.rejectReason.toPb else .unspecified }

/-- `fill_reply`. -/
def Reply.fill (r : Reply) : Pb.Reply where
  gatewayId := r.gatewayId
  clientOrderId := r.clientOrderId
  accountId := r.accountId
  orderId := r.orderId
  symbol := r.symbol
  rejectReason := r.rejectReason.toPb
  unacceptedQuantity := r.unacceptedQuantity
  restedPrice := r.restedPrice

/-- The fields that are set for a resting order. -/
def RestingOrder.fill (o : RestingOrder) : Pb.RestingOrder where
  orderId := o.orderId
  ownerId := o.ownerId
  price := o.price
  quantity := o.quantity
  filled := o.filled

/-- The fields that are set for a dormant stop. -/
def DormantStop.fill (s : DormantStop) : Pb.DormantStop where
  orderId := s.orderId
  ownerId := s.ownerId
  side := s.side.toPb
  stopPrice := s.stopPrice
  limitPrice := s.limitPrice
  quantity := s.quantity

/-- `fill` of a snapshot. -/
def SnapshotReady.fill (ready : SnapshotReady) : Pb.BookSnapshot :=
  let s := ready.snapshot
  { symbol := ready.symbol
    asOfSeq := s.asOfSequence
    bids := s.bids.map RestingOrder.fill
    asks := s.asks.map RestingOrder.fill
    stops := s.stops.map DormantStop.fill
    lastTradePrice := s.lastTradePrice
    halted := s.halted }

/-- `fill_feed_message`. -/
def FeedItem.fillFeedMessage : FeedItem → Except Thrown Pb.FeedMessage
  | .snapshotReady ready => .ok (.snapshot ready.fill)
  | .marketEvent event => .ok (.event event.fill)
  | .reply _ => .error (.logicError "a Reply never goes on the market stream; use fill_reply")

/-! ## Reading

What a gateway can make of a message. There is no gateway in the repository; only the statements read
messages. -/

namespace Pb

/-- The value of an enumeration, when it is set. -/
def Side.read : Side → Option OrderBookEngine.Side
  | .unspecified => Option.none
  | .buy => some .buy
  | .sell => some .sell

/-- The kind of an event, when it is set. -/
def EventKind.read : EventKind → Option OrderBookEngine.EventKind
  | .unspecified => Option.none
  | .accepted => some .accepted
  | .rested => some .rested
  | .trade => some .trade
  | .cancelled => some .cancelled
  | .modified => some .modified
  | .replaced => some .replaced
  | .stopAccepted => some .stopAccepted
  | .stopTriggered => some .stopTriggered
  | .stopCancelled => some .stopCancelled
  | .stopModified => some .stopModified
  | .halted => some .halted
  | .resumed => some .resumed
  | .rejected => some .rejected
  | .expired => some .expired

/-- A reason, when it is set. -/
def RejectReason.read : RejectReason → Option OrderBookEngine.RejectReason
  | .unspecified => Option.none
  | .none => some .none
  | .invalidPrice => some .invalidPrice
  | .invalidQuantity => some .invalidQuantity
  | .selfTrade => some .selfTrade
  | .poolExhausted => some .poolExhausted
  | .symbolHalted => some .symbolHalted
  | .unknownOrder => some .unknownOrder
  | .duplicateOrderId => some .duplicateOrderId
  | .tooLate => some .tooLate
  | .priceBand => some .priceBand
  | .priceCollar => some .priceCollar
  | .stopWouldTrigger => some .stopWouldTrigger

/-- What a gateway reads in an event: no reason is no reason. -/
def MarketEvent.read (m : MarketEvent) : Option OrderBookEngine.MarketEvent := do
  let kind ← m.kind.read
  let side ← m.side.read
  return {
    symbol := m.symbol
    event := {
      sequenceNumber := m.seq, kind, ts := m.ts, orderId := m.orderId, passiveId := m.passiveId
      ownerId := m.ownerId, otherOwner := m.otherOwner, side, price := m.price, quantity := m.quantity
      limitPrice := m.limitPrice, rejectReason := m.rejectReason.read.getD .none }
    clientOrderId := m.clientOrderId }

/-- What a gateway reads in an answer. -/
def Reply.read (m : Reply) : Option OrderBookEngine.Reply := do
  let rejectReason ← m.rejectReason.read
  return {
    clientOrderId := m.clientOrderId, symbol := m.symbol, rejectReason
    unacceptedQuantity := m.unacceptedQuantity, restedPrice := m.restedPrice, gatewayId := m.gatewayId
    accountId := m.accountId, orderId := m.orderId }

/-- What a gateway reads in a resting order. -/
def RestingOrder.read (m : RestingOrder) : OrderBookEngine.RestingOrder where
  orderId := m.orderId
  ownerId := m.ownerId
  price := m.price
  quantity := m.quantity
  filled := m.filled

/-- What a gateway reads in a dormant stop. -/
def DormantStop.read (m : DormantStop) : Option OrderBookEngine.DormantStop :=
  m.side.read.map fun side =>
    { orderId := m.orderId, ownerId := m.ownerId, side, stopPrice := m.stopPrice
      limitPrice := m.limitPrice, quantity := m.quantity }

/-- What a gateway reads in a snapshot. -/
def BookSnapshot.read (m : BookSnapshot) : Option OrderBookEngine.BookSnapshot :=
  (m.stops.mapM DormantStop.read).map fun stops =>
    { asOfSequence := m.asOfSeq, bids := m.bids.map RestingOrder.read, asks := m.asks.map RestingOrder.read
      stops, lastTradePrice := m.lastTradePrice, halted := m.halted }

end Pb

/-! ## Nothing is lost -/

/-- A side survives the wire. -/
theorem Side.read_toPb (side : Side) : side.toPb.read = some side := by cases side <;> rfl

/-- The kind of an event survives the wire. -/
theorem EventKind.read_toPb (kind : EventKind) : kind.toPb.read = some kind := by cases kind <;> rfl

/-- A reason survives the wire. -/
theorem RejectReason.read_toPb (reason : RejectReason) : reason.toPb.read = some reason := by
  cases reason <;> rfl

/-- Only a rejection has a reason. -/
def EngineEvent.Plain (e : EngineEvent) : Prop := e.kind ≠ .rejected → e.rejectReason = .none

/-- A plain event survives the wire. -/
theorem MarketEvent.read_fill {m : MarketEvent} (h : m.event.Plain) : m.fill.read = some m := by
  have hid : (if m.clientOrderId.isEmpty then "" else m.clientOrderId) = m.clientOrderId := by
    split_ifs with hempty
    · exact (String.isEmpty_iff.mp hempty).symm
    · rfl
  have hreason : (if m.event.kind = .rejected then m.event.rejectReason.toPb
      else .unspecified : Pb.RejectReason).read.getD .none = m.event.rejectReason := by
    split_ifs with hkind
    · rw [RejectReason.read_toPb]
      rfl
    · exact (h hkind).symm
  unfold MarketEvent.fill Pb.MarketEvent.read
  simp only [EventKind.read_toPb, Side.read_toPb, hid, hreason]
  rfl

/-- An answer survives the wire. -/
theorem Reply.read_fill (r : Reply) : r.fill.read = some r := by
  unfold Reply.fill Pb.Reply.read
  simp only [RejectReason.read_toPb]
  rfl

/-- A dormant stop survives the wire. -/
theorem DormantStop.read_fill (s : DormantStop) : s.fill.read = some s := by
  unfold DormantStop.fill Pb.DormantStop.read
  simp only [Side.read_toPb]
  rfl

/-- All of a snapshot but whom it is for. -/
theorem SnapshotReady.read_fill (ready : SnapshotReady) : ready.fill.read = some ready.snapshot := by
  have horders : ∀ orders : List RestingOrder,
      (orders.map RestingOrder.fill).map Pb.RestingOrder.read = orders := fun orders => by
    rw [List.map_map]
    exact List.map_id orders
  have hstops : (ready.snapshot.stops.map DormantStop.fill).mapM Pb.DormantStop.read =
      some ready.snapshot.stops := by
    induction ready.snapshot.stops with
    | nil => rfl
    | cons stop stops ih =>
      rw [List.map_cons, List.mapM_cons, DormantStop.read_fill, ih]
      rfl
  unfold SnapshotReady.fill Pb.BookSnapshot.read
  simp only [hstops, horders]
  rfl

end OrderBookEngine
