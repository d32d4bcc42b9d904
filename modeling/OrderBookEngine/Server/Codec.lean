import OrderBookEngine.Server.Publisher

/-!
# The codec of commands

`codec.cpp`: a command without its symbol and its client's id, as the bytes of a `CommandBody` message.
The message classes are generated, and what they do on bytes is a parameter, `Protobuf`. A submessage
that is not set reads as one whose fields all have their defaults.
-/

namespace OrderBookEngine

/-! ## Messages -/

namespace Pb

/-- An enumeration is open: any number can arrive. Zero is its unspecified value. -/
abbrev Enum := Int32

/-- A new order on the wire. -/
structure Order where
  /-- The id of the order. -/
  id : UInt64 := 0
  /-- Who may change or cancel it. -/
  ownerId : UInt64 := 0
  /-- Buy or sell. -/
  side : Enum := 0
  /-- Limit or market. -/
  type : Enum := 0
  /-- Unset for a market order. -/
  price : Option Int64 := none
  /-- The quantity of the order. -/
  quantity : Int64 := 0
deriving DecidableEq, Repr

/-- A new stop on the wire. -/
structure Stop where
  /-- The id of the stop. -/
  id : UInt64 := 0
  /-- Who may change or cancel it. -/
  ownerId : UInt64 := 0
  /-- Buy or sell. -/
  side : Enum := 0
  /-- The price that fires it. -/
  stopPrice : Int64 := 0
  /-- The quantity of its order. -/
  quantity : Int64 := 0
  /-- Unset for a market order. -/
  limitPrice : Option Int64 := none
deriving DecidableEq, Repr

/-- The body of a new order. -/
structure NewOrder where
  /-- A submessage, which may be unset. -/
  order : Option Order := none
deriving DecidableEq, Repr

/-- The body of a new stop. -/
structure PlaceStop where
  /-- A submessage, which may be unset. -/
  stop : Option Stop := none
deriving DecidableEq, Repr

/-- Of an order or of a stop. -/
structure Cancel where
  /-- Who asks. -/
  requester : UInt64 := 0
  /-- The order or the stop to cancel. -/
  orderId : UInt64 := 0
deriving DecidableEq, Repr

/-- The body of a modification. -/
structure ModifyOrder where
  /-- Who asks. -/
  requester : UInt64 := 0
  /-- The order to modify. -/
  orderId : UInt64 := 0
  /-- Its new price. -/
  newPrice : Int64 := 0
  /-- Its new quantity. -/
  newQuantity : Int64 := 0
deriving DecidableEq, Repr

/-- The body of a stop's modification. -/
structure ModifyStop where
  /-- Who asks. -/
  requester : UInt64 := 0
  /-- The stop to modify. -/
  orderId : UInt64 := 0
  /-- Its new trigger. -/
  newStopPrice : Int64 := 0
  /-- The new price of its order, unset for a market order. -/
  newLimitPrice : Option Int64 := none
  /-- Its new quantity. -/
  newQuantity : Int64 := 0
deriving DecidableEq, Repr

/-- The cases of the body. -/
inductive Body where
  /-- A new order. -/
  | newOrder (message : NewOrder)
  /-- A cancellation of an order. -/
  | cancelOrder (message : Cancel)
  /-- A modification of an order. -/
  | modifyOrder (message : ModifyOrder)
  /-- A new stop. -/
  | placeStop (message : PlaceStop)
  /-- A cancellation of a stop. -/
  | cancelStop (message : Cancel)
  /-- A modification of a stop. -/
  | modifyStop (message : ModifyStop)
deriving DecidableEq, Repr

/-- The payload of a command, as a message. -/
structure CommandBody where
  /-- Unset when no case was written, or one that is not known. -/
  body : Option Body := none
deriving DecidableEq, Repr

/-- An unset submessage reads as its defaults. -/
def NewOrder.read (message : NewOrder) : Order := message.order.getD {}

/-- An unset submessage reads as its defaults. -/
def PlaceStop.read (message : PlaceStop) : Stop := message.stop.getD {}

end Pb

/-- The bytes of a message. -/
abbrev Payload := List UInt8

/-- `INT_MAX`, the largest size of a message. -/
def intMax : ℕ := 2 ^ 31 - 1

/-- The generated code: the numbers of the enumerators, and the bytes of a message. -/
structure Protobuf where
  /-- The number of the side to buy. -/
  sideBuy : Pb.Enum
  /-- The number of the side to sell. -/
  sideSell : Pb.Enum
  /-- The number of a limit order's type. -/
  orderTypeLimit : Pb.Enum
  /-- The number of a market order's type. -/
  orderTypeMarket : Pb.Enum
  /-- `SerializeToString`. -/
  serialize : Pb.CommandBody → Payload
  /-- `ParseFromString`. -/
  parse : Payload → Option Pb.CommandBody

/-- What is relied on: the enumerators have different numbers, none of them zero, a message can be read
back from its bytes, and no message is too large. -/
structure Protobuf.Lawful (pb : Protobuf) : Prop where
  /-- The numbers of the sides differ. -/
  sides : [0, pb.sideBuy, pb.sideSell].Nodup
  /-- The numbers of the order types differ. -/
  orderTypes : [0, pb.orderTypeLimit, pb.orderTypeMarket].Nodup
  /-- A message is read back from its bytes. -/
  parse_serialize : ∀ message, pb.parse (pb.serialize message) = some message
  /-- No message is too large. -/
  length_serialize : ∀ message, (pb.serialize message).length ≤ intMax

/-- What `decode_body` returns: a command or an error. -/
structure DecodeResult where
  /-- Set on success. -/
  command : Option Command := none
  /-- Set on failure. -/
  error : String := ""
deriving DecidableEq, Repr

namespace Protobuf

variable (pb : Protobuf)

/-! ## Enumerations -/

/-- The number of a side. -/
def toPbSide : Side → Pb.Enum
  | .buy => pb.sideBuy
  | .sell => pb.sideSell

/-- The side of a number. -/
def fromPbSide (side : Pb.Enum) : Option Side :=
  if side = pb.sideBuy then some .buy
  else if side = pb.sideSell then some .sell
  else none

/-- The number of an order type. -/
def toPbOrderType : OrderType → Pb.Enum
  | .limit => pb.orderTypeLimit
  | .market => pb.orderTypeMarket

/-- The order type of a number. -/
def fromPbOrderType (type : Pb.Enum) : Option OrderType :=
  if type = pb.orderTypeLimit then some .limit
  else if type = pb.orderTypeMarket then some .market
  else none

/-! ## Encoding -/

/-- An order as it is written. -/
def pbOrder (o : Order) : Pb.Order where
  id := .ofNat o.id
  ownerId := .ofNat o.ownerId
  side := pb.toPbSide o.side
  type := pb.toPbOrderType o.type
  quantity := .ofInt o.quantity
  price := o.price.map .ofInt

/-- A stop as it is written. -/
def pbStop (o : StopOrder) : Pb.Stop where
  id := .ofNat o.id
  ownerId := .ofNat o.ownerId
  side := pb.toPbSide o.side
  stopPrice := .ofInt o.stopPrice
  quantity := .ofInt o.quantity
  limitPrice := o.limitPrice.map .ofInt

/-- The message of a command, or what encoding it throws. -/
def bodyOf : Command → Except Thrown Pb.CommandBody
  | .newOrder _ _ order => .ok { body := some (.newOrder { order := some (pb.pbOrder order) }) }
  | .cancelOrder _ _ requester orderId => .ok
    { body := some (.cancelOrder { requester := .ofNat requester, orderId := .ofNat orderId }) }
  | .modifyOrder _ _ requester orderId newPrice newQuantity => .ok
    { body := some (.modifyOrder
      { requester := .ofNat requester
        orderId := .ofNat orderId
        newPrice := .ofInt newPrice
        newQuantity := .ofInt newQuantity }) }
  | .placeStop _ _ stop => .ok { body := some (.placeStop { stop := some (pb.pbStop stop) }) }
  | .cancelStop _ _ requester orderId => .ok
    { body := some (.cancelStop { requester := .ofNat requester, orderId := .ofNat orderId }) }
  | .modifyStop _ _ requester orderId newStopPrice newLimitPrice newQuantity => .ok
    { body := some (.modifyStop
      { requester := .ofNat requester
        orderId := .ofNat orderId
        newStopPrice := .ofInt newStopPrice
        newLimitPrice := newLimitPrice.map .ofInt
        newQuantity := .ofInt newQuantity }) }
  | .shutdown => .error (.invalidArgument "Shutdown commands cannot be encoded")
  | .takeSnapshot _ _ => .error (.invalidArgument "TakeSnapshot commands cannot be encoded")

/-- `encode_body`: the payload of a command. -/
def encodeBody (command : Command) : Except Thrown Payload := (pb.bodyOf command).map pb.serialize

/-! ## Decoding -/

/-- The command of a message, or the error. -/
def commandOf (symbol : SymbolId) (clientOrderId : ClientOrderId) :
    Option Pb.Body → DecodeResult
  | some (.newOrder message) =>
    let p := message.read
    match pb.fromPbSide p.side with
    | none => { error := "invalid order side" }
    | some side =>
      match pb.fromPbOrderType p.type with
      | none => { error := "invalid order type" }
      | some type =>
        let order : Order :=
          { id := p.id.toNat, ownerId := p.ownerId.toNat, side, type
            price := p.price.map Int64.toInt, quantity := p.quantity.toInt }
        { command := some (.newOrder clientOrderId symbol order) }
  | some (.cancelOrder p) =>
    { command := some (.cancelOrder clientOrderId symbol p.requester.toNat p.orderId.toNat) }
  | some (.modifyOrder p) =>
    { command := some (.modifyOrder clientOrderId symbol p.requester.toNat p.orderId.toNat
        p.newPrice.toInt p.newQuantity.toInt) }
  | some (.placeStop message) =>
    let p := message.read
    match pb.fromPbSide p.side with
    | none => { error := "invalid stop side" }
    | some side =>
      let stop : StopOrder :=
        { id := p.id.toNat, ownerId := p.ownerId.toNat, side, stopPrice := p.stopPrice.toInt
          quantity := p.quantity.toInt, limitPrice := p.limitPrice.map Int64.toInt }
      { command := some (.placeStop clientOrderId symbol stop) }
  | some (.cancelStop p) =>
    { command := some (.cancelStop clientOrderId symbol p.requester.toNat p.orderId.toNat) }
  | some (.modifyStop p) =>
    { command := some (.modifyStop clientOrderId symbol p.requester.toNat p.orderId.toNat
        p.newStopPrice.toInt (p.newLimitPrice.map Int64.toInt) p.newQuantity.toInt) }
  | none => { error := "empty command body" }

/-- `decode_body`: the command of a payload. -/
def decodeBody (symbol : SymbolId) (clientOrderId : ClientOrderId) (payload : Payload) : DecodeResult :=
  -- `ParseFromArray` takes the length as an `int`.
  if intMax < payload.length then { error := "payload exceeds maximum protobuf size" }
  else
    match pb.parse payload with
    | none => { error := "payload does not parse" }
    | some message => pb.commandOf symbol clientOrderId message.body

end Protobuf

end OrderBookEngine
