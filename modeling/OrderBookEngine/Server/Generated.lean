import OrderBookEngine.Lib.Wire
import OrderBookEngine.Server.Codec

/-!
# A generated code

The schema of the messages is not in the repository, so the numbers of the fields and of the enumerators
are not known. With both counted from one, in the order in which the codec writes them, the wire format
gives a code that is lawful.
-/

namespace OrderBookEngine

namespace Pb

open Wire

/-! ## Values -/

/-- The number that a signed value is written as. -/
def signed (n : Int64) : ℕ := n.toUInt64.toNat

/-- The signed value of a number. -/
def toSigned (n : ℕ) : Int64 := (UInt64.ofNat n).toInt64

/-- An enumerator is written as a signed value of 64 bits. -/
def enum (n : Enum) : ℕ := signed n.toInt64

/-- The enumerator of a number. -/
def toEnum (n : ℕ) : Enum := (toSigned n).toInt32

/-- A signed value is read back. -/
@[simp] theorem toSigned_signed (n : Int64) : toSigned (signed n) = n := by
  unfold toSigned signed
  rw [UInt64.ofNat_toNat, Int64.toInt64_toUInt64]

/-- An enumerator is read back. -/
@[simp] theorem toEnum_enum (n : Enum) : toEnum (enum n) = n := by
  unfold toEnum enum
  rw [toSigned_signed, Int32.toInt32_toInt64]

/-- So is a signed value that may be missing. -/
@[simp] theorem toSigned_comp_signed : toSigned ∘ signed = id := funext toSigned_signed

/-! ## Fields -/

/-- The fields of an order. -/
def Order.fields (o : Order) : List Field :=
  scalar 1 o.id.toNat ++ scalar 2 o.ownerId.toNat ++ scalar 3 (enum o.side) ++ scalar 4 (enum o.type) ++
    scalar 5 (signed o.quantity) ++ optional 6 (o.price.map signed)

/-- The order of some fields. -/
def Order.ofFields (fields : List Field) : Order where
  id := .ofNat (scalarOf 1 fields)
  ownerId := .ofNat (scalarOf 2 fields)
  side := toEnum (scalarOf 3 fields)
  type := toEnum (scalarOf 4 fields)
  quantity := toSigned (scalarOf 5 fields)
  price := (numberOf 6 fields).map toSigned

/-- The fields of a stop. -/
def Stop.fields (o : Stop) : List Field :=
  scalar 1 o.id.toNat ++ scalar 2 o.ownerId.toNat ++ scalar 3 (enum o.side) ++
    scalar 4 (signed o.stopPrice) ++ scalar 5 (signed o.quantity) ++ optional 6 (o.limitPrice.map signed)

/-- The stop of some fields. -/
def Stop.ofFields (fields : List Field) : Stop where
  id := .ofNat (scalarOf 1 fields)
  ownerId := .ofNat (scalarOf 2 fields)
  side := toEnum (scalarOf 3 fields)
  stopPrice := toSigned (scalarOf 4 fields)
  quantity := toSigned (scalarOf 5 fields)
  limitPrice := (numberOf 6 fields).map toSigned

/-- The fields of a cancellation. -/
def Cancel.fields (m : Cancel) : List Field := scalar 1 m.requester.toNat ++ scalar 2 m.orderId.toNat

/-- The cancellation of some fields. -/
def Cancel.ofFields (fields : List Field) : Cancel where
  requester := .ofNat (scalarOf 1 fields)
  orderId := .ofNat (scalarOf 2 fields)

/-- The fields of a modification. -/
def ModifyOrder.fields (m : ModifyOrder) : List Field :=
  scalar 1 m.requester.toNat ++ scalar 2 m.orderId.toNat ++ scalar 3 (signed m.newPrice) ++
    scalar 4 (signed m.newQuantity)

/-- The modification of some fields. -/
def ModifyOrder.ofFields (fields : List Field) : ModifyOrder where
  requester := .ofNat (scalarOf 1 fields)
  orderId := .ofNat (scalarOf 2 fields)
  newPrice := toSigned (scalarOf 3 fields)
  newQuantity := toSigned (scalarOf 4 fields)

/-- The fields of a stop's modification. -/
def ModifyStop.fields (m : ModifyStop) : List Field :=
  scalar 1 m.requester.toNat ++ scalar 2 m.orderId.toNat ++ scalar 3 (signed m.newStopPrice) ++
    optional 4 (m.newLimitPrice.map signed) ++ scalar 5 (signed m.newQuantity)

/-- The modification of a stop of some fields. -/
def ModifyStop.ofFields (fields : List Field) : ModifyStop where
  requester := .ofNat (scalarOf 1 fields)
  orderId := .ofNat (scalarOf 2 fields)
  newStopPrice := toSigned (scalarOf 3 fields)
  newLimitPrice := (numberOf 4 fields).map toSigned
  newQuantity := toSigned (scalarOf 5 fields)

/-- An order is read back from its fields. -/
theorem Order.ofFields_fields (o : Order) : Order.ofFields o.fields = o := by
  simp [Order.ofFields, Order.fields, scalarOf]

/-- A stop is read back from its fields. -/
theorem Stop.ofFields_fields (o : Stop) : Stop.ofFields o.fields = o := by
  simp [Stop.ofFields, Stop.fields, scalarOf]

/-- A cancellation is read back from its fields. -/
theorem Cancel.ofFields_fields (m : Cancel) : Cancel.ofFields m.fields = m := by
  simp [Cancel.ofFields, Cancel.fields, scalarOf]

/-- A modification is read back from its fields. -/
theorem ModifyOrder.ofFields_fields (m : ModifyOrder) : ModifyOrder.ofFields m.fields = m := by
  simp [ModifyOrder.ofFields, ModifyOrder.fields, scalarOf]

/-- A stop's modification is read back from its fields. -/
theorem ModifyStop.ofFields_fields (m : ModifyStop) : ModifyStop.ofFields m.fields = m := by
  simp [ModifyStop.ofFields, ModifyStop.fields, scalarOf]

/-! ## Sizes -/

/-- A signed value is written as a number of 64 bits. -/
theorem signed_lt (n : Int64) : signed n < 2 ^ 64 := n.toUInt64.toNat_lt

/-- A number takes 20 bytes at most. -/
theorem length_scalar_unsigned (key : ℕ) (hkey : key ≤ 6) (n : UInt64) :
    (encode (scalar key n.toNat)).length ≤ 20 := length_encode_scalar (by omega) n.toNat_lt

/-- So does a signed value. -/
theorem length_scalar_signed (key : ℕ) (hkey : key ≤ 6) (n : Int64) :
    (encode (scalar key (signed n))).length ≤ 20 := length_encode_scalar (by omega) (signed_lt n)

/-- So does one that may be missing. -/
theorem length_optional_signed (key : ℕ) (hkey : key ≤ 6) (n : Option Int64) :
    (encode (optional key (n.map signed))).length ≤ 20 := by
  refine length_encode_optional (by omega) fun m hm => ?_
  obtain ⟨x, -, rfl⟩ := Option.map_eq_some_iff.mp hm
  exact signed_lt x

/-- An order takes 120 bytes at most. -/
theorem Order.length_fields (o : Order) : (encode o.fields).length ≤ 120 := by
  have hid := length_scalar_unsigned 1 (by omega) o.id
  have howner := length_scalar_unsigned 2 (by omega) o.ownerId
  have hside := length_scalar_signed 3 (by omega) o.side.toInt64
  have htype := length_scalar_signed 4 (by omega) o.type.toInt64
  have hquantity := length_scalar_signed 5 (by omega) o.quantity
  have hprice := length_optional_signed 6 (by omega) o.price
  unfold Order.fields enum
  simp only [encode_append, List.length_append]
  omega

/-- So does a stop. -/
theorem Stop.length_fields (o : Stop) : (encode o.fields).length ≤ 120 := by
  have hid := length_scalar_unsigned 1 (by omega) o.id
  have howner := length_scalar_unsigned 2 (by omega) o.ownerId
  have hside := length_scalar_signed 3 (by omega) o.side.toInt64
  have hstop := length_scalar_signed 4 (by omega) o.stopPrice
  have hquantity := length_scalar_signed 5 (by omega) o.quantity
  have hlimit := length_optional_signed 6 (by omega) o.limitPrice
  unfold Stop.fields enum
  simp only [encode_append, List.length_append]
  omega

/-- So does a cancellation. -/
theorem Cancel.length_fields (m : Cancel) : (encode m.fields).length ≤ 120 := by
  have hrequester := length_scalar_unsigned 1 (by omega) m.requester
  have horder := length_scalar_unsigned 2 (by omega) m.orderId
  unfold Cancel.fields
  simp only [encode_append, List.length_append]
  omega

/-- So does a modification. -/
theorem ModifyOrder.length_fields (m : ModifyOrder) : (encode m.fields).length ≤ 120 := by
  have hrequester := length_scalar_unsigned 1 (by omega) m.requester
  have horder := length_scalar_unsigned 2 (by omega) m.orderId
  have hprice := length_scalar_signed 3 (by omega) m.newPrice
  have hquantity := length_scalar_signed 4 (by omega) m.newQuantity
  unfold ModifyOrder.fields
  simp only [encode_append, List.length_append]
  omega

/-- So does a stop's modification. -/
theorem ModifyStop.length_fields (m : ModifyStop) : (encode m.fields).length ≤ 120 := by
  have hrequester := length_scalar_unsigned 1 (by omega) m.requester
  have horder := length_scalar_unsigned 2 (by omega) m.orderId
  have hstop := length_scalar_signed 3 (by omega) m.newStopPrice
  have hlimit := length_optional_signed 4 (by omega) m.newLimitPrice
  have hquantity := length_scalar_signed 5 (by omega) m.newQuantity
  unfold ModifyStop.fields
  simp only [encode_append, List.length_append]
  omega

/-! ## Bodies -/

/-- A submessage that may not be set. -/
def submessage (fields : Option (List Field)) : List Field :=
  (fields.map fun fields => (1, .bytes (encode fields))).toList

/-- The fields of a submessage, if it is set and can be read. -/
def ofSubmessage (fields : List Field) : Option (Option (List Field)) :=
  match bytesOf 1 fields with
  | none => some none
  | some bytes => (decode bytes).map some

/-- A submessage is read back. -/
theorem ofSubmessage_submessage (fields : Option (List Field)) :
    ofSubmessage (submessage fields) = some fields := by
  cases fields with
  | none => rfl
  | some fields =>
    have hbytes : bytesOf 1 (submessage (some fields)) = some (encode fields) := rfl
    unfold ofSubmessage
    rw [hbytes]
    exact congrArg (Option.map some) (decode_encode fields)

/-- A submessage takes 20 bytes more than its fields, at most. -/
theorem length_submessage (fields : Option (List Field)) (h : ∀ f ∈ fields, (encode f).length ≤ 120) :
    (encode (submessage fields)).length ≤ 140 := by
  cases fields with
  | none => exact Nat.zero_le _
  | some fields =>
    have hfields := h fields rfl
    have hfield : (encodeField (1, .bytes (encode fields))).length ≤ 20 + (encode fields).length :=
      length_encodeField_bytes (by omega) (by omega)
    have hencode : encode (submessage (some fields)) = encodeField (1, .bytes (encode fields)) :=
      encode_singleton _
    rw [hencode]
    omega

namespace Body

/-- The number of the field that a case is in. -/
def key : Body → ℕ
  | newOrder _ => 1
  | cancelOrder _ => 2
  | modifyOrder _ => 3
  | placeStop _ => 4
  | cancelStop _ => 5
  | modifyStop _ => 6

/-- The fields of a case. -/
def fields : Body → List Field
  | newOrder message => submessage (message.order.map Order.fields)
  | cancelOrder message => message.fields
  | modifyOrder message => message.fields
  | placeStop message => submessage (message.stop.map Stop.fields)
  | cancelStop message => message.fields
  | modifyStop message => message.fields

/-- The case of a field. -/
def ofFields (key : ℕ) (fields : List Field) : Option Body :=
  match key with
  | 1 => (ofSubmessage fields).map fun order => newOrder { order := order.map Order.ofFields }
  | 2 => some (cancelOrder (Cancel.ofFields fields))
  | 3 => some (modifyOrder (ModifyOrder.ofFields fields))
  | 4 => (ofSubmessage fields).map fun stop => placeStop { stop := stop.map Stop.ofFields }
  | 5 => some (cancelStop (Cancel.ofFields fields))
  | 6 => some (modifyStop (ModifyStop.ofFields fields))
  | _ => none

/-- A case is read back from its fields. -/
theorem ofFields_fields (body : Body) : ofFields body.key body.fields = some body := by
  have horder : Order.ofFields ∘ Order.fields = id := funext Order.ofFields_fields
  have hstop : Stop.ofFields ∘ Stop.fields = id := funext Stop.ofFields_fields
  cases body with
  | newOrder m => simp [ofFields, fields, key, ofSubmessage_submessage, horder]
  | cancelOrder m => simp [ofFields, fields, key, Cancel.ofFields_fields]
  | modifyOrder m => simp [ofFields, fields, key, ModifyOrder.ofFields_fields]
  | placeStop m => simp [ofFields, fields, key, ofSubmessage_submessage, hstop]
  | cancelStop m => simp [ofFields, fields, key, Cancel.ofFields_fields]
  | modifyStop m => simp [ofFields, fields, key, ModifyStop.ofFields_fields]

/-- A case takes 140 bytes at most. -/
theorem length_fields (body : Body) : (encode body.fields).length ≤ 140 := by
  have hmap : ∀ {α : Type} (f : α → List Field) (x : Option α), (∀ y, (encode (f y)).length ≤ 120) →
      ∀ fields ∈ x.map f, (encode fields).length ≤ 120 := by
    intro α f x h fields hfields
    obtain ⟨y, -, rfl⟩ := Option.map_eq_some_iff.mp hfields
    exact h y
  cases body with
  | newOrder m => exact length_submessage _ (hmap Order.fields m.order Order.length_fields)
  | cancelOrder m => exact m.length_fields.trans (by omega)
  | modifyOrder m => exact m.length_fields.trans (by omega)
  | placeStop m => exact length_submessage _ (hmap Stop.fields m.stop Stop.length_fields)
  | cancelStop m => exact m.length_fields.trans (by omega)
  | modifyStop m => exact m.length_fields.trans (by omega)

end Body

/-! ## Messages -/

/-- The bytes of a message. -/
def serialize (message : CommandBody) : Payload :=
  encode (message.body.map fun body => (body.key, .bytes (encode body.fields))).toList

/-- Of the cases that a message has, the last counts. -/
def parse (payload : Payload) : Option CommandBody :=
  (decode payload).bind fun fields =>
    match fields.getLast? with
    | none => some {}
    | some (key, .bytes bytes) =>
      (decode bytes).bind fun fields => (Body.ofFields key fields).map fun body => { body := some body }
    | some (_, .number _) => none

/-- A message is read back from its bytes. -/
theorem parse_serialize (message : CommandBody) : parse (serialize message) = some message := by
  obtain ⟨body⟩ := message
  unfold parse serialize
  rw [decode_encode]
  cases body with
  | none => rfl
  | some body =>
    show (decode (encode body.fields)).bind _ = _
    rw [decode_encode, Option.bind_some, Body.ofFields_fields]
    rfl

/-- A message is never too large. -/
theorem length_serialize (message : CommandBody) : (serialize message).length ≤ intMax := by
  obtain ⟨body⟩ := message
  cases body with
  | none => exact Nat.zero_le _
  | some body =>
    have hbody := body.length_fields
    have hkey : body.key ≤ 6 := by cases body <;> simp [Body.key]
    have hfield : (encodeField (body.key, .bytes (encode body.fields))).length ≤
        20 + (encode body.fields).length := length_encodeField_bytes (by omega) (by omega)
    have hencode : serialize { body := some body } = encodeField (body.key, .bytes (encode body.fields)) :=
      encode_singleton _
    rw [hencode]
    unfold intMax
    omega

end Pb

/-- The generated code, with everything counted from one. -/
def generated : Protobuf where
  sideBuy := 1
  sideSell := 2
  orderTypeLimit := 1
  orderTypeMarket := 2
  serialize := Pb.serialize
  parse := Pb.parse

/-- The generated code of the example behaves as the real one. -/
theorem generated_lawful : generated.Lawful where
  sides := by decide
  orderTypes := by decide
  parse_serialize := Pb.parse_serialize
  length_serialize := Pb.length_serialize

end OrderBookEngine
