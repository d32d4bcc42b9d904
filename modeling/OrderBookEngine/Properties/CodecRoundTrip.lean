import OrderBookEngine.Server.Generated

/-!
# The codec's round trip

Reading back what was written is the identity on each field that fits its type (`Fits`), so a command
comes back as it was sent, under the symbol and the id of the envelope (`received`). What the decoder
accepts is what it could have written (`WellFormed`).
-/

namespace OrderBookEngine

/-! ## Commands -/

/-- An unsigned value of 64 bits. -/
def FitsUnsigned (n : ℕ) : Prop := n < 2 ^ 64

/-- A signed value of 64 bits. -/
def FitsSigned (n : ℤ) : Prop := -2 ^ 63 ≤ n ∧ n < 2 ^ 63

/-- The bounds are comparisons of numbers. -/
instance (n : ℕ) : Decidable (FitsUnsigned n) := inferInstanceAs (Decidable (n < 2 ^ 64))

/-- The bounds are comparisons of numbers. -/
instance (n : ℤ) : Decidable (FitsSigned n) := inferInstanceAs (Decidable (-2 ^ 63 ≤ n ∧ n < 2 ^ 63))

namespace Command

/-- The fields are values of their types in the source. -/
def Fits : Command → Prop
  | .newOrder _ _ o => FitsUnsigned o.id ∧ FitsUnsigned o.ownerId ∧ FitsSigned o.quantity ∧
      ∀ price ∈ o.price, FitsSigned price
  | .cancelOrder _ _ requester orderId => FitsUnsigned requester ∧ FitsUnsigned orderId
  | .modifyOrder _ _ requester orderId newPrice newQuantity => FitsUnsigned requester ∧
      FitsUnsigned orderId ∧ FitsSigned newPrice ∧ FitsSigned newQuantity
  | .placeStop _ _ o => FitsUnsigned o.id ∧ FitsUnsigned o.ownerId ∧ FitsSigned o.stopPrice ∧
      FitsSigned o.quantity ∧ ∀ price ∈ o.limitPrice, FitsSigned price
  | .cancelStop _ _ requester orderId => FitsUnsigned requester ∧ FitsUnsigned orderId
  | .modifyStop _ _ requester orderId newStopPrice newLimitPrice newQuantity =>
      FitsUnsigned requester ∧ FitsUnsigned orderId ∧ FitsSigned newStopPrice ∧
      (∀ price ∈ newLimitPrice, FitsSigned price) ∧ FitsSigned newQuantity
  | .shutdown => True
  | .takeSnapshot _ _ => True

/-- The commands that come from the server itself have no encoding. -/
def OnWire : Command → Prop
  | .shutdown => False
  | .takeSnapshot _ _ => False
  | _ => True

/-- A command as it is received: the envelope gives its symbol and its client's id, and an order starts
with nothing filled. -/
def received (symbol : SymbolId) (clientOrderId : ClientOrderId) : Command → Command
  | .newOrder _ _ order => .newOrder clientOrderId symbol { order with filled := 0 }
  | .cancelOrder _ _ requester orderId => .cancelOrder clientOrderId symbol requester orderId
  | .modifyOrder _ _ requester orderId newPrice newQuantity =>
    .modifyOrder clientOrderId symbol requester orderId newPrice newQuantity
  | .placeStop _ _ stop => .placeStop clientOrderId symbol stop
  | .cancelStop _ _ requester orderId => .cancelStop clientOrderId symbol requester orderId
  | .modifyStop _ _ requester orderId newStopPrice newLimitPrice newQuantity =>
    .modifyStop clientOrderId symbol requester orderId newStopPrice newLimitPrice newQuantity
  | .shutdown => .shutdown
  | .takeSnapshot symbol subscriber => .takeSnapshot symbol subscriber

end Command

/-- A number that fits survives the 64-bit word. -/
theorem toNat_ofNat {n : ℕ} (h : FitsUnsigned n) : (UInt64.ofNat n).toNat = n :=
  UInt64.toNat_ofNat_of_lt' h

/-- A signed number that fits survives the 64-bit word. -/
theorem toInt_ofInt {n : ℤ} (h : FitsSigned n) : (Int64.ofInt n).toInt = n :=
  Int64.toInt_ofInt_of_le h.1 h.2

/-- So does a price that may be missing. -/
theorem map_toInt_ofInt {price : Option ℤ} (h : ∀ n ∈ price, FitsSigned n) :
    (price.map Int64.ofInt).map Int64.toInt = price := by
  cases price with
  | none => rfl
  | some n => exact congrArg some (toInt_ofInt (h n rfl))

/-- Every 64-bit word fits. -/
theorem fitsUnsigned_toNat (n : UInt64) : FitsUnsigned n.toNat := n.toNat_lt

/-- Every signed 64-bit word fits. -/
theorem fitsSigned_toInt (n : Int64) : FitsSigned n.toInt := ⟨n.le_toInt, n.toInt_lt⟩

/-- So does every price that was read. -/
theorem fitsSigned_map (price : Option Int64) : ∀ n ∈ price.map Int64.toInt, FitsSigned n := by
  intro n hn
  obtain ⟨m, -, rfl⟩ := Option.map_eq_some_iff.mp hn
  exact fitsSigned_toInt m

/-! ## Messages -/

namespace Pb

/-- The sides that a message carries. -/
def Body.sides : Body → List Enum
  | .newOrder message => [message.read.side]
  | .placeStop message => [message.read.side]
  | _ => []

/-- The order types that a message carries. -/
def Body.orderTypes : Body → List Enum
  | .newOrder message => [message.read.type]
  | _ => []

end Pb

namespace Protobuf

variable {pb : Protobuf} {symbol : SymbolId} {clientOrderId : ClientOrderId} {payload : Payload}
  {message : Pb.CommandBody} {body : Pb.Body} {command : Command}

/-- A payload that parses. -/
def Parses (pb : Protobuf) (payload : Payload) (message : Pb.CommandBody) : Prop :=
  payload.length ≤ intMax ∧ pb.parse payload = some message

/-- The body is set, and every side and order type in it is known. -/
def WellFormed (pb : Protobuf) (message : Pb.CommandBody) : Prop :=
  ∃ body, message.body = some body ∧
    (∀ side ∈ body.sides, side ≠ 0 ∧ (side = pb.sideBuy ∨ side = pb.sideSell)) ∧
    ∀ type ∈ body.orderTypes, type ≠ 0 ∧ (type = pb.orderTypeLimit ∨ type = pb.orderTypeMarket)

/-- A side survives the wire. -/
theorem fromPbSide_toPbSide (h : pb.Lawful) (side : Side) : pb.fromPbSide (pb.toPbSide side) = some side := by
  obtain ⟨-, hne⟩ := List.nodup_cons.mp h.sides
  have hdiffer : pb.sideSell ≠ pb.sideBuy := fun he => by simp [he] at hne
  cases side with
  | buy => exact if_pos rfl
  | sell => exact (if_neg hdiffer).trans (if_pos rfl)

/-- An order type survives the wire. -/
theorem fromPbOrderType_toPbOrderType (h : pb.Lawful) (type : OrderType) :
    pb.fromPbOrderType (pb.toPbOrderType type) = some type := by
  obtain ⟨-, hne⟩ := List.nodup_cons.mp h.orderTypes
  have hdiffer : pb.orderTypeMarket ≠ pb.orderTypeLimit := fun he => by simp [he] at hne
  cases type with
  | limit => exact if_pos rfl
  | market => exact (if_neg hdiffer).trans (if_pos rfl)

/-- The sides that are read are the two that are written, and never the unspecified one. -/
theorem fromPbSide_isSome (h : pb.Lawful) (side : Pb.Enum) :
    (pb.fromPbSide side).isSome ↔ side ≠ 0 ∧ (side = pb.sideBuy ∨ side = pb.sideSell) := by
  have hzero := (List.nodup_cons.mp h.sides).1
  have hknown : side = pb.sideBuy ∨ side = pb.sideSell → side ≠ 0 := by
    rintro (rfl | rfl) he <;> simp [he] at hzero
  rw [and_iff_right_of_imp hknown]
  unfold fromPbSide
  split_ifs with hbuy hsell
  · exact iff_of_true rfl (Or.inl hbuy)
  · exact iff_of_true rfl (Or.inr hsell)
  · exact iff_of_false Bool.false_ne_true (not_or.mpr ⟨hbuy, hsell⟩)

/-- The order types that are read are the two that are written, and never the unspecified one. -/
theorem fromPbOrderType_isSome (h : pb.Lawful) (type : Pb.Enum) :
    (pb.fromPbOrderType type).isSome ↔
      type ≠ 0 ∧ (type = pb.orderTypeLimit ∨ type = pb.orderTypeMarket) := by
  have hzero := (List.nodup_cons.mp h.orderTypes).1
  have hknown : type = pb.orderTypeLimit ∨ type = pb.orderTypeMarket → type ≠ 0 := by
    rintro (rfl | rfl) he <;> simp [he] at hzero
  rw [and_iff_right_of_imp hknown]
  unfold fromPbOrderType
  split_ifs with hlimit hmarket
  · exact iff_of_true rfl (Or.inl hlimit)
  · exact iff_of_true rfl (Or.inr hmarket)
  · exact iff_of_false Bool.false_ne_true (not_or.mpr ⟨hlimit, hmarket⟩)

/-! ## Writing, then reading -/

/-- The body written for a command is read back as it. -/
theorem commandOf_bodyOf (h : pb.Lawful) (hfits : command.Fits) (hwire : command.OnWire) :
    ∃ message, pb.bodyOf command = .ok message ∧
      pb.commandOf symbol clientOrderId message.body =
        { command := some (command.received symbol clientOrderId) } := by
  cases command with
  | newOrder _ _ o =>
    obtain ⟨hid, howner, hquantity, hprice⟩ := hfits
    refine ⟨_, rfl, ?_⟩
    simp only [commandOf, Pb.NewOrder.read, Option.getD_some, pbOrder, fromPbSide_toPbSide h,
      fromPbOrderType_toPbOrderType h, toNat_ofNat hid, toNat_ofNat howner, toInt_ofInt hquantity,
      map_toInt_ofInt hprice, Command.received]
  | cancelOrder _ _ requester orderId =>
    obtain ⟨hrequester, horder⟩ := hfits
    refine ⟨_, rfl, ?_⟩
    simp only [commandOf, toNat_ofNat hrequester, toNat_ofNat horder, Command.received]
  | modifyOrder _ _ requester orderId newPrice newQuantity =>
    obtain ⟨hrequester, horder, hprice, hquantity⟩ := hfits
    refine ⟨_, rfl, ?_⟩
    simp only [commandOf, toNat_ofNat hrequester, toNat_ofNat horder, toInt_ofInt hprice,
      toInt_ofInt hquantity, Command.received]
  | placeStop _ _ o =>
    obtain ⟨hid, howner, hstop, hquantity, hlimit⟩ := hfits
    refine ⟨_, rfl, ?_⟩
    simp only [commandOf, Pb.PlaceStop.read, Option.getD_some, pbStop, fromPbSide_toPbSide h,
      toNat_ofNat hid, toNat_ofNat howner, toInt_ofInt hstop, toInt_ofInt hquantity,
      map_toInt_ofInt hlimit, Command.received]
  | cancelStop _ _ requester orderId =>
    obtain ⟨hrequester, horder⟩ := hfits
    refine ⟨_, rfl, ?_⟩
    simp only [commandOf, toNat_ofNat hrequester, toNat_ofNat horder, Command.received]
  | modifyStop _ _ requester orderId newStopPrice newLimitPrice newQuantity =>
    obtain ⟨hrequester, horder, hstop, hlimit, hquantity⟩ := hfits
    refine ⟨_, rfl, ?_⟩
    simp only [commandOf, toNat_ofNat hrequester, toNat_ofNat horder, toInt_ofInt hstop,
      map_toInt_ofInt hlimit, toInt_ofInt hquantity, Command.received]
  | shutdown => exact hwire.elim
  | takeSnapshot symbol subscriber => exact hwire.elim

/-- The payload written for a command is decoded to it. -/
theorem decodeBody_encodeBody (h : pb.Lawful) (hfits : command.Fits) (hwire : command.OnWire) :
    ∃ payload, pb.encodeBody command = .ok payload ∧ pb.decodeBody symbol clientOrderId payload =
      { command := some (command.received symbol clientOrderId) } := by
  obtain ⟨message, hmessage, hcommand⟩ := commandOf_bodyOf h hfits hwire
  refine ⟨pb.serialize message, ?_, ?_⟩
  · unfold encodeBody
    rw [hmessage]
    rfl
  · unfold decodeBody
    rw [if_neg (not_lt.mpr (h.length_serialize message)), h.parse_serialize]
    exact hcommand

/-! ## Reading -/

/-- A message is read exactly if it is well formed. -/
theorem commandOf_isSome (h : pb.Lawful) (message : Pb.CommandBody) :
    (pb.commandOf symbol clientOrderId message.body).command.isSome ↔ pb.WellFormed message := by
  unfold WellFormed
  cases hbody : message.body with
  | none => exact iff_of_false Bool.false_ne_true fun ⟨body, hnone, _⟩ => by cases hnone
  | some body =>
    have hiff : ∀ {P : Pb.Body → Prop}, (∃ b, some body = some b ∧ P b) ↔ P body :=
      ⟨fun ⟨_, hb, hP⟩ => Option.some.inj hb ▸ hP, fun hP => ⟨body, rfl, hP⟩⟩
    rw [hiff]
    cases body with
    | newOrder m =>
      simp only [Pb.Body.sides, Pb.Body.orderTypes, List.forall_mem_singleton, ← fromPbSide_isSome h,
        ← fromPbOrderType_isSome h, commandOf]
      cases pb.fromPbSide m.read.side with
      | none => simp
      | some side => cases pb.fromPbOrderType m.read.type <;> simp
    | placeStop m =>
      simp only [Pb.Body.sides, Pb.Body.orderTypes, List.forall_mem_singleton, ← fromPbSide_isSome h,
        commandOf]
      cases pb.fromPbSide m.read.side <;> simp
    | cancelOrder m => simp [commandOf, Pb.Body.sides, Pb.Body.orderTypes]
    | modifyOrder m => simp [commandOf, Pb.Body.sides, Pb.Body.orderTypes]
    | cancelStop m => simp [commandOf, Pb.Body.sides, Pb.Body.orderTypes]
    | modifyStop m => simp [commandOf, Pb.Body.sides, Pb.Body.orderTypes]

/-- What is read can be written, and is as if it had been received. -/
theorem commandOf_eq_some (body : Option Pb.Body)
    (hcommand : (pb.commandOf symbol clientOrderId body).command = some command) :
    command.Fits ∧ command.OnWire ∧ command.received symbol clientOrderId = command := by
  cases body with
  | none => cases hcommand
  | some body =>
    cases body with
    | newOrder m =>
      simp only [commandOf] at hcommand
      -- A side and a type that no enumerator names are refused.
      cases hside : pb.fromPbSide m.read.side with
      | none =>
        rw [hside] at hcommand
        cases hcommand
      | some side =>
        cases htype : pb.fromPbOrderType m.read.type with
        | none =>
          rw [hside, htype] at hcommand
          cases hcommand
        | some type =>
          rw [hside, htype] at hcommand
          obtain rfl := Option.some.inj hcommand
          exact ⟨⟨fitsUnsigned_toNat _, fitsUnsigned_toNat _, fitsSigned_toInt _, fitsSigned_map _⟩,
            trivial, rfl⟩
    | placeStop m =>
      simp only [commandOf] at hcommand
      cases hside : pb.fromPbSide m.read.side with
      | none =>
        rw [hside] at hcommand
        cases hcommand
      | some side =>
        rw [hside] at hcommand
        obtain rfl := Option.some.inj hcommand
        exact ⟨⟨fitsUnsigned_toNat _, fitsUnsigned_toNat _, fitsSigned_toInt _, fitsSigned_toInt _,
          fitsSigned_map _⟩, trivial, rfl⟩
    | cancelOrder m =>
      obtain rfl := Option.some.inj hcommand
      exact ⟨⟨fitsUnsigned_toNat _, fitsUnsigned_toNat _⟩, trivial, rfl⟩
    | modifyOrder m =>
      obtain rfl := Option.some.inj hcommand
      exact ⟨⟨fitsUnsigned_toNat _, fitsUnsigned_toNat _, fitsSigned_toInt _, fitsSigned_toInt _⟩,
        trivial, rfl⟩
    | cancelStop m =>
      obtain rfl := Option.some.inj hcommand
      exact ⟨⟨fitsUnsigned_toNat _, fitsUnsigned_toNat _⟩, trivial, rfl⟩
    | modifyStop m =>
      obtain rfl := Option.some.inj hcommand
      exact ⟨⟨fitsUnsigned_toNat _, fitsUnsigned_toNat _, fitsSigned_toInt _, fitsSigned_map _,
        fitsSigned_toInt _⟩, trivial, rfl⟩

/-- **The codec.** A command with an encoding is decoded as it is received, whatever the values of its
fields. A payload that parses is decoded exactly if its message is well formed, and the command that it
gives is decoded again from its own encoding. -/
theorem codec_round_trip (pb : Protobuf) (h : pb.Lawful) (symbol : SymbolId)
    (clientOrderId : ClientOrderId) :
    (∀ command : Command, command.Fits → command.OnWire → ∃ payload,
      pb.encodeBody command = .ok payload ∧ pb.decodeBody symbol clientOrderId payload =
        { command := some (command.received symbol clientOrderId) }) ∧
    ∀ payload message, pb.Parses payload message →
      ((pb.decodeBody symbol clientOrderId payload).command.isSome ↔ pb.WellFormed message) ∧
      ∀ command, (pb.decodeBody symbol clientOrderId payload).command = some command →
        ∃ payload', pb.encodeBody command = .ok payload' ∧
          pb.decodeBody symbol clientOrderId payload' = { command := some command } := by
  refine ⟨fun command hfits hwire => decodeBody_encodeBody h hfits hwire, fun payload message hparses => ?_⟩
  have hdecode : pb.decodeBody symbol clientOrderId payload =
      pb.commandOf symbol clientOrderId message.body := by
    unfold decodeBody
    rw [if_neg (not_lt.mpr hparses.1), hparses.2]
  rw [hdecode]
  refine ⟨commandOf_isSome h message, fun command hcommand => ?_⟩
  -- A decoded command is one that can be encoded, and is as it is received.
  obtain ⟨hfits, hwire, hreceived⟩ := commandOf_eq_some message.body hcommand
  obtain ⟨payload', hencode, hagain⟩ :=
    decodeBody_encodeBody h hfits hwire
  rw [hreceived] at hagain
  exact ⟨payload', hencode, hagain⟩

/-- A price of zero stays, what was filled is forgotten, and an empty payload has no command. -/
theorem codec_round_trip_of_zero :
    let order : Order :=
      { id := 5, ownerId := 11, side := .buy, type := .limit, price := some 0, quantity := -5, filled := 3 }
    (∃ payload, generated.encodeBody (.newOrder "first" 2 order) = .ok payload ∧
      generated.decodeBody 7 "second" payload =
        { command := some (.newOrder "second" 7 { order with filled := 0 }) }) ∧
    ((generated.decodeBody 7 "second" []).command.isSome ↔ generated.WellFormed {}) := by
  intro order
  obtain ⟨hcommands, hpayloads⟩ := codec_round_trip generated generated_lawful 7 "second"
  have hfits : (Command.newOrder "first" 2 order).Fits := by
    refine ⟨by decide, by decide, by decide, fun price hprice => ?_⟩
    obtain rfl := Option.some.inj hprice
    decide
  have hempty : generated.Parses [] {} := ⟨Nat.zero_le _, rfl⟩
  exact ⟨hcommands _ hfits trivial, (hpayloads [] {} hempty).1⟩

end Protobuf

end OrderBookEngine
