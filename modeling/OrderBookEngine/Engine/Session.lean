import OrderBookEngine.Engine.Types
import Mathlib.Logic.Function.Basic

/-!
# The session state of a book

`Session` holds the members of `Book` other than its two stores (the resting orders and the dormant
stops): the constructor's arguments, the session-long maps, the event stream, and the price band.
The member functions that touch only these are here, so that every model of the stores shares them.

A hash map is a function to `Option`: only lookup, insertion, and erasure are ever used.
-/

namespace OrderBookEngine

/-- The arithmetic of the stop priorities: exact integers, or the code's `uint64_t`, which wraps. -/
inductive PriorityArith where
  /-- Integers without a width. -/
  | exact
  /-- Unsigned integers of 64 bits, which wrap. -/
  | uint64
deriving DecidableEq, Repr

/-- The value that a counter hands out. -/
def PriorityArith.wrap : PriorityArith → ℤ → ℤ
  | .exact, n => n
  | .uint64, n => n % 2 ^ 64

/-- The constructor's arguments, with the checks that it makes as fields. -/
structure Config where
  /-- How many orders can rest. -/
  poolCapacity : ℕ := 100000
  /-- The width of the price band, in basis points. -/
  bandBps : ℤ := 1000
  /-- How long prices outside the band may trade before a halt. -/
  gracePeriodMs : ℤ := 2000
  /-- How long a halt lasts. -/
  haltDurationMs : ℤ := 30000
  /-- `0` turns the collar off. -/
  marketCollarBps : ℤ := 0
  /-- How the priorities of stops are counted. -/
  priorities : PriorityArith := .exact
  /-- As the constructor checks. -/
  bandBps_valid : 0 < bandBps ∧ bandBps < 10000 := by decide
  /-- As the constructor checks. -/
  marketCollarBps_valid : 0 ≤ marketCollarBps ∧ marketCollarBps < 10000 := by decide

/-- The constructor of `Book`, up to its member initialisers: it throws on a bad argument. -/
def Config.make (poolCapacity : ℕ) (bandBps : ℤ) (gracePeriodMs haltDurationMs : ℤ)
    (marketCollarBps : ℤ) (priorities : PriorityArith) : Except String Config :=
  if hb : bandBps ≤ 0 ∨ bandBps ≥ 10000 then
    .error "band_bps must be in (0, 10000)"
  else if hc : marketCollarBps < 0 ∨ marketCollarBps ≥ 10000 then
    .error "market_collar_bps must be in [0, 10000)"
  else
    .ok
      { poolCapacity, bandBps, gracePeriodMs, haltDurationMs, marketCollarBps, priorities
        bandBps_valid := by omega
        marketCollarBps_valid := by omega }

/-- The members of `Book` outside its stores of resting orders and dormant stops. -/
structure Session where
  /-- What the book was made with. -/
  cfg : Config
  /-- How the orders that are over have ended. -/
  finishedOrders : OrderId → Option FinalState := fun _ => none
  /-- The owner of every id ever accepted. -/
  ownerOf : OrderId → Option OwnerId := fun _ => none
  /-- Every id ever placed as a stop. -/
  stopIdsSeen : OrderId → Bool := fun _ => false
  /-- The id of the next trade. -/
  nextTradeId : ℕ := 1
  /-- All that has been emitted. -/
  events : List EngineEvent := []
  /-- The number of the next event. -/
  nextSeq : ℕ := 1
  /-- The price that the band is around. -/
  referencePrice : ℤ := 0
  /-- None before the first trade. -/
  lastTradePrice : Option ℤ := none
  /-- Set by the first trade. -/
  hasReferencePrice : Bool := false
  /-- When trading left the band, if it has not come back. -/
  outsideBandSince : Option ℤ := none
  /-- A halt has been called and not lifted. -/
  halted : Bool := false
  /-- When the halt expires. -/
  haltUntil : ℤ := 0

namespace Session

/-! ## Events -/

/-- `Book::emit`: number the event, record what it finishes or accepts, and append it. -/
def emit (s : Session) (e : EngineEvent) : Session :=
  let e := { e with sequenceNumber := s.nextSeq }
  { s with
    nextSeq := s.nextSeq + 1
    finishedOrders :=
      -- A trade finishes orders too, which the fill loop records itself.
      if e.kind = .cancelled ∨ e.kind = .stopCancelled ∨ e.kind = .expired then
        Function.update s.finishedOrders e.orderId (some .cancelled)
      else s.finishedOrders
    ownerOf :=
      if e.kind = .accepted ∨ e.kind = .stopAccepted then
        -- `emplace`: the first owner of an id stays.
        match s.ownerOf e.orderId with
        | none => Function.update s.ownerOf e.orderId (some e.ownerId)
        | some _ => s.ownerOf
      else s.ownerOf
    events := s.events ++ [e] }

/-- The events that `emit` only numbers and appends. -/
def quiet : EventKind → Bool
  | .cancelled | .stopCancelled | .expired | .accepted | .stopAccepted => false
  | _ => true

/-- A quiet event is only numbered and recorded. -/
theorem emit_of_quiet (s : Session) {e : EngineEvent} (h : quiet e.kind = true) :
    s.emit e =
      { s with
        nextSeq := s.nextSeq + 1
        events := s.events ++ [{ e with sequenceNumber := s.nextSeq }] } := by
  rcases e with ⟨_, kind⟩
  cases kind <;> first | rfl | simp [quiet] at h

/-- An id keeps the owner that it was first accepted with. -/
theorem ownerOf_emit_of_owned (s : Session) {e : EngineEvent} {who : OwnerId}
    (hk : e.kind = .accepted ∨ e.kind = .stopAccepted) (h : s.ownerOf e.orderId = some who) :
    (s.emit e).ownerOf = s.ownerOf := by
  unfold emit
  simp only
  rw [if_pos hk, h]

/-- An accepted id that has no owner gets the owner of the event. -/
theorem ownerOf_emit_of_unowned (s : Session) {e : EngineEvent}
    (hk : e.kind = .accepted ∨ e.kind = .stopAccepted) (h : s.ownerOf e.orderId = none) :
    (s.emit e).ownerOf = Function.update s.ownerOf e.orderId (some e.ownerId) := by
  unfold emit
  simp only
  rw [if_pos hk, h]

/-- Only an acceptance gives an owner. -/
theorem ownerOf_emit_of_ne (s : Session) {e : EngineEvent}
    (hk : ¬ (e.kind = .accepted ∨ e.kind = .stopAccepted)) : (s.emit e).ownerOf = s.ownerOf := if_neg hk

/-- `finished_orders_[id] = FinalState::Filled`. -/
def markFilled (s : Session) (id : OrderId) : Session :=
  { s with finishedOrders := Function.update s.finishedOrders id (some .filled) }

/-- `Book::emit_rejected`. -/
def emitRejected (s : Session) (id : OrderId) (owner : OwnerId) (side : Side) (price : Option ℤ)
    (quantity : ℤ) (limitPrice : Option ℤ) (why : RejectReason) (now : ℤ) :
    Session :=
  s.emit { kind := .rejected, ts := now, orderId := id, ownerId := owner, side, price, quantity,
           limitPrice, rejectReason := why }

/-- `Book::owned_by`. -/
def ownedBy (s : Session) (id : OrderId) (requester : OwnerId) : Bool :=
  s.ownerOf id = some requester

/-- `Book::final_state`. -/
def finalState (s : Session) (id : OrderId) : Option FinalState := s.finishedOrders id

/-! ## The price band -/

/-- The reference price less `bps` basis points, rounded inward. -/
def lowerLimit (s : Session) (bps : ℤ) : ℤ :=
  let product := s.referencePrice * (10000 - bps)
  (product + 9999).tdiv 10000

/-- The reference price plus `bps` basis points, rounded inward. -/
def upperLimit (s : Session) (bps : ℤ) : ℤ :=
  let product := s.referencePrice * (10000 + bps)
  product.tdiv 10000

/-- The lowest price inside the band. -/
def lowerBandPrice (s : Session) : ℤ := s.lowerLimit s.cfg.bandBps

/-- The highest price inside the band. -/
def upperBandPrice (s : Session) : ℤ := s.upperLimit s.cfg.bandBps

/-- `Book::within_band`: before the first trade there is nothing to compare against. -/
def withinBand (s : Session) (p : ℤ) : Bool :=
  if !s.hasReferencePrice then true
  else s.lowerBandPrice ≤ p && p ≤ s.upperBandPrice

/-- What the fill loop does at a planned fill's price: print it, halt the symbol, or stop at the
sweep limit. A print leaves the grace clock and the call's breach level behind. -/
inductive BandDecision where
  /-- The fill prints, with this clock and this level. -/
  | print (outsideBandSince : Option ℤ) (breachLevel : Option ℤ)
  /-- The symbol is halted. -/
  | halt
  /-- The order stops at the sweep limit. -/
  | limit
deriving DecidableEq, Repr

/-- The branches at the head of the fill loop. -/
def bandDecision (s : Session) (now : ℤ) (breachLevel : Option ℤ) (p : ℤ) :
    BandDecision :=
  if !s.withinBand p then
    match s.outsideBandSince with
    -- The first price out of the band starts the clock and may be printed.
    | none => .print (some now) (some p)
    | some since =>
      -- The grace period has run out.
      if now - since ≥ s.cfg.gracePeriodMs then .halt
      else
        match breachLevel with
        -- Each call may print at one price out of the band.
        | none => .print (some since) (some p)
        | some level => if p ≠ level then .limit else .print (some since) (some level)
  -- A print in the band resets the clock, but not the call's breach level.
  else .print none breachLevel

/-- An order with its limit brought back to the band edge, where it is no more aggressive. -/
def atBandEdge (s : Session) (incoming : Order) : Order :=
  { incoming with
    price := incoming.price.map fun limit =>
      match incoming.side with
      | .buy => min limit s.upperBandPrice
      | .sell => max limit s.lowerBandPrice }

/-- The collar test of `plan_match`, for the incoming order. -/
def insideCollar (s : Session) (incoming : Order) (price : ℤ) : Bool :=
  let collared :=
    incoming.type = .market && s.cfg.marketCollarBps > 0 && s.hasReferencePrice
  if !collared then true
  else
    match incoming.side with
    | .buy => price ≤ s.upperLimit s.cfg.marketCollarBps
    | .sell => price ≥ s.lowerLimit s.cfg.marketCollarBps

/-! ## Validation -/

/-- `Book::validate_order_fields`. -/
def validateOrderFields (order : Order) : RejectReason :=
  if order.type = .limit ∧ order.price.all (· ≤ 0) then .invalidPrice
  else if order.type = .market ∧ order.price.isSome then .invalidPrice
  else if order.quantity ≤ 0 then .invalidQuantity
  else .none

/-- `Book::validate_stop_fields`. -/
def validateStopFields (stop : StopOrder) : RejectReason :=
  if stop.quantity ≤ 0 then .invalidQuantity
  else if stop.stopPrice ≤ 0 then .invalidPrice
  else if stop.limitPrice.any (· ≤ 0) then .invalidPrice
  else .none

/-- `Book::validate_new_order`: a halt that has run out is lifted on the way. -/
def validateNewOrder (s : Session) (order : Order) (now : ℤ) : Session × RejectReason :=
  if s.halted then
    -- The fields are not looked at during a halt.
    if now < s.haltUntil then (s, .symbolHalted)
    else
      -- The first order behind the halt lifts it, whether it is valid or not.
      let s := { s with halted := false, outsideBandSince := none }
      let s := s.emit { kind := .resumed, ts := now, orderId := 0, ownerId := 0, side := .buy,
                        price := none, quantity := 0 }
      (s, validateOrderFields order)
  else (s, validateOrderFields order)

/-- `Book::would_trigger_now`. -/
def wouldTriggerNow (s : Session) (side : Side) (stopPrice : ℤ) : Bool :=
  match s.lastTradePrice with
  | none => false
  | some last =>
    match side with
    | .sell => last ≤ stopPrice
    | .buy => last ≥ stopPrice

/-- `Book::stop_gone_reason`. -/
def stopGoneReason (s : Session) (id : OrderId) : RejectReason :=
  if s.stopIdsSeen id then .tooLate else .unknownOrder

/-! ## Trades -/

/-- The halt branch of the fill loop. -/
def halt (s : Session) (incoming : Order) (price : ℤ) (now : ℤ) : Session :=
  let s := { s with halted := true, haltUntil := now + s.cfg.haltDurationMs }
  s.emit { incoming.event .halted now with price := some price }

/-- The trade that a fill prints. -/
def mkTrade (s : Session) (incoming : Order) (passiveId : OrderId) (passiveOwner : OwnerId)
    (price : ℤ) (quantity : ℤ) (now : ℤ) : Trade :=
  { tradeId := s.nextTradeId, price, quantity, aggressorId := incoming.id, passiveId
    buyOwner := if incoming.side = .buy then incoming.ownerId else passiveOwner
    sellOwner := if incoming.side = .sell then incoming.ownerId else passiveOwner
    aggressorSide := incoming.side, ts := now }

/-- Number a trade and publish it. -/
def printTrade (s : Session) (trade : Trade) : Session :=
  let s := { s with nextTradeId := s.nextTradeId + 1 }
  s.emit { kind := .trade, ts := trade.ts, orderId := trade.aggressorId, passiveId := trade.passiveId
           ownerId := trade.buyOwner, otherOwner := trade.sellOwner, side := trade.aggressorSide
           price := some trade.price, quantity := trade.quantity }

/-- The last trade of a walk becomes the reference. -/
def moveReference (s : Session) (last : Trade) : Session :=
  { s with referencePrice := last.price, hasReferencePrice := true, lastTradePrice := some last.price }

end Session

end OrderBookEngine
