import OrderBookEngine.Engine.Session
import OrderBookEngine.Engine.Store

/-!
# The market: the abstract model of the book

What a book is for, without its data structures. Each side is a queue of resting orders, best price
first and oldest first at a price. The dormant stops are one list in firing order, and the woken
stops are a FIFO. An incoming order is matched directly against the head of the other queue, fill by
fill, with no plan made beforehand.

A resting order has a price and no side of its own, so a queue holds no order of the wrong side and
no order without a price. `Refine/Call.lean` proves that the book computes the same events and the
same results, call by call, and `Refine/Run.lean` extends that to runs.
-/

namespace OrderBookEngine

/-- A resting order as a snapshot lists it. -/
def Order.resting (order : Order) : RestingOrder :=
  { orderId := order.id, ownerId := order.ownerId, price := order.price.getD 0,
    quantity := order.quantity, filled := order.filled }

/-- The order that rests on a side. -/
def RestingOrder.toOrder (x : RestingOrder) (side : Side) : Order :=
  { id := x.orderId, ownerId := x.ownerId, side, type := .limit, price := some x.price
    quantity := x.quantity, filled := x.filled }

/-- Taking an order off its side and listing it again changes nothing. -/
@[simp] theorem RestingOrder.resting_toOrder (x : RestingOrder) (side : Side) :
    (x.toOrder side).resting = x := rfl

/-- Queues of resting orders, a list of dormant stops, and a FIFO of woken ones. -/
structure Market extends Session where
  /-- Highest price first, oldest first at a price. -/
  bids : List RestingOrder := []
  /-- Lowest price first, oldest first at a price. -/
  asks : List RestingOrder := []
  /-- How many more orders can rest. -/
  freeNodes : ℕ
  /-- Dormant stops, in the order in which they would fire together. -/
  stops : List StopOrder := []
  /-- Stops that have woken but not fired yet. -/
  fifo : List StopOrder := []

namespace Market

/-- A fresh market. -/
def make (cfg : Config) : Market := { cfg, freeNodes := cfg.poolCapacity }

/-- The resting orders of a side. -/
def queue (m : Market) : Side → List RestingOrder
  | .buy => m.bids
  | .sell => m.asks

/-- Replace the resting orders of a side. -/
def setQueue (m : Market) : Side → List RestingOrder → Market
  | .buy, xs => { m with bids := xs }
  | .sell, xs => { m with asks := xs }

/-- Record an event. -/
def emit (m : Market) (e : EngineEvent) : Market := { m with toSession := m.toSession.emit e }

section Fields

variable (m : Market) {side side' : Side} (xs : List RestingOrder)

/-- The side that is replaced has the new queue. -/
@[simp] theorem queue_setQueue_self : (m.setQueue side xs).queue side = xs := by cases side <;> rfl

/-- The other side has its queue. -/
theorem queue_setQueue_of_ne (h : side' ≠ side) :
    (m.setQueue side xs).queue side' = m.queue side' := by
  cases side <;> cases side' <;> first | rfl | exact absurd rfl h

/-- Replacing a queue leaves the session alone. -/
@[simp] theorem toSession_setQueue : (m.setQueue side xs).toSession = m.toSession := by
  cases side <;> rfl

/-- Replacing a queue leaves the room in the pool alone. -/
@[simp] theorem freeNodes_setQueue : (m.setQueue side xs).freeNodes = m.freeNodes := by
  cases side <;> rfl

/-- Replacing a queue leaves the dormant stops alone. -/
@[simp] theorem stops_setQueue : (m.setQueue side xs).stops = m.stops := by cases side <;> rfl

/-- Replacing a queue leaves the woken stops alone. -/
@[simp] theorem fifo_setQueue : (m.setQueue side xs).fifo = m.fifo := by cases side <;> rfl

/-- An event leaves the queues alone. -/
@[simp] theorem queue_emit (e : EngineEvent) : (m.emit e).queue side = m.queue side := by
  cases side <;> rfl

/-- The session has no part in the queues. -/
@[simp] theorem queue_withSession (s : Session) :
    ({ m with toSession := s } : Market).queue side = m.queue side := by cases side <;> rfl

end Fields

/-- The resting order of an id. -/
def restingOrder? (m : Market) (id : OrderId) : Option Order :=
  match m.bids.find? fun x => x.orderId = id with
  | some x => some (x.toOrder .buy)
  | none => (m.asks.find? fun x => x.orderId = id).map fun x => x.toOrder .sell

/-- The dormant stop of an id. -/
def stop? (m : Market) (id : OrderId) : Option StopOrder := m.stops.find? fun s => s.id = id

/-- An id that rests, is dormant, or has ended. -/
def idInUse (m : Market) (id : OrderId) : Bool :=
  (m.restingOrder? id).isSome || (m.finishedOrders id).isSome || (m.stop? id).isSome

/-- Take the order of an id off the book. -/
def remove (m : Market) (id : OrderId) : Market :=
  { m with
    bids := m.bids.filter fun x => x.orderId ≠ id
    asks := m.asks.filter fun x => x.orderId ≠ id
    freeNodes := m.freeNodes + 1 }

/-- Removing an order takes it out of the queues, and nothing else. -/
theorem queue_remove (m : Market) (id : OrderId) (side : Side) :
    (m.remove id).queue side = (m.queue side).filter fun x => x.orderId ≠ id := by
  cases side <;> rfl

/-- Reduce the order of an id in its place. -/
def reduce (m : Market) (id : OrderId) (by' : ℤ) : Market :=
  let shrink (x : RestingOrder) : RestingOrder :=
    if x.orderId = id then { x with quantity := x.quantity - by' } else x
  { m with bids := m.bids.map shrink, asks := m.asks.map shrink }

/-- A queue with an order behind every order whose price is at least as good. -/
def join (side : Side) (x : RestingOrder) (xs : List RestingOrder) : List RestingOrder :=
  xs.takeWhile (fun y => !decide (side.Better x.price y.price)) ++
    x :: xs.dropWhile fun y => !decide (side.Better x.price y.price)

/-- Rest an order: `none` when the book is full. -/
def restOrder (m : Market) (incoming : Order) (now : ℤ) : Option Market :=
  if m.freeNodes = 0 then none
  else
    let m := m.setQueue incoming.side (join incoming.side incoming.resting (m.queue incoming.side))
    some ({ m with freeNodes := m.freeNodes - 1 }.emit (incoming.event .rested now))

/-! ## Matching -/

/-- An order on its way through the other side's queue. -/
structure Walk where
  /-- The market after the trades so far. -/
  market : Market
  /-- The order, with what is left of it. -/
  incoming : Order
  /-- The trades so far. -/
  trades : List Trade := []
  /-- The one price outside the band that the order may trade at. -/
  breachLevel : Option ℤ := none

/-- Why a walk ended. -/
inductive WalkEnd where
  /-- The order is filled, or nothing left on the other side is good enough. -/
  | exhausted
  /-- The next price is outside the collar of a market order. -/
  | collar
  /-- The next order has the same owner. -/
  | selfTrade
  /-- The next price is a second one outside the band. -/
  | bandLimited
  /-- The clock of the band has run out. -/
  | halted
deriving DecidableEq, Repr

/-- The trade that a walk prints with the head of the other queue. -/
def Walk.nextTrade (w : Walk) (now : ℤ) (x : RestingOrder) : Trade :=
  w.market.mkTrade w.incoming x.orderId x.ownerId x.price (min w.incoming.quantity x.quantity) now

/-- Trade with the head of the other queue. -/
def Walk.trade (w : Walk) (now : ℤ) (x : RestingOrder) (xs : List RestingOrder)
    (outsideBandSince breachLevel : Option ℤ) : Walk :=
  let quantity := min w.incoming.quantity x.quantity
  let trade := w.nextTrade now x
  let s := { w.market.toSession with outsideBandSince }.printTrade trade
  let other := w.incoming.side.opposite
  let m :=
    if x.quantity = quantity then
      let m := { w.market with toSession := s.markFilled x.orderId }.setQueue other xs
      { m with freeNodes := m.freeNodes + 1 }
    else
      { w.market with toSession := s }.setQueue other
        ({ x with quantity := x.quantity - quantity, filled := x.filled + quantity } :: xs)
  { market := m
    incoming := { w.incoming with
      quantity := w.incoming.quantity - quantity, filled := w.incoming.filled + quantity }
    trades := w.trades ++ [trade]
    breachLevel }

/-- The market after a trade. -/
theorem Walk.market_trade (w : Walk) (now : ℤ) (x : RestingOrder) (xs : List RestingOrder)
    (outsideBandSince breachLevel : Option ℤ) :
    (w.trade now x xs outsideBandSince breachLevel).market =
      let quantity := min w.incoming.quantity x.quantity
      let s := { w.market.toSession with outsideBandSince }.printTrade (w.nextTrade now x)
      if x.quantity = quantity then
        { w.market.setQueue w.incoming.side.opposite xs with
          toSession := s.markFilled x.orderId, freeNodes := w.market.freeNodes + 1 }
      else
        { w.market.setQueue w.incoming.side.opposite
            ({ x with quantity := x.quantity - quantity, filled := x.filled + quantity } :: xs) with
          toSession := s, freeNodes := w.market.freeNodes } := by
  rw [Walk.trade]
  simp only
  split_ifs <;> cases w.incoming.side <;> rfl

/-- The session after a trade. -/
theorem Walk.toSession_trade (w : Walk) (now : ℤ) (x : RestingOrder) (xs : List RestingOrder)
    (outsideBandSince breachLevel : Option ℤ) :
    (w.trade now x xs outsideBandSince breachLevel).market.toSession =
      let s := { w.market.toSession with outsideBandSince }.printTrade (w.nextTrade now x)
      if x.quantity = min w.incoming.quantity x.quantity then s.markFilled x.orderId else s := by
  rw [Walk.trade]
  simp only
  split_ifs <;> simp

/-- The other queue after a trade. -/
theorem Walk.queue_trade_opposite (w : Walk) (now : ℤ) (x : RestingOrder) (xs : List RestingOrder)
    (outsideBandSince breachLevel : Option ℤ) :
    (w.trade now x xs outsideBandSince breachLevel).market.queue w.incoming.side.opposite =
      let quantity := min w.incoming.quantity x.quantity
      if x.quantity = quantity then xs
      else { x with quantity := x.quantity - quantity, filled := x.filled + quantity } :: xs := by
  rw [Walk.trade]
  simp only
  split_ifs <;> cases w.incoming.side <;> rfl

/-- A trade leaves the order's own side alone. -/
theorem Walk.queue_trade_side (w : Walk) (now : ℤ) (x : RestingOrder) (xs : List RestingOrder)
    (outsideBandSince breachLevel : Option ℤ) :
    (w.trade now x xs outsideBandSince breachLevel).market.queue w.incoming.side =
      w.market.queue w.incoming.side := by
  rw [Walk.trade]
  simp only
  split_ifs <;> cases w.incoming.side <;> rfl

/-- Walk down the other queue. -/
def walkLoop (now : ℤ) : List RestingOrder → Walk → Walk × WalkEnd
  | [], w => (w, .exhausted)
  | x :: xs, w =>
    if w.incoming.quantity ≤ 0 then (w, .exhausted)
    else if !w.incoming.crosses x.price then (w, .exhausted)
    else if !w.market.insideCollar w.incoming x.price then (w, .collar)
    else if x.ownerId = w.incoming.ownerId then (w, .selfTrade)
    else
      match w.market.bandDecision now w.breachLevel x.price with
      | .halt =>
        ({ w with
            market := { w.market with toSession := w.market.halt w.incoming x.price now } }, .halted)
      | .limit => (w, .bandLimited)
      | .print outsideBandSince breachLevel =>
        walkLoop now xs (w.trade now x xs outsideBandSince breachLevel)

/-- A walk changes only the quantities of its order. -/
theorem walkLoop_incoming (now : ℤ) (xs : List RestingOrder) (w : Walk) :
    ∃ quantity filled, (walkLoop now xs w).1.incoming = { w.incoming with quantity, filled } := by
  induction xs generalizing w with
  | nil => exact ⟨_, _, rfl⟩
  | cons x xs ih =>
    rw [walkLoop]
    split_ifs
    · exact ⟨_, _, rfl⟩
    · exact ⟨_, _, rfl⟩
    · exact ⟨_, _, rfl⟩
    · exact ⟨_, _, rfl⟩
    · cases w.market.bandDecision now w.breachLevel x.price with
      | halt => exact ⟨_, _, rfl⟩
      | limit => exact ⟨_, _, rfl⟩
      | print outside breach =>
        obtain ⟨quantity, filled, h⟩ := ih (w.trade now x xs outside breach)
        exact ⟨quantity, filled, h⟩

/-- A remainder that does not rest. -/
def expire (m : Market) (incoming : Order) (trades : List Trade) (why : RejectReason) (now : ℤ) :
    Market × OrderResult :=
  (m.emit (incoming.event .expired now),
    { trades, unacceptedQuantity := incoming.quantity, rejectReason := why })

/-- The remainder of a walk that the band cut short: a limit order rests at the edge of the band. -/
def restAtBandEdge (m : Market) (incoming : Order) (trades : List Trade) (why : RejectReason)
    (now : ℤ) : Market × OrderResult :=
  if incoming.type = .limit then
    let incoming := m.atBandEdge incoming
    if Session.validateOrderFields incoming = .none then
      match m.restOrder incoming now with
      | some m =>
        (m, { trades, unacceptedQuantity := 0, rejectReason := .none, restedPrice := incoming.price })
      | none => m.expire incoming trades why now
    else m.expire incoming trades why now
  else if incoming.quantity > 0 then m.expire incoming trades why now
  else (m, { trades, unacceptedQuantity := incoming.quantity, rejectReason := why })

/-- The remainder of a walk that ran its course: a limit order rests at its limit. -/
def runOut (m : Market) (incoming : Order) (trades : List Trade) (why : RejectReason) (now : ℤ) :
    Market × OrderResult :=
  if incoming.quantity > 0 ∧ incoming.type = .limit then
    match m.restOrder incoming now with
    | some m => (m, { trades, unacceptedQuantity := 0, rejectReason := .none })
    | none => m.expire incoming trades .poolExhausted now
  else if incoming.type = .market ∧ incoming.quantity > 0 then m.expire incoming trades why now
  else (m, { trades, unacceptedQuantity := incoming.quantity, rejectReason := why })

/-- An order with nothing left is finished as filled. -/
def markIfFilled (m : Market) (incoming : Order) : Market :=
  if incoming.quantity = 0 then { m with toSession := m.markFilled incoming.id } else m

/-- What becomes of the remainder. -/
def settle (w : Walk) (ending : WalkEnd) (now : ℤ) : Market × OrderResult :=
  let m := w.market.markIfFilled w.incoming
  match ending with
  | .halted => m.restAtBandEdge w.incoming w.trades .symbolHalted now
  | .bandLimited => m.restAtBandEdge w.incoming w.trades .priceBand now
  | .selfTrade => m.expire w.incoming w.trades .selfTrade now
  | .collar =>
    m.runOut w.incoming w.trades (if w.incoming.quantity > 0 then .priceCollar else .none) now
  | .exhausted => m.runOut w.incoming w.trades .none now

/-- Match an accepted order and settle what is left of it. -/
def walk (m : Market) (incoming : Order) (now : ℤ) : Market × OrderResult :=
  let (w, ending) := walkLoop now (m.queue incoming.side.opposite) { market := m, incoming }
  settle w ending now

/-- The trades of a walk move the reference and trigger stops. -/
def afterWalk (trigger : ℤ → ℤ → ℤ → Market → Market) (walked : Market × OrderResult) (now : ℤ) :
    Market × OrderResult :=
  let (m, result) := walked
  match result.trades.getLast? with
  | none => (m, result)
  | some last =>
    let low := result.trades.foldl (fun low trade => min low trade.price) last.price
    let high := result.trades.foldl (fun high trade => max high trade.price) last.price
    (trigger low high now { m with toSession := m.moveReference last }, result)

/-- Enter an order, over what the trades trigger. -/
def enterWith (trigger : ℤ → ℤ → ℤ → Market → Market) (m : Market) (incoming : Order) (now : ℤ)
    (reportReject : Bool) : Market × OrderResult :=
  let (s, invalid) := m.validateNewOrder incoming now
  let m := { m with toSession := s }
  let invalid :=
    if invalid = .none && m.idInUse incoming.id then RejectReason.duplicateOrderId else invalid
  if invalid ≠ .none then
    let m :=
      if reportReject then
        { m with
          toSession := m.emitRejected incoming.id incoming.ownerId incoming.side incoming.price
            incoming.quantity none invalid now }
      else m
    (m, { trades := [], unacceptedQuantity := incoming.quantity, rejectReason := invalid })
  else afterWalk trigger ((m.emit (incoming.event .accepted now)).walk incoming now) now

/-! ## Firing stops -/

/-- Trades between `low` and `high` reach the stop. -/
def touched (low high : ℤ) (stop : StopOrder) : Bool :=
  match stop.side with
  | .sell => low ≤ stop.stopPrice
  | .buy => stop.stopPrice ≤ high

/-- The stops that a walk touched go to the back of the FIFO, in list order. -/
def wakeStops (low high : ℤ) (m : Market) : Market :=
  if m.halted then m
  else
    { m with
      stops := m.stops.filter fun s => !touched low high s
      fifo := m.fifo ++ m.stops.filter (touched low high) }

/-- Fire a stop that has left the FIFO. What it wakes joins the FIFO. -/
def fireStop (m : Market) (stop : StopOrder) (now : ℤ) : Market :=
  let m := m.emit (stop.event .stopTriggered now)
  (m.enterWith (fun low high _ m => m.wakeStops low high) stop.firedOrder now false).1

/-- What is left of the FIFO goes back to the front of the list. -/
def sendBack (m : Market) : Market := { m with stops := m.fifo ++ m.stops, fifo := [] }

/-- Fire the FIFO front to back. -/
def drain (now : ℤ) : ℕ → Market → Market
  | 0, m => m
  | fuel + 1, m =>
    match m.fifo with
    | [] => m
    | stop :: rest =>
      if m.halted then m.sendBack
      else drain now fuel ({ m with fifo := rest }.fireStop stop now)

/-- Wake what a walk touched, then fire it and everything that it wakes in turn. -/
def triggerStops (low high : ℤ) (now : ℤ) (m : Market) : Market :=
  let m := m.wakeStops low high
  if m.halted then m else drain now (m.stops.length + m.fifo.length) m

/-- Enter an order and fire every stop that it wakes. -/
def enter (m : Market) (incoming : Order) (now : ℤ) (reportReject : Bool) : Market × OrderResult :=
  m.enterWith triggerStops incoming now reportReject

/-! ## The public operations -/

/-- `add_order`. -/
def addOrder (m : Market) (incoming : Order) (now : ℤ) : Market × OrderResult :=
  m.enter incoming now true

/-- `modify_order`: an order is withdrawn, reduced in its place, or replaced. -/
def modifyOrder (m : Market) (orderId : OrderId) (requester : OwnerId) (newPrice : ℤ)
    (newTotalQty : ℤ) (now : ℤ) : Market × OrderResult :=
  let refuse (m : Market) (why : RejectReason) : Market × OrderResult :=
    (m, { trades := [], unacceptedQuantity := newTotalQty, rejectReason := why })
  let changed (m : Market) : Market × OrderResult :=
    (m, { trades := [], unacceptedQuantity := 0, rejectReason := .none })
  if !m.ownedBy orderId requester then refuse m .unknownOrder
  else
    match m.restingOrder? orderId with
    | none => refuse m (if (m.finishedOrders orderId).isSome then .tooLate else .unknownOrder)
    | some order =>
      let replacement := { order with price := some newPrice, quantity := newTotalQty }
      let bad := Session.validateOrderFields replacement
      if bad ≠ .none then refuse m bad
      else
        let newRemaining := newTotalQty - order.filled
        if newRemaining ≤ 0 then
          changed ((m.emit (order.event .cancelled now)).remove order.id)
        else
          let replacement := { replacement with quantity := newRemaining }
          if some newPrice = order.price ∧ newRemaining ≤ order.quantity then
            let m := m.reduce order.id (order.quantity - newRemaining)
            changed (m.emit ({ order with quantity := newRemaining }.event .modified now))
          else
            let (s, invalid) := m.validateNewOrder replacement now
            let m := { m with toSession := s }
            if invalid ≠ .none then refuse m invalid
            else
              ((m.emit (order.event .replaced now)).remove order.id).enter replacement now false

/-- `cancel_order`. -/
def cancelOrder (m : Market) (orderId : OrderId) (requester : OwnerId) (now : ℤ) :
    Market × RejectReason :=
  if !m.ownedBy orderId requester then (m, .unknownOrder)
  else
    match m.restingOrder? orderId with
    | none => (m, if (m.finishedOrders orderId).isSome then .tooLate else .unknownOrder)
    | some order => ((m.emit (order.event .cancelled now)).remove order.id, .none)

/-- A new stop goes to the end of the list. -/
def placeStopOrder (m : Market) (stop : StopOrder) (now : ℤ) : Market × RejectReason :=
  let bad := Session.validateStopFields stop
  let bad := if bad = .none && m.idInUse stop.id then RejectReason.duplicateOrderId else bad
  let bad :=
    if bad = .none && m.wouldTriggerNow stop.side stop.stopPrice then .stopWouldTrigger else bad
  if bad ≠ .none then
    ({ m with
        toSession := m.emitRejected stop.id stop.ownerId stop.side (some stop.stopPrice)
          stop.quantity stop.limitPrice bad now }, bad)
  else
    let m := { m with stops := m.stops ++ [stop] }
    let m := { m with stopIdsSeen := Function.update m.stopIdsSeen stop.id true }
    (m.emit (stop.event .stopAccepted now), .none)

/-- `cancel_stop_order`. -/
def cancelStopOrder (m : Market) (orderId : OrderId) (requester : OwnerId) (now : ℤ) :
    Market × RejectReason :=
  if !m.ownedBy orderId requester then (m, .unknownOrder)
  else
    match m.stop? orderId with
    | none => (m, m.stopGoneReason orderId)
    | some stop =>
      let m := { m with stops := m.stops.filter fun s => s.id ≠ stop.id }
      (m.emit (stop.event .stopCancelled now), .none)

/-- A pure size reduction is made in place. Any other change moves the stop to the end. -/
def replaceStop (stops : List StopOrder) (old updated : StopOrder) : List StopOrder :=
  if updated.stopPrice = old.stopPrice ∧ updated.limitPrice = old.limitPrice ∧
      updated.quantity ≤ old.quantity then
    stops.map fun s => if s.id = old.id then updated else s
  else (stops.filter fun s => s.id ≠ old.id) ++ [updated]

/-- `modify_stop_order`. -/
def modifyStopOrder (m : Market) (orderId : OrderId) (requester : OwnerId) (newStopPrice : ℤ)
    (newLimitPrice : Option ℤ) (newQty : ℤ) (now : ℤ) : Market × RejectReason :=
  if !m.ownedBy orderId requester then (m, .unknownOrder)
  else
    match m.stop? orderId with
    | none => (m, m.stopGoneReason orderId)
    | some old =>
      let updated :=
        { old with stopPrice := newStopPrice, limitPrice := newLimitPrice, quantity := newQty }
      let bad := Session.validateStopFields updated
      if bad ≠ .none then (m, bad)
      else if m.wouldTriggerNow updated.side updated.stopPrice then (m, .stopWouldTrigger)
      else
        let m := { m with stops := replaceStop m.stops old updated }
        (m.emit (updated.event .stopModified now), .none)

end Market

end OrderBookEngine
