import OrderBookEngine.Engine.Session
import OrderBookEngine.Engine.Store
import OrderBookEngine.Engine.StopBook

/-!
# The book

`book.cpp` and `stops.cpp` over the session state and the two stores.

`add_order_core` and `check_and_trigger_stops` call each other, but the nesting is flat: while a
drain is under way, a nested `check_and_trigger_stops` only appends to the queue. So
`add_order_core` is written over the call that ends it (`addOrderCoreWith`); a firing inside the
drain ends with the appending part alone, and `fireStop_eq` says that it is `addOrderCore`.
-/

namespace OrderBookEngine

/-- A planned fill. -/
structure ProposedFill where
  /-- The resting order that is to be filled. -/
  passiveNode : Ptr
  /-- Its price. -/
  fillPrice : ℤ
  /-- How much of it. -/
  fillQuantity : ℤ
deriving DecidableEq, Repr

/-- The fills that an incoming order asks for. -/
structure MatchPlan where
  /-- Best price first, oldest first at a price. -/
  fills : List ProposedFill := []
  /-- An order of the same owner is in the way. -/
  haltedBySelfTrade : Bool := false
  /-- A market order hit its price collar. -/
  stoppedByCollar : Bool := false
deriving DecidableEq, Repr

/-- The book: session state, resting orders, dormant stops, and the queue of woken stops. -/
structure Book extends Session, Store, StopBook where
  /-- Stops that have triggered but not fired yet, in trigger order. -/
  triggeredStops : List StopOrder := []
  /-- The woken stops are being fired. -/
  drainingStops : Bool := false

namespace Book

/-- A fresh book. -/
def make (cfg : Config) : Book := { cfg, nodePool := NodePool.make cfg.poolCapacity }

/-- Record an event. -/
def emit (b : Book) (e : EngineEvent) : Book := { b with toSession := b.toSession.emit e }

/-- The best price that somebody buys at. -/
def bestBid (b : Book) : Option ℤ := b.best .buy

/-- The best price that somebody sells at. -/
def bestAsk (b : Book) : Option ℤ := b.best .sell

/-- `Book::id_in_use`. -/
def idInUse (b : Book) (id : OrderId) : Bool :=
  (b.idIndex id).isSome || (b.finishedOrders id).isSome || (b.stopIndex id).isSome

/-- `Book::snapshot`. -/
def snapshot (b : Book) : BookSnapshot where
  asOfSequence := b.nextSeq - 1
  bids := b.collect .buy
  asks := b.collect .sell
  stops := b.dormant.map fun stop =>
    { orderId := stop.id, ownerId := stop.ownerId, side := stop.side, stopPrice := stop.stopPrice,
      limitPrice := stop.limitPrice, quantity := stop.quantity }
  lastTradePrice := b.lastTradePrice
  halted := b.halted

/-! ## Matching -/

/-- The inner loop of `walk_side`, over the nodes of one level. -/
def planNodes (b : Book) (incoming : Order) (price : ℤ) :
    List Ptr → ℤ → MatchPlan → ℤ × MatchPlan
  | [], remaining, plan => (remaining, plan)
  | node :: nodes, remaining, plan =>
    if remaining ≤ 0 then (remaining, plan)
    else
      let order := (b.node node).order
      -- The walk ends at an order of the same owner, with what it has planned so far.
      if order.ownerId = incoming.ownerId then
        (remaining, { plan with haltedBySelfTrade := true })
      else
        let fillQty := min remaining order.quantity
        planNodes b incoming price nodes (remaining - fillQty)
          { plan with
            fills := plan.fills ++
              [{ passiveNode := node, fillPrice := price, fillQuantity := fillQty }] }

/-- `walk_side`, over the levels of the other side. -/
def walkSide (b : Book) (incoming : Order) :
    List (ℤ × Level) → ℤ → MatchPlan → MatchPlan
  | [], _, plan => plan
  | (price, level) :: levels, remaining, plan =>
    if remaining ≤ 0 then plan
    else if !incoming.crosses price then plan
    else if !b.insideCollar incoming price then { plan with stoppedByCollar := true }
    else
      let (remaining, plan) := planNodes b incoming price (b.levelNodes level) remaining plan
      -- A self-trade ends the walk of the levels too.
      if plan.haltedBySelfTrade then plan else walkSide b incoming levels remaining plan

/-- `Book::plan_match`. -/
def planMatch (b : Book) (incoming : Order) : MatchPlan :=
  walkSide b incoming (b.sideMap incoming.side.opposite).entries incoming.quantity {}

/-- The locals of `add_order_core` that its fill loop updates. -/
structure FillLoop where
  /-- The book after the fills so far. -/
  book : Book
  /-- The incoming order, with what is left of it. -/
  incoming : Order
  /-- The fills so far. -/
  trades : List Trade := []
  /-- The walk has tripped a halt. -/
  haltedByBand : Bool := false
  /-- The walk has been stopped at a second price outside the band. -/
  bandLimited : Bool := false
  /-- The one price outside the band that it may trade at. -/
  breachLevel : Option ℤ := none

/-- One pass of the fill loop. The flags stand for its `break`. -/
def fillStep (now : ℤ) (l : FillLoop) (fill : ProposedFill) : FillLoop :=
  match l.book.bandDecision now l.breachLevel fill.fillPrice with
  | .halt =>
    { l with
      haltedByBand := true
      book := { l.book with toSession := l.book.halt l.incoming fill.fillPrice now } }
  | .limit => { l with bandLimited := true }
  | .print outsideBandSince breachLevel =>
    let b := { l.book with outsideBandSince }
    let passive := (b.node fill.passiveNode).order
    -- The trade is printed before the quantities move, as its event comes first.
    let trade :=
      b.mkTrade l.incoming passive.id passive.ownerId fill.fillPrice fill.fillQuantity now
    let b := { b with toSession := b.printTrade trade }
    let b := { b with toStore := b.addFilled fill.passiveNode fill.fillQuantity }
    let b := { b with toStore := b.reduceResting fill.passiveNode fill.fillQuantity }
    let b :=
      -- A node that is filled goes back to the pool.
      if (b.node fill.passiveNode).order.isFullyFilled then
        let b := { b with toSession := b.markFilled (b.node fill.passiveNode).order.id }
        { b with toStore := b.removeResting fill.passiveNode }
      else b
    { l with
      book := b
      trades := l.trades ++ [trade]
      breachLevel
      incoming :=
        { l.incoming with
          quantity := l.incoming.quantity - fill.fillQuantity
          filled := l.incoming.filled + fill.fillQuantity } }

/-- The fill loop. -/
def fillLoop (now : ℤ) : List ProposedFill → FillLoop → FillLoop
  | [], l => l
  | fill :: fills, l =>
    let l := fillStep now l fill
    if l.haltedByBand || l.bandLimited then l else fillLoop now fills l

/-- A remainder that does not rest: it is reported, with its `Expired` event. -/
def expire (b : Book) (incoming : Order) (trades : List Trade) (why : RejectReason)
    (now : ℤ) : Book × OrderResult :=
  (b.emit (incoming.event .expired now),
    { trades, unacceptedQuantity := incoming.quantity, rejectReason := why })

/-- The resting branches: `none` when the pool is full. -/
def restOrder (b : Book) (incoming : Order) (now : ℤ) : Option Book :=
  (b.toStore.restOrder incoming (incoming.price.getD 0)).map fun st =>
    { b with toStore := st }.emit (incoming.event .rested now)

/-- The remainder of a walk that a halt or the sweep limit stopped: a limit order is re-priced to the
band edge and rests there. -/
def restAtBandEdge (b : Book) (incoming : Order) (trades : List Trade) (why : RejectReason)
    (now : ℤ) : Book × OrderResult :=
  if incoming.type = .limit then
    let incoming := b.atBandEdge incoming
    -- The edge is computed, so it need not be a valid price.
    if Session.validateOrderFields incoming = .none then
      match b.restOrder incoming now with
      | some b =>
        (b, { trades, unacceptedQuantity := 0, rejectReason := .none, restedPrice := incoming.price })
      -- A full pool cannot hold the remainder.
      | none => b.expire incoming trades why now
    else b.expire incoming trades why now
  -- The remainder of a market order never rests.
  else if incoming.quantity > 0 then b.expire incoming trades why now
  else (b, { trades, unacceptedQuantity := incoming.quantity, rejectReason := why })

/-- What `add_order_core` does with the remainder, from the end of the fill loop to the trades'
effect on the reference. -/
def settle (l : FillLoop) (plan : MatchPlan) (now : ℤ) : Book × OrderResult :=
  let incoming := l.incoming
  let b :=
    -- Filled by the walk, so the id has finished whatever follows.
    if incoming.quantity = 0 then
      { l.book with toSession := l.book.markFilled incoming.id }
    else l.book
  if l.haltedByBand || l.bandLimited then
    -- Both stops rest a limit remainder at the band edge; they differ in the reason alone.
    let why := if l.haltedByBand then RejectReason.symbolHalted else .priceBand
    b.restAtBandEdge incoming l.trades why now
  else if plan.haltedBySelfTrade then b.expire incoming l.trades .selfTrade now
  else if incoming.quantity > 0 && incoming.type = .limit then
    match b.restOrder incoming now with
    -- It has been accepted, so it still needs a last event.
    | none => b.expire incoming l.trades .poolExhausted now
    | some b => (b, { trades := l.trades, unacceptedQuantity := 0, rejectReason := .none })
  else
    let why :=
      -- Only a market order has a collar, so this is its remainder, if any.
      if plan.stoppedByCollar && incoming.quantity > 0 then RejectReason.priceCollar else .none
    if incoming.type = .market && incoming.quantity > 0 then b.expire incoming l.trades why now
    else (b, { trades := l.trades, unacceptedQuantity := incoming.quantity, rejectReason := why })

/-- The body of `add_order_core` from the plan to the trades' effect on the reference. -/
def walk (b : Book) (incoming : Order) (now : ℤ) : Book × OrderResult :=
  let plan := b.planMatch incoming
  settle (fillLoop now plan.fills { book := b, incoming }) plan now

/-- The end of `add_order_core`: the trades move the reference and trigger stops. -/
def afterWalk (checkAndTriggerStops : ℤ → ℤ → ℤ → Book → Book) (walked : Book × OrderResult)
    (now : ℤ) : Book × OrderResult :=
  let (b, result) := walked
  -- Without trades neither the reference nor a stop is touched.
  match result.trades.getLast? with
  | none => (b, result)
  | some last =>
    let low := result.trades.foldl (fun low trade => min low trade.price) last.price
    let high := result.trades.foldl (fun high trade => max high trade.price) last.price
    (checkAndTriggerStops low high now { b with toSession := b.moveReference last }, result)

/-- `Book::add_order_core` over the call that ends it, `check_and_trigger_stops(low, high, now)`. -/
def addOrderCoreWith (checkAndTriggerStops : ℤ → ℤ → ℤ → Book → Book) (b : Book)
    (incoming : Order) (now : ℤ) (reportReject : Bool) : Book × OrderResult :=
  let (s, invalid) := b.validateNewOrder incoming now
  let b := { b with toSession := s }
  let invalid :=
    -- The id is looked at when the fields are valid, behind the halt that may have been lifted.
    if invalid = .none && b.idInUse incoming.id then RejectReason.duplicateOrderId else invalid
  if invalid ≠ .none then
    let b :=
      -- Replaced orders and fired stops are refused in silence.
      if reportReject then
        { b with
          toSession := b.emitRejected incoming.id incoming.ownerId incoming.side incoming.price
            incoming.quantity none invalid now }
      else b
    (b, { trades := [], unacceptedQuantity := incoming.quantity, rejectReason := invalid })
  else
    afterWalk checkAndTriggerStops ((b.emit (incoming.event .accepted now)).walk incoming now) now

/-! ## Firing stops -/

/-- `check_and_trigger_stops` up to its early return while a drain is under way: the stops that the
sweep wakes join the queue in priority order. -/
def wakeStops (low high : ℤ) (b : Book) : Book :=
  if b.halted then b
  else
    let (woke, sb) := b.take low high
    -- Both sides fire in one order, that of their priorities.
    let woke := woke.insertionSort fun x y => x.1 ≤ y.1
    { b with toStopBook := sb, triggeredStops := b.triggeredStops ++ woke.map Prod.snd }

/-- Fire the stop at the front of the queue. The `check_and_trigger_stops` that ends the nested
`add_order_core` only appends. -/
def fireStop (b : Book) (stop : StopOrder) (now : ℤ) : Book :=
  let b := b.emit (stop.event .stopTriggered now)
  (b.addOrderCoreWith (fun low high _ b => b.wakeStops low high) stop.firedOrder now false).1

/-- The unfired stops go back to dormant, from the back of the queue forwards. -/
def sendBack (b : Book) : Book :=
  { b with
    toStopBook := b.triggeredStops.reverse.foldl (fun sb s => sb.insertFront b.cfg.priorities s)
      b.toStopBook
    triggeredStops := [] }

/-- The drain loop of `check_and_trigger_stops`. `drains_drainLoop` shows that the fuel it
is given outlasts the queue. -/
def drainLoop (now : ℤ) : ℕ → Book → Book
  | 0, b => b
  | fuel + 1, b =>
    match b.triggeredStops with
    | [] => b
    | stop :: rest =>
      -- A halt ends the cascade with stops left in the queue.
      if b.halted then b.sendBack
      else drainLoop now fuel ({ b with triggeredStops := rest }.fireStop stop now)

/-- The number of stops that are dormant or woken, which no firing increases. -/
def pendingStops (b : Book) : ℕ :=
  b.sellStops.entries.length + b.buyStops.entries.length + b.triggeredStops.length

/-- `Book::check_and_trigger_stops`. -/
def checkAndTriggerStops (low high : ℤ) (now : ℤ) (b : Book) : Book :=
  if b.halted then b
  else
    let b := b.wakeStops low high
    -- A nested call leaves its stops to the drain that is under way.
    if b.drainingStops then b
    else
      let b := { b with drainingStops := true }
      let b := drainLoop now b.pendingStops b
      { b with drainingStops := false }

/-- `Book::add_order_core`. -/
def addOrderCore (b : Book) (incoming : Order) (now : ℤ) (reportReject : Bool) :
    Book × OrderResult :=
  b.addOrderCoreWith checkAndTriggerStops incoming now reportReject

/-! ## The public operations -/

/-- `Book::add_order`. -/
def addOrder (b : Book) (incoming : Order) (now : ℤ) : Book × OrderResult :=
  b.addOrderCore incoming now true

/-- `Book::modify_order`. -/
def modifyOrder (b : Book) (orderId : OrderId) (requester : OwnerId) (newPrice : ℤ)
    (newTotalQty : ℤ) (now : ℤ) : Book × OrderResult :=
  let refuse (b : Book) (why : RejectReason) : Book × OrderResult :=
    (b, { trades := [], unacceptedQuantity := newTotalQty, rejectReason := why })
  if !b.ownedBy orderId requester then refuse b .unknownOrder
  else
    match b.idIndex orderId with
    | none => refuse b (if (b.finishedOrders orderId).isSome then .tooLate else .unknownOrder)
    | some p =>
      let order := (b.node p).order
      let replacement := { order with price := some newPrice, quantity := newTotalQty }
      -- The fields are checked before the fills are subtracted.
      let bad := Session.validateOrderFields replacement
      if bad ≠ .none then refuse b bad
      else
        let newRemaining := newTotalQty - order.filled
        -- In-flight fill: the client already has as much as it now wants.
        if newRemaining ≤ 0 then
          let b := b.emit (order.event .cancelled now)
          ({ b with toStore := b.removeResting p },
            { trades := [], unacceptedQuantity := 0, rejectReason := .none })
        else
          let replacement := { replacement with quantity := newRemaining }
          -- Same price and not bigger: edit in place, keep queue priority.
          if some newPrice = order.price ∧ newRemaining ≤ order.quantity then
            let b := { b with toStore := b.reduceResting p (order.quantity - newRemaining) }
            (b.emit ((b.node p).order.event .modified now),
              { trades := [], unacceptedQuantity := 0, rejectReason := .none })
          else
            -- Everything else loses its place: it is checked again as a new order, halt included.
            let (s, invalid) := b.validateNewOrder replacement now
            let b := { b with toSession := s }
            if invalid ≠ .none then refuse b invalid
            else
              -- The event comes before the node is freed.
              let b := b.emit (order.event .replaced now)
              let b := { b with toStore := b.removeResting p }
              b.addOrderCore replacement now false

/-- `Book::cancel_order`. -/
def cancelOrder (b : Book) (orderId : OrderId) (requester : OwnerId) (now : ℤ) :
    Book × RejectReason :=
  if !b.ownedBy orderId requester then (b, .unknownOrder)
  else
    match b.idIndex orderId with
    | none => (b, if (b.finishedOrders orderId).isSome then .tooLate else .unknownOrder)
    | some p =>
      -- The event reads the node, which is then freed.
      let b := b.emit ((b.node p).order.event .cancelled now)
      ({ b with toStore := b.removeResting p }, .none)

/-- `Book::place_stop_order`. -/
def placeStopOrder (b : Book) (stop : StopOrder) (now : ℤ) : Book × RejectReason :=
  let bad := Session.validateStopFields stop
  let bad := if bad = .none && b.idInUse stop.id then RejectReason.duplicateOrderId else bad
  let bad :=
    -- A stop that the last trade price has already reached is refused.
    if bad = .none && b.wouldTriggerNow stop.side stop.stopPrice then .stopWouldTrigger else bad
  if bad ≠ .none then
    ({ b with
        toSession := b.emitRejected stop.id stop.ownerId stop.side (some stop.stopPrice)
          stop.quantity stop.limitPrice bad now }, bad)
  else
    let b := { b with toStopBook := b.insertBack b.cfg.priorities stop }
    let b := { b with stopIdsSeen := Function.update b.stopIdsSeen stop.id true }
    (b.emit (stop.event .stopAccepted now), .none)

/-- `Book::cancel_stop_order`. -/
def cancelStopOrder (b : Book) (orderId : OrderId) (requester : OwnerId) (now : ℤ) :
    Book × RejectReason :=
  if !b.ownedBy orderId requester then (b, .unknownOrder)
  else
    match b.stopIndex orderId with
    | none => (b, b.stopGoneReason orderId)
    | some location =>
      match (b.stopsFor location.side).find? location.key with
      | none => (b, .none) -- `extract` of a key that is not there: excluded by the index
      | some stop =>
        let b := { b with toStopBook := b.eraseStop location }
        let b := { b with stopIndex := Function.update b.stopIndex orderId none }
        (b.emit (stop.event .stopCancelled now), .none)

/-- `Book::modify_stop_order`. -/
def modifyStopOrder (b : Book) (orderId : OrderId) (requester : OwnerId) (newStopPrice : ℤ)
    (newLimitPrice : Option ℤ) (newQty : ℤ) (now : ℤ) : Book × RejectReason :=
  if !b.ownedBy orderId requester then (b, .unknownOrder)
  else
    match b.stopIndex orderId with
    | none => (b, b.stopGoneReason orderId)
    | some location =>
      match (b.stopsFor location.side).find? location.key with
      | none => (b, .none) -- `at` of a key that is not there: excluded by the index
      | some old =>
        let updated :=
          { old with stopPrice := newStopPrice, limitPrice := newLimitPrice, quantity := newQty }
        let bad := Session.validateStopFields updated
        if bad ≠ .none then (b, bad)
        else if b.wouldTriggerNow updated.side updated.stopPrice then (b, .stopWouldTrigger)
        else
          -- Only a pure size reduction keeps its place.
          let keepsPlace := newStopPrice = old.stopPrice ∧ newLimitPrice = old.limitPrice ∧
            newQty ≤ old.quantity
          let b := { b with toStopBook := b.eraseStop location }
          let b :=
            if keepsPlace then
              { b with toStopBook := b.insertDormantStop updated location.key.2 }
            else { b with toStopBook := b.insertBack b.cfg.priorities updated }
          (b.emit (updated.event .stopModified now), .none)

end Book

end OrderBookEngine
