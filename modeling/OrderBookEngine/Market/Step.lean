import OrderBookEngine.Market.Run
import Mathlib.Logic.Relation

/-!
# The market, step by step

A call lifts a halt that has run out, acts on the market, and leaves the rest to the engine, in small
steps: an order is accepted, trades with the head of the other queue, is cut short, rests or expires,
moves the reference and wakes stops; a woken stop fires; a halt sends the rest back. `Stage` says
where an order is between two steps, `Acts` is what a call does, and `Step now` what the engine does.
`Market/Chain.lean` proves that every call is such a sequence, so that a property of all runs needs
one lemma about each step.
-/

namespace OrderBookEngine

/-- The time of a call. -/
def Call.now : Call → ℤ
  | .addOrder _ now | .modifyOrder _ _ _ _ now | .cancelOrder _ _ now | .placeStopOrder _ now
  | .cancelStopOrder _ _ now | .modifyStopOrder _ _ _ _ _ now => now

/-- The id that a call is about. -/
def Call.id : Call → OrderId
  | .addOrder order _ => order.id
  | .placeStopOrder stop _ => stop.id
  | .modifyOrder id _ _ _ _ | .cancelOrder id _ _ | .cancelStopOrder id _ _
  | .modifyStopOrder id _ _ _ _ _ => id

/-- The calls that bring a new id. -/
def Call.creates : Call → Bool
  | .addOrder _ _ | .placeStopOrder _ _ => true
  | _ => false

namespace Market

/-- The market between two steps, with the order in flight. -/
inductive Stage where
  /-- Between two calls or two firings. -/
  | idle (m : Market)
  /-- The order has left the book or the FIFO, and is about to be accepted again. -/
  | entering (m : Market) (order : Order)
  /-- The order has been accepted and is matched. -/
  | walking (w : Walk)
  /-- The price band has cut the walk short. -/
  | stopped (w : Walk)
  /-- The order is filled, resting, or expired with a quantity `unaccepted`. Its trades have not yet
  moved the reference. -/
  | settled (m : Market) (trades : List Trade) (unaccepted : ℤ)

/-- The market of a stage. -/
def Stage.market : Stage → Market
  | .idle m => m
  | .entering m _ => m
  | .walking w => w.market
  | .stopped w => w.market
  | .settled m _ _ => m

/-- The walk may trade with the order at the head of the other queue, as far as the band lets it. -/
structure Walk.Meets (w : Walk) (x : RestingOrder) (xs : List RestingOrder) : Prop where
  /-- The order is the best on the other side. -/
  queue : w.market.queue w.incoming.side.opposite = x :: xs
  /-- Something is left of the incoming order. -/
  quantity : 0 < w.incoming.quantity
  /-- The incoming order reaches the price. -/
  crosses : w.incoming.crosses x.price = true
  /-- So does its collar, if it has one. -/
  insideCollar : w.market.insideCollar w.incoming x.price = true
  /-- The two orders have different owners. -/
  owner : x.ownerId ≠ w.incoming.ownerId

/-- The walk starts with an accepted order. -/
def accept (m : Market) (order : Order) (now : ℤ) : Walk :=
  { market := m.emit (order.event .accepted now), incoming := order }

/-- The halt branch of a walk. -/
def Walk.halt (w : Walk) (x : RestingOrder) (now : ℤ) : Walk :=
  { w with market := { w.market with toSession := w.market.halt w.incoming x.price now } }

/-- The lowest price of a walk's trades. -/
def lowPrice (trades : List Trade) (last : Trade) : ℤ :=
  trades.foldl (fun low trade => min low trade.price) last.price

/-- The highest price of a walk's trades. -/
def highPrice (trades : List Trade) (last : Trade) : ℤ :=
  trades.foldl (fun high trade => max high trade.price) last.price

/-- The effect of a walk's trades: the reference moves, and stops wake. -/
def absorb (m : Market) (trades : List Trade) (last : Trade) : Market :=
  { m with toSession := m.moveReference last }.wakeStops (lowPrice trades last) (highPrice trades last)

/-- One step of the engine at a time `now`. -/
inductive Step (now : ℤ) : Stage → Stage → Prop where
  /-- The order in flight is accepted, and starts to walk. -/
  | reenter {m : Market} {order : Order} :
    Step now (.entering m order) (.walking (m.accept order now))
  /-- The walk trades with the best order on the other side. -/
  | trade {w : Walk} {x : RestingOrder} {xs : List RestingOrder} {outside breach : Option ℤ}
    (meets : w.Meets x xs) (band : w.market.bandDecision now w.breachLevel x.price = .print outside breach) :
    Step now (.walking w) (.walking (w.trade now x xs outside breach))
  /-- The clock of the band has run out, and the symbol is halted. -/
  | halt {w : Walk} {x : RestingOrder} {xs : List RestingOrder} (meets : w.Meets x xs)
    (band : w.market.bandDecision now w.breachLevel x.price = .halt) :
    Step now (.walking w) (.stopped (w.halt x now))
  /-- The order has reached a second price outside the band. -/
  | limit {w : Walk} {x : RestingOrder} {xs : List RestingOrder} (meets : w.Meets x xs)
    (band : w.market.bandDecision now w.breachLevel x.price = .limit) :
    Step now (.walking w) (.stopped w)
  /-- Nothing is left of the order. -/
  | filled {w : Walk} (quantity : w.incoming.quantity = 0) :
    Step now (.walking w)
      (.settled { w.market with toSession := w.market.markFilled w.incoming.id } w.trades 0)
  /-- The other side has nothing for the order, which rests. -/
  | rest {w : Walk} {m : Market} (quantity : 0 < w.incoming.quantity) (type : w.incoming.type = .limit)
    (runOut : ∀ x ∈ w.market.queue w.incoming.side.opposite, w.incoming.crosses x.price = false)
    (room : w.market.restOrder w.incoming now = some m) :
    Step now (.walking w) (.settled m w.trades 0)
  /-- What is left of the order expires. -/
  | expire {w : Walk} (quantity : 0 < w.incoming.quantity) :
    Step now (.walking w)
      (.settled (w.market.emit (w.incoming.event .expired now)) w.trades w.incoming.quantity)
  /-- A limit order that the band has stopped rests, at the edge if its price is past it. -/
  | restAtBandEdge {w : Walk} {m : Market} (type : w.incoming.type = .limit)
    (valid : Session.validateOrderFields (w.market.atBandEdge w.incoming) = .none)
    (room : w.market.restOrder (w.market.atBandEdge w.incoming) now = some m) :
    Step now (.stopped w) (.settled m w.trades 0)
  /-- What is left of an order that the band has stopped expires. -/
  | expireStopped {w : Walk} {price : Option ℤ} :
    Step now (.stopped w)
      (.settled (w.market.emit ({ w.incoming with price }.event .expired now)) w.trades
        w.incoming.quantity)
  /-- A walk without a trade is over. -/
  | finish {m : Market} {unaccepted : ℤ} : Step now (.settled m [] unaccepted) (.idle m)
  /-- The trades of a walk move the reference and wake stops. -/
  | absorb {m : Market} {trades : List Trade} {unaccepted : ℤ} {last : Trade}
    (last_eq : trades.getLast? = some last) :
    Step now (.settled m trades unaccepted) (.idle (m.absorb trades last))
  /-- The first woken stop fires. -/
  | fire {m : Market} {stop : StopOrder} {rest : List StopOrder} (fifo : m.fifo = stop :: rest)
    (halted : m.halted = false) :
    Step now (.idle m)
      (.entering ({ m with fifo := rest }.emit (stop.event .stopTriggered now)) stop.firedOrder)
  /-- The woken stops go back to sleep under a halt. -/
  | sendBack {m : Market} (halted : m.halted = true) : Step now (.idle m) (.idle m.sendBack)

/-- A sequence of steps at one time. -/
abbrev Steps (now : ℤ) : Stage → Stage → Prop := Relation.ReflTransGen (Step now)

/-- An order walks at a stage. -/
def Stage.Walks : Stage → Prop
  | .walking _ | .stopped _ => True
  | _ => False

/-- A sequence of steps of one walk. -/
abbrev WalkSteps (now : ℤ) : Stage → Stage → Prop :=
  Relation.ReflTransGen fun s s' => s.Walks ∧ Step now s s'

/-- A walk is made of steps. -/
theorem WalkSteps.steps {now : ℤ} {s s' : Stage} (h : WalkSteps now s s') : Steps now s s' := by
  induction h with
  | refl => exact .refl
  | tail _ hlast ih => exact ih.tail hlast.2

/-- What every step of a walk keeps, the walk keeps. -/
theorem WalkSteps.invariant {now : ℤ} {I : Stage → Prop} {s s' : Stage} (hs : WalkSteps now s s')
    (hstep : ∀ {s s'}, s.Walks → Step now s s' → I s → I s') (h : I s) : I s' := by
  induction hs with
  | refl => exact h
  | tail _ hlast ih => exact hstep hlast.1 hlast.2 ih

/-- What every step keeps, a sequence of steps keeps. -/
theorem Steps.invariant {now : ℤ} {I : Stage → Prop} {s s' : Stage} (hs : Steps now s s')
    (hstep : ∀ {s s'}, Step now s s' → I s → I s') (h : I s) : I s' := by
  induction hs with
  | refl => exact h
  | tail _ hlast ih => exact hstep hlast ih

/-- What a call does to a market, before the engine's steps. -/
inductive Acts (m : Market) : Call → Stage → Prop where
  /-- A refusal without an event. -/
  | refuse {c : Call} (kind : ∀ order now, c ≠ .addOrder order now) : Acts m c (.idle m)
  /-- A new order is refused. -/
  | reject {order : Order} {why : RejectReason} {now : ℤ} :
    Acts m (.addOrder order now)
      (.idle { m with
        toSession := m.emitRejected order.id order.ownerId order.side order.price order.quantity none
          why now })
  /-- A new order is accepted, and starts to walk. -/
  | submit {order : Order} {now : ℤ} (fresh : m.idInUse order.id = false) (halted : m.halted = false)
    (valid : Session.validateOrderFields order = .none) :
    Acts m (.addOrder order now) (.walking (m.accept order now))
  /-- A resting order is taken off. -/
  | cancel {id : OrderId} {requester : OwnerId} {order : Order} {now : ℤ}
    (found : m.restingOrder? id = some order) :
    Acts m (.cancelOrder id requester now) (.idle ((m.emit (order.event .cancelled now)).remove order.id))
  /-- A change to no more than is filled. -/
  | withdraw {id : OrderId} {requester : OwnerId} {order : Order} {price quantity now : ℤ}
    (found : m.restingOrder? id = some order) :
    Acts m (.modifyOrder id requester price quantity now)
      (.idle ((m.emit (order.event .cancelled now)).remove order.id))
  /-- A smaller quantity at the same price. -/
  | reduce {id : OrderId} {requester : OwnerId} {order : Order} {price quantity now : ℤ}
    (found : m.restingOrder? id = some order) (pos : 0 < quantity - order.filled)
    (le : quantity - order.filled ≤ order.quantity) :
    Acts m (.modifyOrder id requester price quantity now)
      (.idle ((m.reduce order.id (order.quantity - (quantity - order.filled))).emit
        ({ order with quantity := quantity - order.filled }.event .modified now)))
  /-- Any other change. -/
  | replace {id : OrderId} {requester : OwnerId} {order : Order} {price quantity now : ℤ}
    (halted : m.halted = false) (found : m.restingOrder? id = some order)
    (change : ¬(some price = order.price ∧ quantity - order.filled ≤ order.quantity))
    (valid : Session.validateOrderFields
      { order with price := some price, quantity := quantity - order.filled } = .none) :
    Acts m (.modifyOrder id requester price quantity now)
      (.entering ((m.emit (order.event .replaced now)).remove order.id)
        { order with price := some price, quantity := quantity - order.filled })
  /-- A new stop is refused. -/
  | rejectStop {stop : StopOrder} {why : RejectReason} {now : ℤ} :
    Acts m (.placeStopOrder stop now)
      (.idle { m with
        toSession := m.emitRejected stop.id stop.ownerId stop.side (some stop.stopPrice) stop.quantity
          stop.limitPrice why now })
  /-- A new stop is added behind the others. -/
  | placeStop {stop : StopOrder} {now : ℤ} (fresh : m.idInUse stop.id = false)
    (valid : Session.validateStopFields stop = .none)
    (ahead : m.wouldTriggerNow stop.side stop.stopPrice = false) :
    Acts m (.placeStopOrder stop now)
      (.idle ({ m with
        stops := m.stops ++ [stop]
        stopIdsSeen := Function.update m.stopIdsSeen stop.id true }.emit (stop.event .stopAccepted now)))
  /-- A dormant stop is taken off. -/
  | cancelStop {id : OrderId} {requester : OwnerId} {stop : StopOrder} {now : ℤ}
    (found : m.stop? id = some stop) :
    Acts m (.cancelStopOrder id requester now)
      (.idle ({ m with stops := m.stops.filter fun s => s.id ≠ stop.id }.emit
        (stop.event .stopCancelled now)))
  /-- A dormant stop is changed, in its place or behind the others. -/
  | modifyStop {id : OrderId} {requester : OwnerId} {old : StopOrder} {stopPrice : ℤ}
    {limitPrice : Option ℤ} {quantity now : ℤ} (found : m.stop? id = some old)
    (valid : Session.validateStopFields { old with stopPrice, limitPrice, quantity } = .none)
    (ahead : m.wouldTriggerNow old.side stopPrice = false) :
    Acts m (.modifyStopOrder id requester stopPrice limitPrice quantity now)
      (.idle ({ m with
        stops := replaceStop m.stops old { old with stopPrice, limitPrice, quantity } }.emit
          ({ old with stopPrice, limitPrice, quantity }.event .stopModified now)))

/-- The market after a halt that has run out is lifted. -/
def resume (m : Market) (now : ℤ) : Market :=
  { m with halted := false, outsideBandSince := none }.emit
    { kind := .resumed, ts := now, orderId := 0, ownerId := 0, side := .buy, price := none,
      quantity := 0 }

/-- A call may begin by lifting a halt. -/
def Resumes (now : ℤ) (m m' : Market) : Prop :=
  m' = m ∨ m.halted = true ∧ m.haltUntil ≤ now ∧ m' = m.resume now

/-- The stages that a run of calls can be in. -/
inductive Reachable (cfg : Config) : Stage → Prop where
  /-- A fresh market. -/
  | start : Reachable cfg (.idle (Market.make cfg))
  /-- A halt is lifted, with no stop on its way. -/
  | resume {m : Market} {now : ℤ} (h : Reachable cfg (.idle m)) (halted : m.halted = true)
    (fifo : m.fifo = []) : Reachable cfg (.idle (m.resume now))
  /-- A call begins, with no stop on its way. -/
  | act {m : Market} {c : Call} {s : Stage} (h : Reachable cfg (.idle m)) (fifo : m.fifo = [])
    (act : Acts m c s) : Reachable cfg s
  /-- The engine takes a step. -/
  | step {s s' : Stage} {now : ℤ} (h : Reachable cfg s) (step : Step now s s') : Reachable cfg s'

/-- A property that a fresh market has, and that resumptions, actions and steps keep. -/
structure Invariant (cfg : Config) (I : Stage → Prop) : Prop where
  /-- A fresh market has it. -/
  start : I (.idle (Market.make cfg))
  /-- Lifting a halt keeps it. -/
  resume : ∀ {m now}, m.halted = true → I (.idle m) → I (.idle (Market.resume m now))
  /-- The action of a call keeps it. -/
  act : ∀ {m c s}, m.fifo = [] → Acts m c s → I (.idle m) → I s
  /-- A step keeps it. -/
  step : ∀ {s s' now}, Step now s s' → I s → I s'

/-- Every reachable stage has an invariant property. -/
theorem Reachable.invariant {cfg : Config} {I : Stage → Prop} {s : Stage} (h : Reachable cfg s)
    (hI : Invariant cfg I) : I s := by
  induction h with
  | start => exact hI.start
  | resume _ halted _ ih => exact hI.resume halted ih
  | act _ fifo act ih => exact hI.act fifo act ih
  | step _ step ih => exact hI.step step ih

/-- Steps lead from reachable stages to reachable ones. -/
theorem Reachable.steps {cfg : Config} {now : ℤ} {s s' : Stage} (h : Reachable cfg s)
    (hs : Steps now s s') : Reachable cfg s' :=
  hs.invariant (fun hstep h => h.step hstep) h

/-- A resumption leads from an idle stage to another. -/
theorem Reachable.resumes {cfg : Config} {now : ℤ} {m m' : Market} (h : Reachable cfg (.idle m))
    (hfifo : m.fifo = []) (hr : Resumes now m m') : Reachable cfg (.idle m') ∧ m'.fifo = [] := by
  rcases hr with rfl | ⟨hh, -, rfl⟩
  · exact ⟨h, hfifo⟩
  · exact ⟨h.resume hh hfifo, hfifo⟩

end Market

end OrderBookEngine
