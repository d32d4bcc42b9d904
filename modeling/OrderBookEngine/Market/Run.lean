import OrderBookEngine.Market.Basic
import OrderBookEngine.Engine.Run

/-!
# Runs of a market

The calls of `Engine/Run.lean` on the market, with the same lists of entries and, for each walk, the
orders that it trades with.
-/

namespace OrderBookEngine

namespace Market

/-- The market after a call. -/
def call (m : Market) : Call → Market
  | .addOrder order now => (m.addOrder order now).1
  | .modifyOrder orderId requester newPrice newTotalQty now =>
    (m.modifyOrder orderId requester newPrice newTotalQty now).1
  | .cancelOrder orderId requester now => (m.cancelOrder orderId requester now).1
  | .placeStopOrder stop now => (m.placeStopOrder stop now).1
  | .cancelStopOrder orderId requester now => (m.cancelStopOrder orderId requester now).1
  | .modifyStopOrder orderId requester newStopPrice newLimitPrice newQty now =>
    (m.modifyStopOrder orderId requester newStopPrice newLimitPrice newQty now).1

/-- The market after a list of calls. -/
def run (m : Market) (calls : List Call) : Market := calls.foldl call m

/-- No call changes nothing. -/
@[simp] theorem run_nil (m : Market) : m.run [] = m := rfl

/-- The first call is made, and then the others. -/
@[simp] theorem run_cons (m : Market) (c : Call) (calls : List Call) :
    m.run (c :: calls) = (m.call c).run calls := rfl

/-- The market that an accepted order walks, or `none` for an order that is refused. -/
def admitted (m : Market) (incoming : Order) (now : ℤ) : Option Market :=
  let (s, invalid) := m.validateNewOrder incoming now
  let m := { m with toSession := s }
  if invalid = .none && !m.idInUse incoming.id then some (m.emit (incoming.event .accepted now))
  else none

section Admitted

variable {m m' : Market} {incoming : Order} {now : ℤ}

/-- An admitted order walks, and the stops that it wakes fire. -/
theorem enterWith_of_admitted (trigger : ℤ → ℤ → ℤ → Market → Market)
    (h : m.admitted incoming now = some m') (reportReject : Bool) :
    m.enterWith trigger incoming now reportReject =
      afterWalk trigger (m'.walk incoming now) now := by
  rw [admitted] at h
  simp only at h
  split_ifs at h with hok
  simp only [Bool.and_eq_true, decide_eq_true_eq, Bool.not_eq_true'] at hok
  rw [enterWith]
  simp [hok.1, hok.2, ← Option.some.inj h]

/-- A refused order changes the session only, if that. -/
theorem enterWith_of_refused (trigger : ℤ → ℤ → ℤ → Market → Market)
    (h : m.admitted incoming now = none) (reportReject : Bool) :
    ∃ why ≠ RejectReason.none,
      m.enterWith trigger incoming now reportReject =
        ({ m with
            toSession :=
              let s := (m.validateNewOrder incoming now).1
              if reportReject then
                s.emitRejected incoming.id incoming.ownerId incoming.side incoming.price
                  incoming.quantity none why now
              else s },
          { trades := [], unacceptedQuantity := incoming.quantity, rejectReason := why }) := by
  rw [admitted] at h
  simp only at h
  split_ifs at h with hok
  rw [enterWith]
  simp only
  set s := m.validateNewOrder incoming now
  set why := if (decide (s.2 = RejectReason.none) &&
      ({ m with toSession := s.1 } : Market).idInUse incoming.id) = true then
    RejectReason.duplicateOrderId else s.2 with hwhy
  -- One of the two checks has refused.
  have hne : why ≠ RejectReason.none := by
    rw [hwhy]
    split_ifs with hdup
    · simp
    · intro hs
      simp [hs] at hok hdup
      simp [hok] at hdup
  refine ⟨why, hne, ?_⟩
  rw [if_pos hne]
  cases reportReject <;> rfl

end Admitted

/-- The orders that are walked after a walk, by what its trades trigger. -/
def entriesAfter (after : ℤ → ℤ → ℤ → Market → List (Entry Market)) (walked : Market × OrderResult)
    (now : ℤ) : List (Entry Market) :=
  let (m, result) := walked
  match result.trades.getLast? with
  | none => []
  | some last =>
    let low := result.trades.foldl (fun low trade => min low trade.price) last.price
    let high := result.trades.foldl (fun high trade => max high trade.price) last.price
    after low high now { m with toSession := m.moveReference last }

/-- The orders that `enterWith` walks, over those of the call that ends it. -/
def coreEntries (after : ℤ → ℤ → ℤ → Market → List (Entry Market)) (m : Market) (incoming : Order)
    (now : ℤ) : List (Entry Market) :=
  match m.admitted incoming now with
  | none => []
  | some m =>
    { state := m, order := incoming, now } :: entriesAfter after (m.walk incoming now) now

/-- The walks of a drain. -/
def drainEntries (now : ℤ) : ℕ → Market → List (Entry Market)
  | 0, _ => []
  | fuel + 1, m =>
    match m.fifo with
    | [] => []
    | stop :: rest =>
      if m.halted then []
      else
        let m := { m with fifo := rest }
        coreEntries (fun _ _ _ _ => []) (m.emit (stop.event .stopTriggered now)) stop.firedOrder now ++
          drainEntries now fuel (m.fireStop stop now)

/-- The walks of the stops that a walk has woken. -/
def triggerEntries (low high : ℤ) (now : ℤ) (m : Market) : List (Entry Market) :=
  let m := m.wakeStops low high
  if m.halted then [] else drainEntries now (m.stops.length + m.fifo.length) m

/-- The orders that a call walks: its own, and the ones that it fires. -/
def callEntries (m : Market) : Call → List (Entry Market)
  | .addOrder order now => m.coreEntries triggerEntries order now
  | .modifyOrder orderId requester newPrice newTotalQty now =>
    if !m.ownedBy orderId requester then []
    else
      match m.restingOrder? orderId with
      | none => []
      | some order =>
        let replacement := { order with price := some newPrice, quantity := newTotalQty }
        let newRemaining := newTotalQty - order.filled
        if Session.validateOrderFields replacement ≠ .none ∨ newRemaining ≤ 0 ∨
            some newPrice = order.price ∧ newRemaining ≤ order.quantity then []
        else
          let replacement := { replacement with quantity := newRemaining }
          let (s, invalid) := m.validateNewOrder replacement now
          if invalid ≠ .none then []
          else
            let m := { m with toSession := s }.emit (order.event .replaced now)
            (m.remove order.id).coreEntries triggerEntries replacement now
  | _ => []

/-- The orders that a run walks. -/
def runEntries (m : Market) : List Call → List (Entry Market)
  | [] => []
  | c :: calls => m.callEntries c ++ (m.call c).runEntries calls

/-- The orders that a walk trades with, each with the walk before the trade. -/
def traded (now : ℤ) : List RestingOrder → Walk → List (Walk × RestingOrder)
  | [], _ => []
  | x :: xs, w =>
    if w.incoming.quantity ≤ 0 then []
    else if !w.incoming.crosses x.price then []
    else if !w.market.insideCollar w.incoming x.price then []
    else if x.ownerId = w.incoming.ownerId then []
    else
      match w.market.bandDecision now w.breachLevel x.price with
      | .halt => []
      | .limit => []
      | .print outsideBandSince breachLevel =>
        (w, x) :: traded now xs (w.trade now x xs outsideBandSince breachLevel)

end Market

/-- The walk that an entry starts with. -/
def Entry.walk (e : Entry Market) : Market.Walk := { market := e.state, incoming := e.order }

/-- The orders that an entry trades with. -/
def Entry.traded (e : Entry Market) : List (Market.Walk × RestingOrder) :=
  Market.traded e.now (e.state.queue e.order.side.opposite) e.walk

end OrderBookEngine
