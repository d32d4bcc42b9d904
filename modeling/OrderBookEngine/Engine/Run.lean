import OrderBookEngine.Engine.Book

/-!
# Runs of a book

A run is a list of public calls. `callEntries` lists what a call walks: every order that is accepted
and planned, the call's own and the ones fired by stops, each with the book it was planned against.
`executed` lists the fills that a fill loop prints, each with the loop's state before it.
-/

namespace OrderBookEngine

/-- A public call and its arguments. -/
inductive Call where
  | addOrder (order : Order) (now : ℤ)
  | modifyOrder (orderId : OrderId) (requester : OwnerId) (newPrice newTotalQty : ℤ) (now : ℤ)
  | cancelOrder (orderId : OrderId) (requester : OwnerId) (now : ℤ)
  | placeStopOrder (stop : StopOrder) (now : ℤ)
  | cancelStopOrder (orderId : OrderId) (requester : OwnerId) (now : ℤ)
  | modifyStopOrder (orderId : OrderId) (requester : OwnerId) (newStopPrice : ℤ)
      (newLimitPrice : Option ℤ) (newQty : ℤ) (now : ℤ)
deriving DecidableEq, Repr

/-- An order at the moment its walk begins, in a state of type `σ`. -/
structure Entry (σ : Type) where
  /-- The state before the walk. -/
  state : σ
  /-- The order that walks. -/
  order : Order
  /-- The time of its call. -/
  now : ℤ

namespace Book

/-- The book after a call. -/
def call (b : Book) : Call → Book
  | .addOrder order now => (b.addOrder order now).1
  | .modifyOrder orderId requester newPrice newTotalQty now =>
    (b.modifyOrder orderId requester newPrice newTotalQty now).1
  | .cancelOrder orderId requester now => (b.cancelOrder orderId requester now).1
  | .placeStopOrder stop now => (b.placeStopOrder stop now).1
  | .cancelStopOrder orderId requester now => (b.cancelStopOrder orderId requester now).1
  | .modifyStopOrder orderId requester newStopPrice newLimitPrice newQty now =>
    (b.modifyStopOrder orderId requester newStopPrice newLimitPrice newQty now).1

/-- The book after a list of calls. -/
def run (b : Book) (calls : List Call) : Book := calls.foldl call b

/-- No call changes nothing. -/
@[simp] theorem run_nil (b : Book) : b.run [] = b := rfl

/-- The first call is made, and then the others. -/
@[simp] theorem run_cons (b : Book) (c : Call) (calls : List Call) :
    b.run (c :: calls) = (b.call c).run calls := rfl

/-- Two runs follow each other. -/
theorem run_append (b : Book) (calls calls' : List Call) :
    b.run (calls ++ calls') = (b.run calls).run calls' := List.foldl_append

/-- The events of a call. -/
def emitted (b : Book) (c : Call) : List EngineEvent := (b.call c).events.drop b.events.length

/-! ## Entries -/

/-- The book that an accepted order is planned against, or `none` for an order that is refused. -/
def admitted (b : Book) (incoming : Order) (now : ℤ) : Option Book :=
  let (s, invalid) := b.validateNewOrder incoming now
  let b := { b with toSession := s }
  if invalid = .none && !b.idInUse incoming.id then some (b.emit (incoming.event .accepted now))
  else none

section Admitted

variable {b b' : Book} {incoming : Order} {now : ℤ}

/-- An admitted order walks, and the stops that it wakes fire. -/
theorem addOrderCoreWith_of_admitted (trigger : ℤ → ℤ → ℤ → Book → Book)
    (h : b.admitted incoming now = some b') (reportReject : Bool) :
    b.addOrderCoreWith trigger incoming now reportReject =
      afterWalk trigger (b'.walk incoming now) now := by
  rw [admitted] at h
  simp only at h
  split_ifs at h with hok
  simp only [Bool.and_eq_true, decide_eq_true_eq, Bool.not_eq_true'] at hok
  rw [addOrderCoreWith]
  simp [hok.1, hok.2, ← Option.some.inj h]

/-- A refused order changes the session only, if that. -/
theorem addOrderCoreWith_of_refused (trigger : ℤ → ℤ → ℤ → Book → Book)
    (h : b.admitted incoming now = none) (reportReject : Bool) :
    ∃ why ≠ RejectReason.none,
      b.addOrderCoreWith trigger incoming now reportReject =
        ({ b with
            toSession :=
              let s := (b.validateNewOrder incoming now).1
              if reportReject then
                s.emitRejected incoming.id incoming.ownerId incoming.side incoming.price
                  incoming.quantity none why now
              else s },
          { trades := [], unacceptedQuantity := incoming.quantity, rejectReason := why }) := by
  rw [admitted] at h
  simp only at h
  split_ifs at h with hok
  rw [addOrderCoreWith]
  simp only
  set s := b.validateNewOrder incoming now
  set why := if (decide (s.2 = RejectReason.none) &&
      ({ b with toSession := s.1 } : Book).idInUse incoming.id) = true then
    RejectReason.duplicateOrderId else s.2 with hwhy
  have hne : why ≠ RejectReason.none := by
    rw [hwhy]
    split_ifs with hdup
    · simp
    · intro hs
      simp [hs] at hok hdup
      simp [hok] at hdup
  refine ⟨why, hne, ?_⟩
  rw [if_pos hne]
  cases reportReject <;> rfl

end Admitted

/-- The orders that are walked after a walk, by what its trades trigger. -/
def entriesAfter (after : ℤ → ℤ → ℤ → Book → List (Entry Book)) (walked : Book × OrderResult)
    (now : ℤ) : List (Entry Book) :=
  let (b, result) := walked
  match result.trades.getLast? with
  | none => []
  | some last =>
    let low := result.trades.foldl (fun low trade => min low trade.price) last.price
    let high := result.trades.foldl (fun high trade => max high trade.price) last.price
    after low high now { b with toSession := b.moveReference last }

/-- The orders that `addOrderCoreWith` walks, over those of the call that ends it. -/
def coreEntries (after : ℤ → ℤ → ℤ → Book → List (Entry Book)) (b : Book) (incoming : Order)
    (now : ℤ) : List (Entry Book) :=
  match b.admitted incoming now with
  | none => []
  | some b =>
    { state := b, order := incoming, now } :: entriesAfter after (b.walk incoming now) now

/-- The orders that the drain loop walks. -/
def drainEntries (now : ℤ) : ℕ → Book → List (Entry Book)
  | 0, _ => []
  | fuel + 1, b =>
    match b.triggeredStops with
    | [] => []
    | stop :: rest =>
      if b.halted then []
      else
        let b := { b with triggeredStops := rest }
        coreEntries (fun _ _ _ _ => []) (b.emit (stop.event .stopTriggered now)) stop.firedOrder now ++
          drainEntries now fuel (b.fireStop stop now)

/-- The orders that `checkAndTriggerStops` walks. -/
def triggerEntries (low high : ℤ) (now : ℤ) (b : Book) : List (Entry Book) :=
  if b.halted then []
  else
    let b := b.wakeStops low high
    if b.drainingStops then []
    else
      let b := { b with drainingStops := true }
      drainEntries now b.pendingStops b

/-- The orders that a call walks: its own, and the ones that it fires. -/
def callEntries (b : Book) : Call → List (Entry Book)
  | .addOrder order now => b.coreEntries triggerEntries order now
  | .modifyOrder orderId requester newPrice newTotalQty now =>
    if !b.ownedBy orderId requester then []
    else
      match b.idIndex orderId with
      | none => []
      | some p =>
        let order := (b.node p).order
        let replacement := { order with price := some newPrice, quantity := newTotalQty }
        let newRemaining := newTotalQty - order.filled
        if Session.validateOrderFields replacement ≠ .none ∨ newRemaining ≤ 0 ∨
            some newPrice = order.price ∧ newRemaining ≤ order.quantity then []
        else
          let replacement := { replacement with quantity := newRemaining }
          let (s, invalid) := b.validateNewOrder replacement now
          if invalid ≠ .none then []
          else
            let b := { b with toSession := s }.emit (order.event .replaced now)
            { b with toStore := b.removeResting p }.coreEntries triggerEntries replacement now
  | _ => []

/-- The orders that a run walks. -/
def runEntries (b : Book) : List Call → List (Entry Book)
  | [] => []
  | c :: calls => b.callEntries c ++ (b.call c).runEntries calls

/-- The fills that a fill loop prints, each with the loop's state before it. -/
def executed (now : ℤ) : List ProposedFill → FillLoop → List (FillLoop × ProposedFill)
  | [], _ => []
  | fill :: fills, l =>
    let l' := fillStep now l fill
    if l'.haltedByBand || l'.bandLimited then [] else (l, fill) :: executed now fills l'

/-- The fills that a fill loop gets to, each with the loop's state before it: those that it prints, and
the one that stops it. -/
def reached (now : ℤ) : List ProposedFill → FillLoop → List (FillLoop × ProposedFill)
  | [], _ => []
  | fill :: fills, l =>
    let l' := fillStep now l fill
    (l, fill) :: if l'.haltedByBand || l'.bandLimited then [] else reached now fills l'

end Book

/-- The fill loop that an entry starts with. -/
def Entry.loop (e : Entry Book) : Book.FillLoop := { book := e.state, incoming := e.order }

/-- The plan of an entry. -/
def Entry.plan (e : Entry Book) : MatchPlan := e.state.planMatch e.order

/-- The fills that an entry prints. -/
def Entry.executed (e : Entry Book) : List (Book.FillLoop × ProposedFill) :=
  Book.executed e.now e.plan.fills e.loop

/-- The fills that an entry gets to. -/
def Entry.reached (e : Entry Book) : List (Book.FillLoop × ProposedFill) :=
  Book.reached e.now e.plan.fills e.loop

end OrderBookEngine
