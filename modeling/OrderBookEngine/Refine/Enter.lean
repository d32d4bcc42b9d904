import OrderBookEngine.Refine.Walk
import OrderBookEngine.Engine.Frame

/-!
# Entering an order

The remainder of a walk is settled alike (`settle_represents`), so an admitted order walks alike
(`walk_represents`), and an order enters alike over whatever its trades trigger
(`addOrderCoreWith_represents`).
-/

namespace OrderBookEngine

namespace Book

/-- A book represents a market. -/
def Represents (b : Book) (m : Market) : Prop := ∃ L free K, b.Rep m L free K

variable {b : Book} {m : Market} {L : Layout} {free : List Ptr} {K : List (ℤ × StopOrder)}
  {incoming : Order} {now : ℤ}

/-- A book and the market it represents share their session. -/
theorem Represents.session (h : b.Represents m) : b.toSession = m.toSession := by
  obtain ⟨L, free, K, h⟩ := h
  exact h.session

/-- They are halted together. -/
theorem Represents.halted (h : b.Represents m) : b.halted = m.halted := by rw [h.session]

/-- The same session may be put into both. -/
theorem Represents.withSession (h : b.Represents m) (s : Session) :
    ({ b with toSession := s } : Book).Represents { m with toSession := s } := by
  obtain ⟨L, free, K, h⟩ := h
  exact ⟨L, free, K, h.withSession s⟩

/-- The same event may be emitted on both. -/
theorem Represents.emit (h : b.Represents m) (e : EngineEvent) : (b.emit e).Represents (m.emit e) := by
  have := h.withSession (m.toSession.emit e)
  rw [← h.session] at this
  rw [Book.emit, Market.emit, ← h.session]
  exact this

/-- A fresh book represents a fresh market. -/
theorem represents_make (cfg : Config) : (Book.make cfg).Represents (Market.make cfg) :=
  ⟨fun _ => [], List.range cfg.poolCapacity, [], rfl, Store.queues_make cfg,
    ⟨List.Pairwise.nil, by simp, by simp, by show kPriorityMid - 1 < kPriorityMid; omega, le_rfl,
      fun side _ _ => by cases side <;> simp [make, StopBook.stopsFor], by simp [make]⟩, rfl, rfl,
    List.nodup_nil⟩

/-- A snapshot lists the market's queues. -/
theorem Represents.collect_eq (h : b.Represents m) (side : Side) : b.collect side = m.queue side := by
  obtain ⟨L, free, K, h⟩ := h
  rw [h.queues.shape.collect_eq, h.queues.queue]

/-- A snapshot lists the market's stops, in another order. -/
theorem Represents.dormant_perm (h : b.Represents m) : b.dormant.Perm m.stops := by
  obtain ⟨L, free, K, h⟩ := h
  rw [h.stops]
  exact h.lists.dormant_perm

/-- Both find the same order under an id. -/
theorem Represents.lookup (h : b.Represents m) (id : OrderId) :
    (b.idIndex id = none ∧ m.restingOrder? id = none) ∨
      ∃ p, b.idIndex id = some p ∧ m.restingOrder? id = some (b.node p).order := by
  obtain ⟨L, free, K, h⟩ := h
  rcases h.queues.lookup id with hnone | ⟨-, p, -, -, hidx, hm⟩
  · exact Or.inl hnone
  · exact Or.inr ⟨p, hidx, hm⟩

/-- The node under an id has the order that the market finds. -/
theorem Represents.restingOrder?_eq (h : b.Represents m) {id : OrderId} {p : Ptr} (hidx : b.idIndex id = some p) :
    m.restingOrder? id = some (b.node p).order := by
  rcases h.lookup id with ⟨hnone, -⟩ | ⟨p', hidx', hfound⟩
  · rw [hidx] at hnone
    cases hnone
  · obtain rfl := Option.some.inj (hidx.symm.trans hidx')
    exact hfound

/-- Both find the same stop under an id. -/
theorem Represents.stopIndex_isSome (h : b.Represents m) (id : OrderId) :
    (b.stopIndex id).isSome = (m.stop? id).isSome := by
  obtain ⟨L, free, K, h⟩ := h
  rw [Market.stop?, h.stops]
  rcases h.lists.lookup id with ⟨h1, h2⟩ | ⟨e, -, -, h1, h2⟩ <;> simp [h1, h2]

/-- An id is in use on one side exactly when it is on the other. -/
theorem Represents.idInUse (h : b.Represents m) (id : OrderId) : b.idInUse id = m.idInUse id := by
  have hidx : (b.idIndex id).isSome = (m.restingOrder? id).isSome := by
    rcases h.lookup id with ⟨h1, h2⟩ | ⟨p, h1, h2⟩ <;> simp [h1, h2]
  rw [Book.idInUse, Market.idInUse, hidx, h.stopIndex_isSome, h.session]

/-- An order that is taken off the book. -/
theorem Represents.remove (h : b.Represents m) {i : OrderId} {p : Ptr} (hp : b.idIndex i = some p) :
    ({ b with toStore := b.removeResting p } : Book).Represents (m.remove (b.node p).order.id) := by
  obtain ⟨L, free, K, h⟩ := h
  obtain ⟨⟨side, hside⟩, -⟩ := (h.queues.shape.index _ p).mp hp
  obtain ⟨L', hq, -, -⟩ := h.queues.remove hside
  exact ⟨L', p :: free, K, h.session, hq, h.lists, h.stops, h.fifo, h.ids⟩

/-- An order that is reduced in its place. -/
theorem Represents.reduce (h : b.Represents m) {id : OrderId} {p : Ptr} (hp : b.idIndex id = some p)
    (by' : ℤ) :
    ({ b with toStore := b.reduceResting p by' } : Book).Represents
      (m.reduce (b.node p).order.id by') := by
  obtain ⟨L, free, K, h⟩ := h
  obtain ⟨⟨side, hside⟩, -⟩ := (h.queues.shape.index _ p).mp hp
  exact ⟨L, free, K, h.session, h.queues.reduce hside by', h.lists, h.stops, h.fifo, h.ids⟩

/-- **Resting.** Both fail, or both put the order at the same place. -/
theorem Represents.rest (h : b.Represents m) (incoming : Order) (now : ℤ)
    (htype : incoming.type = .limit) (hprice : incoming.price.isSome)
    (hid : b.idIndex incoming.id = none) :
    (b.restOrder incoming now = none ∧ m.restOrder incoming now = none) ∨
      ∃ b' m', b.restOrder incoming now = some b' ∧ m.restOrder incoming now = some m' ∧
        b'.Represents m' := by
  obtain ⟨L, free, K, h⟩ := h
  obtain ⟨price, hprice⟩ := Option.isSome_iff_exists.mp hprice
  have hget : incoming.price.getD 0 = price := by rw [hprice]; rfl
  rcases h.queues.rest now htype hprice hid with ⟨h1, h2⟩ | ⟨st', m', L', free', h1, h2, hq, hs, hst, hf⟩
  · exact Or.inl ⟨by rw [Book.restOrder, hget, h1]; rfl, h2⟩
  · refine Or.inr ⟨_, _, by rw [Book.restOrder, hget, h1]; rfl, h2, ?_⟩
    have hrep : ({ b with toStore := st' } : Book).Represents m' :=
      ⟨L', free', K, h.session.trans hs.symm, hq, h.lists, hst.trans h.stops, h.fifo.trans hf.symm,
        by rw [hst, hf]; exact h.ids⟩
    exact hrep.emit _

/-! ## Settling the remainder -/

/-- The end of an order that may not rest is the same on both sides. -/
theorem expire_represents (h : b.Represents m) (trades : List Trade) (why : RejectReason) :
    (b.expire incoming trades why now).1.Represents (m.expire incoming trades why now).1 ∧
      (b.expire incoming trades why now).2 = (m.expire incoming trades why now).2 :=
  ⟨h.emit _, rfl⟩

/-- A limit order with valid fields has a price. -/
theorem validateOrderFields_limit {order : Order} (h : Session.validateOrderFields order = .none)
    (htype : order.type = .limit) : order.price.isSome := by
  cases hprice : order.price with
  | none => simp [Session.validateOrderFields, htype, hprice] at h
  | some price => rfl

/-- A remainder comes to rest at the band edge alike on both sides. -/
theorem restAtBandEdge_represents (h : b.Represents m) (hid : b.idIndex incoming.id = none)
    (trades : List Trade) (why : RejectReason) :
    (b.restAtBandEdge incoming trades why now).1.Represents
        (m.restAtBandEdge incoming trades why now).1 ∧
      (b.restAtBandEdge incoming trades why now).2 = (m.restAtBandEdge incoming trades why now).2 := by
  simp only [restAtBandEdge, Market.restAtBandEdge, h.session]
  set edge := m.atBandEdge incoming with hedge
  by_cases htype : incoming.type = .limit
  · simp only [htype, if_true]
    split_ifs with hvalid
    · have hprice := validateOrderFields_limit hvalid htype
      rcases h.rest edge now htype hprice hid with ⟨h1, h2⟩ | ⟨b', m', h1, h2, hrep⟩
      · rw [h1, h2]
        exact expire_represents h trades why
      · rw [h1, h2]
        exact ⟨hrep, rfl⟩
    · exact expire_represents h trades why
  · simp only [htype, if_false]
    split_ifs
    · exact expire_represents h trades why
    · exact ⟨h, rfl⟩

/-- The remainder is settled alike. -/
theorem settle_represents (now : ℤ) {l : FillLoop} {plan : MatchPlan} {w : Market.Walk}
    {ending : Market.WalkEnd} (h : SameEnd l plan w ending K)
    (hid : l.book.idIndex w.incoming.id = none)
    (hprice : w.incoming.type = .limit → w.incoming.price.isSome) :
    (settle l plan now).1.Represents (Market.settle w ending now).1 ∧
      (settle l plan now).2 = (Market.settle w ending now).2 := by
  obtain ⟨b, incoming, trades, halted, limited, breach⟩ := l
  obtain ⟨m, _, _, breach'⟩ := w
  obtain ⟨⟨L, free, hrep⟩, rfl, rfl, rfl, rfl, hself, hcollar⟩ := h
  simp only at hrep hid hprice hself hcollar
  -- An order that is filled is marked so first, however the walk has ended.
  have hmark : ∃ b', (if incoming.quantity = 0 then
      { b with toSession := b.markFilled incoming.id } else b) = b' ∧
      b'.Represents (m.markIfFilled incoming) ∧ b'.idIndex incoming.id = none := by
    refine ⟨_, rfl, ?_⟩
    rw [Market.markIfFilled]
    split_ifs
    · have := Represents.withSession ⟨L, free, K, hrep⟩ (m.markFilled incoming.id)
      rw [hrep.session]
      exact ⟨this, hid⟩
    · exact ⟨⟨L, free, K, hrep⟩, hid⟩
  obtain ⟨b', hb', hrep', hid'⟩ := hmark
  -- The collar and the end of the queue settle in the same way, except for the reason.
  have hrunOut : ∀ why, plan.haltedBySelfTrade = false →
      (if plan.stoppedByCollar = true ∧ incoming.quantity > 0 then RejectReason.priceCollar else .none) =
        why → ∀ r, settle { book := b, incoming, trades } plan now = r →
      r.1.Represents ((m.markIfFilled incoming).runOut incoming trades why now).1 ∧
        r.2 = ((m.markIfFilled incoming).runOut incoming trades why now).2 := by
    rintro why hs hwhy r rfl
    simp only [settle, hb', hs, Bool.or_self, Bool.false_eq_true, if_false, Market.runOut,
      Bool.and_eq_true, decide_eq_true_eq, hwhy]
    by_cases hlimit : incoming.quantity > 0 ∧ incoming.type = .limit
    · rw [if_pos hlimit, if_pos hlimit]
      -- The rest finds a free node, or the pool is exhausted and it expires.
      rcases hrep'.rest incoming now hlimit.2 (hprice hlimit.2) hid' with
        ⟨h1, h2⟩ | ⟨b', m', h1, h2, hrep⟩
      · rw [h1, h2]
        exact expire_represents hrep' trades _
      · rw [h1, h2]
        exact ⟨hrep, rfl⟩
    · rw [if_neg hlimit, if_neg hlimit]
      split_ifs
      · exact expire_represents hrep' trades why
      · exact ⟨hrep', rfl⟩
  cases ending with
  | halted =>
    simp only [settle, hb', Market.settle]
    exact restAtBandEdge_represents hrep' hid' trades _
  | bandLimited =>
    simp only [settle, hb', Market.settle]
    exact restAtBandEdge_represents hrep' hid' trades _
  | selfTrade =>
    have hs : plan.haltedBySelfTrade = true := hself (by simp) (by simp)
    simp only [settle, hb', Market.settle, hs]
    exact expire_represents hrep' trades _
  | collar =>
    have hs : plan.haltedBySelfTrade = false := hself (by simp) (by simp)
    have hc : plan.stoppedByCollar = true := hcollar (by simp) (by simp)
    exact hrunOut _ hs (by simp [hc]) _ rfl
  | exhausted =>
    have hs : plan.haltedBySelfTrade = false := hself (by simp) (by simp)
    have hc : plan.stoppedByCollar = false := hcollar (by simp) (by simp)
    exact hrunOut _ hs (by simp [hc]) _ rfl

/-! ## Walking -/

/-- Fills only take orders off the index. -/
theorem idIndex_fillLoop (fills : List ProposedFill) {l : FillLoop} {id : OrderId}
    (h : l.book.idIndex id = none) : (fillLoop now fills l).book.idIndex id = none := by
  -- A fill only takes ids out of the index.
  have hstep : ∀ (l : FillLoop) (fill : ProposedFill), l.book.idIndex id = none →
      (fillStep now l fill).book.idIndex id = none := by
    intro l fill h
    have hst : ((l.book.toStore.addFilled fill.passiveNode fill.fillQuantity).reduceResting
        fill.passiveNode fill.fillQuantity).idIndex = l.book.idIndex := by
      rw [Store.reduceResting]
      cases ((l.book.toStore.addFilled fill.passiveNode fill.fillQuantity).node
        fill.passiveNode).level <;> simp [Store.addFilled]
    rw [fillStep]
    cases l.book.bandDecision now l.breachLevel fill.fillPrice with
    | halt => exact h
    | limit => exact h
    | print outside breach =>
      simp only
      split_ifs
      · simp only [Store.removeResting, Store.idIndex_unlink]
        rw [hst, Function.update_apply]
        split_ifs
        · rfl
        · exact h
      · simp only
        rw [hst]
        exact h
  induction fills generalizing l with
  | nil => exact h
  | cons fill fills ih =>
    rw [fillLoop]
    split_ifs
    · exact hstep l fill h
    · exact ih (hstep l fill h)

/-- **Walking.** An order that is not on the book walks alike, and trades at the same moments. -/
theorem walk_represents (now : ℤ) (h : b.Represents m) (hid : b.idIndex incoming.id = none)
    (hvalid : Session.validateOrderFields incoming = .none) :
    (b.walk incoming now).1.Represents (m.walk incoming now).1 ∧
      (b.walk incoming now).2 = (m.walk incoming now).2 ∧
      ∃ K, List.Forall₂ (Moment K)
        (executed now (b.planMatch incoming).fills { book := b, incoming })
        (Market.traded now (m.queue incoming.side.opposite) { market := m, incoming }) := by
  obtain ⟨L, free, K, h⟩ := h
  have hloop : LoopRep { book := b, incoming } { market := m, incoming } L free K :=
    ⟨h, rfl, rfl, rfl, rfl, rfl⟩
  obtain ⟨hend, hmoments⟩ := fillLoop_walk now _ hloop rfl (b.planMatch incoming)
    (planMatch_eq h.queues.shape incoming) _ rfl
  obtain ⟨quantity, filled, hincoming⟩ := Market.walkLoop_incoming now
    (m.queue incoming.side.opposite) { market := m, incoming }
  have hprice : incoming.type = .limit → incoming.price.isSome := validateOrderFields_limit hvalid
  have hsettle := settle_represents now hend
    (by rw [hincoming]; exact idIndex_fillLoop _ hid) (by rw [hincoming]; exact hprice)
  exact ⟨hsettle.1, hsettle.2, K, hmoments⟩

/-! ## Entering -/

/-- Fewer than `2^62` priorities have been handed out in each direction, or priorities are exact. -/
def Fits (b : Book) : Prop :=
  b.cfg.priorities = .exact ∨
    b.nextBackPriority - kPriorityMid < 2 ^ 62 ∧ kPriorityMid - 1 - b.nextFrontPriority < 2 ^ 62

/-- A step that only lets the counters grow started from a book that fits, if it ends in one. -/
theorem Grows.fits {b b' : Book} (h : Grows b b') (hfits : b'.Fits) : b.Fits := by
  rcases hfits with hexact | ⟨hback, hfront⟩
  · exact Or.inl (h.cfg ▸ hexact)
  · have := h.back
    have := h.front
    exact Or.inr ⟨by omega, by omega⟩

/-- An order is admitted alike. -/
theorem admitted_represents (h : b.Represents m) (incoming : Order) (now : ℤ) :
    (b.admitted incoming now = none ∧ m.admitted incoming now = none) ∨
      ∃ b' m', b.admitted incoming now = some b' ∧ m.admitted incoming now = some m' ∧
        b'.Represents m' ∧ b'.idIndex incoming.id = none ∧
        Session.validateOrderFields incoming = .none := by
  have hs := h.withSession (m.validateNewOrder incoming now).1
  have hid := hs.idInUse incoming.id
  rw [admitted, Market.admitted]
  simp only [h.session, hid]
  split_ifs with hok
  · refine Or.inr ⟨_, _, rfl, rfl, hs.emit _, ?_, ?_⟩
    · simp only [Bool.and_eq_true, Bool.not_eq_true', ← hid, idInUse, Bool.or_eq_false_iff] at hok
      show b.idIndex incoming.id = none
      simpa using hok.2.1.1
    · simp only [Bool.and_eq_true, decide_eq_true_eq] at hok
      have := hok.1
      rw [Session.validateNewOrder] at this
      split_ifs at this <;> exact this
  · exact Or.inl ⟨rfl, rfl⟩

/-- **Entering.** An order enters alike over triggers that are alike. -/
theorem addOrderCoreWith_represents {f : ℤ → ℤ → ℤ → Book → Book}
    {g : ℤ → ℤ → ℤ → Market → Market} (h : b.Represents m)
    (hfg : ∀ low high b' m', b'.Represents m' → b'.drainingStops = b.drainingStops →
      (f low high now b').Fits → (f low high now b').Represents (g low high now m'))
    (reportReject : Bool) :
    (b.addOrderCoreWith f incoming now reportReject).2 =
        (m.enterWith g incoming now reportReject).2 ∧
      ((b.addOrderCoreWith f incoming now reportReject).1.Fits →
        (b.addOrderCoreWith f incoming now reportReject).1.Represents
          (m.enterWith g incoming now reportReject).1) := by
  rcases admitted_represents h incoming now with
    ⟨h1, h2⟩ | ⟨b', m', h1, h2, hrep, hid, hvalid⟩
  · -- Refused: the same reason, and the same event if it is to be reported.
    have hs := h.withSession (m.validateNewOrder incoming now).1
    rw [Market.admitted] at h2
    simp only at h2
    split_ifs at h2 with hok
    rw [addOrderCoreWith, Market.enterWith]
    simp only [h.session, hs.idInUse]
    set s := m.validateNewOrder incoming now
    set why := if (decide (s.2 = RejectReason.none) &&
        ({ m with toSession := s.1 } : Market).idInUse incoming.id) = true then
      RejectReason.duplicateOrderId else s.2 with hwhy
    have hne : why ≠ RejectReason.none := by
      rw [hwhy]
      split_ifs with hdup
      · simp
      · intro hnone
        simp [hnone] at hok hdup
        simp [hok] at hdup
    rw [if_pos hne, if_pos hne]
    cases reportReject
    · exact ⟨rfl, fun _ => hs⟩
    · exact ⟨rfl, fun _ => hs.withSession _⟩
  · rw [addOrderCoreWith_of_admitted f h1, Market.enterWith_of_admitted g h2, afterWalk, Market.afterWalk]
    obtain ⟨hwalk, hresult, -⟩ := walk_represents now hrep hid hvalid
    simp only [← hresult]
    -- The stops are looked at only if something has traded.
    cases hlast : (b'.walk incoming now).2.trades.getLast? with
    | none => exact ⟨rfl, fun _ => hwalk⟩
    | some last =>
      refine ⟨rfl, hfg _ _ _ _ ?_ ?_⟩
      · rw [hwalk.session]
        exact hwalk.withSession _
      · exact (sameStops_walk b' incoming now).drainingStops.trans (grows_admitted h1).drainingStops

end Book

end OrderBookEngine
