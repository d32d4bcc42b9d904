import OrderBookEngine.Refine.Replica
import OrderBookEngine.Refine.Run

/-!
# A snapshot and the events behind it

A replica mirrors a market at every stage of a call (`Mirrors`): what it has read tells it the queues, the
stops, the halt and the last trade. Each step appends at most one event, and applying it makes the replica
mirror the next stage (`Step.replays`). So a snapshot and the events behind it rebuild the book.
-/

namespace OrderBookEngine

namespace Market

open BookReplica

/-- The order in flight. -/
def Stage.flying : Stage → Option Order
  | .idle _ | .settled _ _ _ => none
  | .entering _ order => some order
  | .walking w | .stopped w => some w.incoming

/-- The price of the last trade, whether it has moved the reference or not. -/
def Stage.lastPrice (s : Stage) : Option ℤ :=
  match s.trades.getLast? with
  | some trade => some trade.price
  | none => s.market.lastTradePrice

/-- What a replica knows at a stage. -/
structure Mirrors (r : BookReplica) (s : Stage) : Prop where
  /-- It has read up to the last event. -/
  seq : r.lastSeq + 1 = s.market.nextSeq
  /-- It knows the halt. -/
  halted : r.halted = s.market.halted
  /-- It knows the last trade price. -/
  lastTrade : r.lastTrade = s.lastPrice
  /-- It knows the resting orders. -/
  holds : r.Holds s.market.queue
  /-- It knows the stops, woken or dormant. -/
  stops : r.Lists (s.market.fifo ++ s.market.stops)
  /-- It knows what an order in flight has executed. -/
  flying : ∀ order, s.flying = some order → r.filled order.id = order.filled
  /-- It knows nothing of ids that are not in use. -/
  fresh : ∀ id, s.market.ownerOf id = none → r.filled id = 0
  /-- A stop has executed nothing. -/
  dormant : ∀ stop ∈ s.market.fifo ++ s.market.stops, r.filled stop.id = 0

/-- The replica follows a step: it reads the event of the step, if there is one. -/
def Replays (r : BookReplica) (s s' : Stage) : Prop :=
  (s'.market.events = s.market.events ∧ Mirrors r s') ∨
    ∃ e r', s'.market.events = s.market.events ++ [e] ∧ r.apply e = .ok r' ∧ Mirrors r' s'

variable {r : BookReplica} {s s' : Stage} {m : Market} {flying : List OrderId} {now : ℤ} {e : EngineEvent}

/-- Applying an event with the next number. -/
theorem apply_numbered (h : Mirrors r s) : r.apply (e.numbered s.market.nextSeq) =
    { r with lastSeq := s.market.nextSeq }.applyKind e := by
  unfold BookReplica.apply
  exact if_neg (not_not.mpr h.seq.symm)

/-- A replica that applies the next event follows the step. -/
theorem replays_event (e : EngineEvent) (r' : BookReplica) (h : Mirrors r s)
    (hevents : s'.market.events = s.market.events ++ [e.numbered s.market.nextSeq])
    (happly : { r with lastSeq := s.market.nextSeq }.applyKind e = .ok r') (h' : Mirrors r' s') :
    Replays r s s' :=
  Or.inr ⟨_, r', hevents, (apply_numbered h).trans happly, h'⟩

/-- The orders and the stops stay. -/
theorem Mirrors.still (h : Mirrors r s) {seq : ℕ} {halted : Bool} (hseq : seq + 1 = s'.market.nextSeq)
    (hhalted : halted = s'.market.halted) (htrade : s'.lastPrice = s.lastPrice)
    (hqueue : s'.market.queue = s.market.queue)
    (hstops : ∀ stop, stop ∈ s'.market.fifo ++ s'.market.stops ↔ stop ∈ s.market.fifo ++ s.market.stops)
    (hflying : ∀ order, s'.flying = some order → r.filled order.id = order.filled)
    (howner : ∀ id, s'.market.ownerOf id = none → s.market.ownerOf id = none) :
    Mirrors { r with lastSeq := seq, halted } s' where
  seq := hseq
  halted := hhalted
  lastTrade := h.lastTrade.trans htrade.symm
  holds := h.holds.congr (fun side => by cases side <;> rfl) rfl rfl hqueue
  stops := h.stops.congr rfl hstops
  flying := hflying
  fresh := fun id hid => h.fresh id (howner id hid)
  dormant := fun stop hstop => h.dormant stop ((hstops stop).mp hstop)

/-- The orders move, and the stops stay. -/
theorem Mirrors.moved {r' : BookReplica} (h : Mirrors r s)
    (hrest : SameRest { r with lastSeq := s.market.nextSeq } r') (hfilled : r'.filled = r.filled)
    (hholds : r'.Holds s'.market.queue) (hseq : s'.market.nextSeq = s.market.nextSeq + 1)
    (hhalted : s'.market.halted = s.market.halted) (htrade : s'.lastPrice = s.lastPrice)
    (hstops : s'.market.fifo ++ s'.market.stops = s.market.fifo ++ s.market.stops)
    (hflying : ∀ order, s'.flying = some order → r.filled order.id = order.filled)
    (howner : ∀ id, s'.market.ownerOf id = none → s.market.ownerOf id = none) : Mirrors r' s' := by
  constructor
  case seq => rw [hrest.lastSeq, hseq]
  case halted => rw [hrest.halted, hhalted]; exact h.halted
  case lastTrade => rw [hrest.lastTrade, htrade]; exact h.lastTrade
  case holds => exact hholds
  case stops => exact h.stops.congr hrest.stops fun stop => by rw [hstops]
  case flying => rw [hfilled]; exact hflying
  case fresh => rw [hfilled]; exact fun id hid => h.fresh id (howner id hid)
  case dormant => rw [hfilled, hstops]; exact h.dormant

/-- Ids tell the orders of a market apart. -/
theorem Wf.apart (hwf : m.Wf flying) : OrdersApart m.queue := by
  intro side side' x hx y hy hid
  refine ⟨?_, hwf.eq_of_orderId hx hy hid⟩
  by_contra hne
  exact hwf.queue_ne_of_side hx hy hne hid

/-- No id is that of two stops. -/
theorem Wf.nodup_stopIds (hwf : m.Wf flying) : ((m.fifo ++ m.stops).map StopOrder.id).Nodup :=
  (List.nodup_append.mp (List.nodup_append.mp hwf.ids.nodup).2.1).2.1

/-- A queue that is put in replaces the one of its side. -/
theorem queue_setQueue (m : Market) (side : Side) (xs : List RestingOrder) :
    (m.setQueue side xs).queue = Function.update m.queue side xs := by
  funext s
  by_cases hs : s = side
  · subst hs
    rw [queue_setQueue_self, Function.update_self]
  · rw [queue_setQueue_of_ne m xs hs, Function.update_of_ne hs]

/-! ## Orders -/

/-- An order comes to rest, with the fills that the replica has counted. -/
theorem Mirrors.rest {order flew : Order} {m' : Market} {price unaccepted : ℤ} {trades : List Trade}
    (h : Mirrors r s) (hwf : s.market.Wf [order.id]) (hflew : s.flying = some flew)
    (hid : order.id = flew.id) (hfilled : order.filled = flew.filled) (hprice : order.price = some price)
    (htrades : s.trades = trades) (hroom : s.market.restOrder order now = some m') :
    Replays r s (.settled m' trades unaccepted) := by
  obtain ⟨-, rfl⟩ := restOrder_eq_some hroom
  -- The replica has counted what the order traded on its way in.
  have hcount : r.filled order.id = order.filled := by
    rw [hid, hfilled]
    exact h.flying flew hflew
  set r₁ : BookReplica := { r with lastSeq := s.market.nextSeq } with hr₁
  have hholds₁ : r₁.Holds s.market.queue := h.holds.congr (fun side => by cases side <;> rfl) rfl rfl rfl
  obtain ⟨r', hadd, hholds, hrest, hfilled'⟩ := @Holds.add r₁ s.market.queue order.resting hholds₁
    order.side (fun side y hy => hwf.queue_ne List.mem_cons_self hy) fun hzero => hcount.trans hzero
  -- So writing that count again changes nothing.
  have hsame : r'.filled = r.filled := by
    rw [hfilled']
    show Function.update r.filled order.id order.filled = r.filled
    rw [← hcount, Function.update_eq_self]
  refine replays_event (order.event .rested now) r' h rfl ?_ ?_
  · show r₁.applyKind (order.event .rested now) = .ok r'
    have hresting : order.resting.price = price := by simp [Order.resting, hprice]
    have hkind : r₁.applyKind (order.event .rested now) = r₁.addResting order.id order.ownerId order.side
        price order.quantity (r.filled order.id) := by
      unfold BookReplica.applyKind
      simp only [Order.event, hprice, hr₁]
    rw [← hadd, hresting, hkind, hcount]
    rfl
  · refine h.moved hrest hsame ?_ rfl rfl ?_ ?_ (fun _ hnone => by cases hnone)
      fun id hnone => ownerOf_emit_eq_none hnone
    · rw [← queue_setQueue] at hholds
      refine hholds.congr (fun _ => rfl) rfl rfl (funext fun side => ?_)
      show Market.queue (Market.emit _ _) side = _
      rw [queue_emit]
      cases side <;> rfl
    · unfold Stage.lastPrice
      rw [htrades]
      rfl
    · show (s.market.setQueue _ _).fifo ++ (s.market.setQueue _ _).stops = _
      rw [fifo_setQueue, stops_setQueue]

/-- An order leaves the book, under an event that takes it out of the replica. -/
theorem Mirrors.leave {id : OrderId} {order : Order} (h : Mirrors r (.idle m)) (hwf : m.Wf [])
    (hfound : m.restingOrder? id = some order)
    (hkind : e.kind = .cancelled ∨ e.kind = .replaced) (hid : e.orderId = order.id)
    (hquantity : e.quantity = order.quantity) (hs : s'.market = (m.emit e).remove order.id)
    (htrades : s'.trades = [])
    (hflying : ∀ flew, s'.flying = some flew → flew.id = order.id ∧ flew.filled = order.filled) :
    Replays r (.idle m) s' := by
  obtain ⟨side, x, hx, -, rfl⟩ := mem_of_restingOrder? hfound
  set r₁ : BookReplica := { r with lastSeq := m.nextSeq } with hr₁
  have hholds₁ : r₁.Holds m.queue := h.holds.congr (fun side => by cases side <;> rfl) rfl rfl rfl
  obtain ⟨r', hremove, hholds, hrest, hfilled⟩ := hholds₁.remove hwf.apart hx
  have hresting := hholds₁.resting side x hx
  have hid : e.orderId = x.orderId := hid
  have hquantity : e.quantity = x.quantity := hquantity
  refine replays_event e r' h (by rw [hs]; rfl) ?_ ?_
  · show r₁.applyKind e = .ok r'
    unfold BookReplica.applyKind
    rcases hkind with hkind | hkind
    -- `apply` compares the quantity of a cancelled order with its own.
    · rw [hkind]
      simp only [hid, hresting]
      rw [if_neg (not_not.mpr hquantity.symm)]
      exact hremove
    · rw [hkind]
      simp only [hid, hresting]
      exact hremove
  · refine h.moved hrest hfilled ?_ (by rw [hs]; rfl) (by rw [hs]; rfl) ?_ (by rw [hs]; rfl) ?_ ?_
    · refine hholds.congr (fun _ => rfl) rfl rfl (funext fun side => ?_)
      rw [hs, queue_remove, queue_emit]
      rfl
    · unfold Stage.lastPrice
      rw [htrades, hs]
      rfl
    · intro flew hflew
      obtain ⟨hflewId, hflewFilled⟩ := hflying flew hflew
      rw [hflewId, hflewFilled]
      exact h.holds.filled side x hx
    · rw [hs]
      exact fun id hnone => ownerOf_emit_eq_none hnone

/-- A trade. -/
theorem Mirrors.trade {w : Walk} {x : RestingOrder} {xs : List RestingOrder} {outside breach : Option ℤ}
    (h : Mirrors r (.walking w)) (hwf : w.market.Wf [w.incoming.id]) (hmeets : w.Meets x xs) :
    Replays r (.walking w) (.walking (w.trade now x xs outside breach)) := by
  have hx : x ∈ w.market.queue w.incoming.side.opposite := hmeets.queue ▸ List.mem_cons_self
  -- No other order of the queue has the id of the first.
  have hxs : ∀ y ∈ xs, y.orderId ≠ x.orderId := by
    have hnd := (List.nodup_append.mp
      (List.nodup_append.mp (hwf.idsAt w.incoming.side.opposite).nodup).2.1).1
    rw [hmeets.queue, List.map_cons, List.nodup_cons] at hnd
    exact fun y hy heq => hnd.1 (heq ▸ List.mem_map_of_mem hy)
  have hflew : ∀ side, ∀ y ∈ w.market.queue side, y.orderId ≠ w.incoming.id := fun side y hy =>
    hwf.queue_ne List.mem_cons_self hy
  set e := tradeEvent (w.nextTrade now x) with he
  set r₁ : BookReplica := { r with lastSeq := w.market.nextSeq } with hr₁
  have hholds₁ : r₁.Holds w.market.queue := h.holds.congr (fun side => by cases side <;> rfl) rfl rfl rfl
  obtain ⟨r', happly, hholds, hrest, hfilled⟩ := @Holds.fill r₁ _ w.incoming.side.opposite x hholds₁
    hwf.apart xs e hmeets.queue hxs hflew rfl rfl (min_le_right _ _)
  -- A trade counts for both its orders.
  have hcount : ∀ id, r'.filled id = if id = x.orderId then x.filled + e.quantity
      else if id = w.incoming.id then w.incoming.filled + e.quantity else r.filled id := by
    intro id
    have hpassive : e.passiveId = x.orderId := rfl
    have haggressor : e.orderId = w.incoming.id := rfl
    rw [hfilled, filled_addFilled, filled_addFilled, filled_addFilled, hpassive, haggressor,
      if_neg (hflew _ x hx)]
    show (if id = x.orderId then r.filled x.orderId + _ else
      if id = w.incoming.id then r.filled w.incoming.id + _ else r.filled id) = _
    rw [h.holds.filled _ x hx, h.flying w.incoming rfl]
  have hothers : ∀ id, id ≠ x.orderId → id ≠ w.incoming.id → r'.filled id = r.filled id := by
    intro id hne hne'
    rw [hcount, if_neg hne, if_neg hne']
  obtain ⟨hstops, hfifo⟩ := w.stops_trade now x xs outside breach
  refine replays_event e r' h (w.events_trade now x xs outside breach) happly ?_
  constructor
  case seq =>
    rw [hrest.lastSeq]
    show w.market.nextSeq + 1 = (w.trade now x xs outside breach).market.nextSeq
    rw [Walk.toSession_trade]
    simp only
    split_ifs <;> rfl
  case halted =>
    rw [hrest.halted]
    show r.halted = (w.trade now x xs outside breach).market.halted
    rw [Walk.halted_trade]
    exact h.halted
  case lastTrade =>
    rw [hrest.lastTrade]
    show some x.price = match (w.trades ++ [w.nextTrade now x]).getLast? with
      | some trade => some trade.price
      | none => (w.trade now x xs outside breach).market.lastTradePrice
    rw [List.getLast?_concat]
    rfl
  case holds =>
    refine hholds.congr (fun _ => rfl) rfl rfl (funext fun side => ?_)
    show (w.trade now x xs outside breach).market.queue side = _
    -- The other side loses the quantity, the order's own side is as it was.
    obtain rfl | rfl : side = w.incoming.side.opposite ∨ side = w.incoming.side := by
      cases side <;> cases w.incoming.side <;> simp [Side.opposite]
    · rw [Walk.queue_trade_opposite, Function.update_self]
      rfl
    · have hne : w.incoming.side ≠ w.incoming.side.opposite := by
        cases w.incoming.side <;> simp [Side.opposite]
      rw [Walk.queue_trade_side, Function.update_of_ne hne]
  case stops =>
    refine h.stops.congr hrest.stops fun stop => ?_
    show stop ∈ (w.trade now x xs outside breach).market.fifo ++
      (w.trade now x xs outside breach).market.stops ↔ stop ∈ w.market.fifo ++ w.market.stops
    rw [hstops, hfifo]
  case flying =>
    intro order horder
    obtain rfl := Option.some.inj horder
    show r'.filled w.incoming.id = w.incoming.filled + e.quantity
    rw [hcount, if_neg (hflew _ x hx).symm, if_pos rfl]
  case fresh =>
    intro id hid
    have hid : w.market.ownerOf id = none := (Walk.ownerOf_trade w now x xs outside breach).symm ▸ hid
    -- An id without an owner is neither order of the trade.
    have hne : ∀ i ∈ [w.incoming.id] ++ w.market.liveIds, id ≠ i := fun i hi heq =>
      hwf.owned hi (heq ▸ hid)
    rw [hothers id (hne _ (List.mem_append_right _ (mem_liveIds_of_queue hx)))
      (hne _ (List.mem_append_left _ List.mem_cons_self))]
    exact h.fresh id hid
  case dormant =>
    intro stop hstop
    have hstop : stop ∈ w.market.fifo ++ w.market.stops := by
      rw [← hstops, ← hfifo]
      exact hstop
    rw [hothers stop.id (hwf.stop_ne_of_mem hx hstop) (hwf.stop_ne List.mem_cons_self hstop)]
    exact h.dormant stop hstop

/-- An order is reduced in its place. -/
theorem Mirrors.reduce {id : OrderId} {order : Order} {quantity : ℤ} (h : Mirrors r (.idle m))
    (hwf : m.Wf []) (hfound : m.restingOrder? id = some order) :
    Replays r (.idle m) (.idle ((m.reduce order.id (order.quantity - quantity)).emit
      ({ order with quantity }.event .modified now))) := by
  obtain ⟨side, x, hx, -, rfl⟩ := mem_of_restingOrder? hfound
  set e := { x.toOrder side with quantity }.event .modified now with he
  set r₁ : BookReplica := { r with lastSeq := m.nextSeq } with hr₁
  set r' : BookReplica := { r₁ with
    resting := Function.update r.resting x.orderId
      (some { owner := x.ownerId, side, price := x.price, quantity }) } with hr'
  have hholds₁ : r₁.Holds m.queue := h.holds.congr (fun side => by cases side <;> rfl) rfl rfl rfl
  have hchanged : r'.Holds fun s => (m.queue s).map fun y =>
      if y.orderId = x.orderId then { y with quantity, filled := x.filled } else y :=
    @Holds.change r₁ r' _ side x hholds₁ hwf.apart hx quantity x.filled (fun s => by cases s <;> rfl) rfl
      (h.holds.filled side x hx) fun _ _ _ _ => rfl
  refine replays_event e r' h rfl ?_ ?_
  · show r₁.applyKind e = .ok r'
    have hresting : r₁.resting e.orderId = some _ := hholds₁.resting side x hx
    -- `apply` compares the price, which a reduction keeps.
    have hkind : e.kind = .modified := rfl
    have hprice : e.price = some x.price := rfl
    unfold BookReplica.applyKind
    simp only [hkind, hresting]
    rw [hprice, if_neg (not_not.mpr rfl)]
    rfl
  · refine h.moved ⟨rfl, rfl, rfl, rfl⟩ rfl ?_ rfl rfl rfl rfl (fun _ hnone => by cases hnone)
      fun id hnone => ownerOf_emit_eq_none hnone
    refine hchanged.congr (fun _ => rfl) rfl rfl (funext fun s => ?_)
    show Market.queue (Market.emit _ _) s = _
    have hmap : (m.reduce x.orderId (x.quantity - quantity)).queue s = (m.queue s).map fun y =>
        if y.orderId = x.orderId then { y with quantity := y.quantity - (x.quantity - quantity) } else y := by
      cases s <;> rfl
    rw [queue_emit]
    refine hmap.trans (List.map_congr_left fun y hy => ?_)
    split_ifs with heq
    · rw [hwf.eq_of_orderId hx hy heq, sub_sub_cancel]
    · rfl

/-! ## Stops -/

/-- A stop is put in. -/
theorem Mirrors.put (h : Mirrors r (.idle m)) (stop : StopOrder)
    (hkind : e.kind = .stopAccepted ∨ e.kind = .stopModified) (he : e = stop.event e.kind now)
    (hzero : r.filled stop.id = 0) (hqueue : s'.market.queue = m.queue)
    (hevents : s'.market.events = m.events ++ [e.numbered m.nextSeq])
    (hnext : s'.market.nextSeq = m.nextSeq + 1) (hhalted : s'.market.halted = m.halted)
    (htrade : s'.lastPrice = m.lastTradePrice)
    (hstops : ∀ s, s ∈ s'.market.fifo ++ s'.market.stops ↔
      s = stop ∨ s ∈ m.fifo ++ m.stops ∧ s.id ≠ stop.id)
    (hflying : s'.flying = none) (howner : ∀ id, s'.market.ownerOf id = none → m.ownerOf id = none) :
    Replays r (.idle m) s' := by
  refine replays_event e { r with
    lastSeq := m.nextSeq
    stops := r.stops.insertOrAssign stop.id stop.listed } h hevents ?_ ?_
  · rw [he]
    rcases hkind with hkind | hkind <;> rw [hkind] <;> rfl
  · constructor
    case seq => exact hnext.symm
    case halted => exact h.halted.trans hhalted.symm
    case lastTrade => exact h.lastTrade.trans htrade.symm
    case holds => exact h.holds.congr (fun side => by cases side <;> rfl) rfl rfl hqueue
    case stops => exact h.stops.assign rfl hstops
    case flying => exact fun order horder => by rw [hflying] at horder; cases horder
    case fresh => exact fun id hid => h.fresh id (howner id hid)
    case dormant =>
      intro s hs
      rcases (hstops s).mp hs with rfl | ⟨hold, -⟩
      · exact hzero
      · exact h.dormant s hold

/-- A stop is taken out. -/
theorem Mirrors.takeOut (h : Mirrors r (.idle m)) {stop : StopOrder} (hstop : stop ∈ m.fifo ++ m.stops)
    (hkind : e.kind = .stopCancelled ∨ e.kind = .stopTriggered) (hid : e.orderId = stop.id)
    (hqueue : s'.market.queue = m.queue)
    (hevents : s'.market.events = m.events ++ [e.numbered m.nextSeq])
    (hnext : s'.market.nextSeq = m.nextSeq + 1) (hhalted : s'.market.halted = m.halted)
    (htrade : s'.lastPrice = m.lastTradePrice)
    (hstops : ∀ s, s ∈ s'.market.fifo ++ s'.market.stops ↔ s ∈ m.fifo ++ m.stops ∧ s.id ≠ stop.id)
    (hflying : ∀ order, s'.flying = some order → order.id = stop.id ∧ order.filled = 0)
    (howner : ∀ id, s'.market.ownerOf id = none → m.ownerOf id = none) : Replays r (.idle m) s' := by
  refine replays_event e { r with
    lastSeq := m.nextSeq
    stops := r.stops.erase stop.id } h hevents ?_ ?_
  · unfold BookReplica.applyKind
    -- The replica has the stop, so `apply` does not fail.
    have hknown : ¬ (r.stops.find? stop.id).isNone = true := by
      rw [h.stops.known hstop]
      exact Bool.false_ne_true
    rcases hkind with hkind | hkind
    · rw [hkind]
      simp only [hid]
      exact if_neg hknown
    · rw [hkind]
      simp only [hid]
      exact if_neg hknown
  · constructor
    case seq => exact hnext.symm
    case halted => exact h.halted.trans hhalted.symm
    case lastTrade => exact h.lastTrade.trans htrade.symm
    case holds => exact h.holds.congr (fun side => by cases side <;> rfl) rfl rfl hqueue
    case stops => exact h.stops.erase rfl hstops
    case flying =>
      intro order horder
      obtain ⟨hid, hfilled⟩ := hflying order horder
      rw [hid, hfilled]
      exact h.dormant stop hstop
    case fresh => exact fun id hid => h.fresh id (howner id hid)
    case dormant => exact fun s hs => h.dormant s ((hstops s).mp hs).1

/-! ## Steps -/

/-- An event that leaves the orders and the stops alone. -/
theorem Mirrors.read {halted : Bool} (h : Mirrors r s)
    (happly : { r with lastSeq := s.market.nextSeq }.applyKind e =
      .ok { r with lastSeq := s.market.nextSeq, halted })
    (hevents : s'.market.events = s.market.events ++ [e.numbered s.market.nextSeq])
    (hnext : s'.market.nextSeq = s.market.nextSeq + 1) (hhalted : s'.market.halted = halted)
    (htrade : s'.lastPrice = s.lastPrice) (hqueue : s'.market.queue = s.market.queue)
    (hstops : s'.market.fifo ++ s'.market.stops = s.market.fifo ++ s.market.stops)
    (hflying : ∀ order, s'.flying = some order → r.filled order.id = order.filled)
    (howner : ∀ id, s'.market.ownerOf id = none → s.market.ownerOf id = none) : Replays r s s' :=
  replays_event e _ h hevents happly
    (h.still hnext.symm hhalted.symm htrade hqueue (fun stop => by rw [hstops]) hflying howner)

/-- No event. -/
theorem Mirrors.silent (h : Mirrors r s) (hevents : s'.market.events = s.market.events)
    (hnext : s'.market.nextSeq = s.market.nextSeq) (hhalted : s'.market.halted = s.market.halted)
    (htrade : s'.lastPrice = s.lastPrice) (hqueue : s'.market.queue = s.market.queue)
    (hstops : ∀ stop, stop ∈ s'.market.fifo ++ s'.market.stops ↔ stop ∈ s.market.fifo ++ s.market.stops)
    (hflying : ∀ order, s'.flying = some order → r.filled order.id = order.filled)
    (howner : ∀ id, s'.market.ownerOf id = none → s.market.ownerOf id = none) : Replays r s s' :=
  Or.inl ⟨hevents, h.still (h.seq.trans hnext.symm) (h.halted.trans hhalted.symm) htrade hqueue hstops
    hflying howner⟩

/-- A replica follows every step of the engine. -/
theorem Step.replays (hstep : Step now s s') (hwf : s.Wf) (h : Mirrors r s) : Replays r s s' := by
  cases hstep with
  | @reenter m order =>
    exact h.read (e := order.event .accepted now) rfl rfl rfl h.halted.symm rfl
      (funext fun side => queue_emit _ _) rfl (fun flew hflew => h.flying flew hflew)
      fun id hnone => ownerOf_emit_eq_none hnone
  | trade meets band => exact h.trade hwf.1 meets
  | @halt w x xs meets band =>
    exact h.read (e := { w.incoming.event .halted now with price := some x.price }) rfl rfl rfl rfl rfl
      (funext fun side => by cases side <;> rfl) rfl (fun flew hflew => h.flying flew hflew)
      fun id hnone => ownerOf_emit_eq_none hnone
  | limit meets band =>
    exact h.silent rfl rfl rfl rfl rfl (fun _ => Iff.rfl) (fun flew hflew => h.flying flew hflew)
      fun _ hnone => hnone
  | filled quantity =>
    exact h.silent rfl rfl rfl rfl (funext fun side => by cases side <;> rfl) (fun _ => Iff.rfl)
      (fun flew hflew => by cases hflew) fun _ hnone => hnone
  | @rest w m quantity type runOut room =>
    obtain ⟨price, hprice, -⟩ : ∃ p, w.incoming.price = some p ∧ 0 < p := by
      have hpriced := hwf.2.2.1
      rw [Priced, type] at hpriced
      exact hpriced
    exact h.rest hwf.1 rfl rfl rfl hprice rfl room
  | @expire w quantity =>
    exact h.read (e := w.incoming.event .expired now) rfl rfl rfl h.halted.symm rfl
      (funext fun side => queue_emit _ _) rfl (fun flew hflew => by cases hflew)
      fun id hnone => ownerOf_emit_eq_none hnone
  | @restAtBandEdge w m type valid room =>
    obtain ⟨price, hprice, -⟩ : ∃ p, w.incoming.price = some p ∧ 0 < p := by
      have hpriced := hwf.2.1
      rw [Priced, type] at hpriced
      exact hpriced
    -- An order stopped at the edge of the band rests at a price of its own.
    have hedge : ∃ p, (w.market.atBandEdge w.incoming).price = some p := by
      unfold Session.atBandEdge
      rw [hprice]
      exact ⟨_, rfl⟩
    obtain ⟨edge, hedge⟩ := hedge
    exact @Mirrors.rest r (.stopped w) now (w.market.atBandEdge w.incoming) w.incoming m edge 0 w.trades h
      hwf.1 rfl rfl rfl hedge rfl room
  | @expireStopped w price =>
    exact h.read (e := { w.incoming with price }.event .expired now) rfl rfl rfl h.halted.symm rfl
      (funext fun side => queue_emit _ _) rfl (fun flew hflew => by cases hflew)
      fun id hnone => ownerOf_emit_eq_none hnone
  | finish =>
    exact h.silent rfl rfl rfl rfl rfl (fun _ => Iff.rfl) (fun flew hflew => by cases hflew)
      fun _ hnone => hnone
  | @absorb m trades unaccepted last last_eq =>
    have hsession := toSession_absorb m trades last
    -- Absorbing the trades emits nothing: the replica has read them already.
    refine h.silent (events_absorb m trades last) ?_ ?_ ?_
      (funext fun side => queue_absorb m trades last side) (fun _ => mem_stops_absorb) (fun flew hflew => by cases hflew) ?_
    · show (m.absorb trades last).nextSeq = m.nextSeq
      rw [hsession]
      rfl
    · show (m.absorb trades last).halted = m.halted
      rw [hsession]
      rfl
    · show (m.absorb trades last).lastTradePrice = match trades.getLast? with
        | some last => some last.price
        | none => m.lastTradePrice
      rw [hsession, last_eq]
      rfl
    · show ∀ id, (m.absorb trades last).ownerOf id = none → m.ownerOf id = none
      rw [hsession]
      exact fun _ hnone => hnone
  | @fire m stop rest fifo halted =>
    have hwf : m.Wf [] := hwf
    -- The fired stop is the first of those woken, and no other has its id.
    have hlist : m.fifo ++ m.stops = stop :: (rest ++ m.stops) := by rw [fifo, List.cons_append]
    have hids := hwf.nodup_stopIds
    rw [hlist, List.map_cons, List.nodup_cons] at hids
    have hstop : stop ∈ m.fifo ++ m.stops := hlist ▸ List.mem_cons_self
    refine h.takeOut (e := stop.event .stopTriggered now) hstop (Or.inr rfl) rfl
      (funext fun side => queue_emit _ _) rfl rfl rfl rfl (fun s => ?_) ?_
      fun id hnone => ownerOf_emit_eq_none hnone
    · show s ∈ rest ++ m.stops ↔ _
      rw [hlist, List.mem_cons]
      refine ⟨fun hs => ⟨Or.inr hs, fun heq => hids.1 (heq ▸ List.mem_map_of_mem hs)⟩, ?_⟩
      rintro ⟨rfl | hs, hne⟩
      · exact absurd rfl hne
      · exact hs
    · intro order horder
      obtain rfl := Option.some.inj horder
      unfold StopOrder.firedOrder
      cases stop.limitPrice <;> exact ⟨rfl, rfl⟩
  | @sendBack m halted =>
    refine h.silent rfl rfl rfl rfl (funext fun side => by cases side <;> rfl) (fun stop => ?_)
      (fun flew hflew => by cases hflew) fun _ hnone => hnone
    exact Iff.rfl

/-- A call submits nothing that has been filled before. -/
def Unfilled (c : Call) : Prop := ∀ order now, c = .addOrder order now → order.filled = 0

/-- A replica follows the begin of a call. -/
theorem Acts.replays {c : Call} (hact : Acts m c s) (hc : Unfilled c) (hwf : m.Wf []) (hfifo : m.fifo = [])
    (h : Mirrors r (.idle m)) : Replays r (.idle m) s := by
  -- A fresh id has no owner, so nothing has been filled for it.
  have hfresh : ∀ id, m.idInUse id = false → r.filled id = 0 := by
    intro id huse
    obtain ⟨hlive, hfinished⟩ := notMem_of_idInUse hfifo huse
    exact h.fresh id (hwf.ids.owner_eq_none hlive hfinished)
  have hnone : ∀ flew, (none : Option Order) = some flew → r.filled flew.id = flew.filled :=
    fun flew hflew => by cases hflew
  cases hact with
  | refuse kind =>
    exact h.silent rfl rfl rfl rfl rfl (fun _ => Iff.rfl) hnone fun _ hnone => hnone
  | @reject order why now =>
    refine h.read (e := {
        kind := .rejected, ts := now, orderId := order.id, ownerId := order.ownerId, side := order.side
        price := order.price, quantity := order.quantity, limitPrice := none, rejectReason := why })
      rfl rfl rfl h.halted.symm rfl (funext fun side => queue_withSession ..) rfl hnone
      fun id hnone => ownerOf_emit_eq_none hnone
  | @submit order now fresh halted valid =>
    refine h.read (e := order.event .accepted now) rfl rfl rfl h.halted.symm rfl
      (funext fun side => queue_emit _ _) rfl (fun flew hflew => ?_)
      fun id hnone => ownerOf_emit_eq_none hnone
    obtain rfl := Option.some.inj hflew
    exact (hfresh _ fresh).trans (hc _ _ rfl).symm
  | cancel found =>
    exact h.leave hwf found (Or.inl rfl) rfl rfl rfl rfl fun flew hflew => by cases hflew
  | withdraw found =>
    exact h.leave hwf found (Or.inl rfl) rfl rfl rfl rfl fun flew hflew => by cases hflew
  | reduce found pos le => exact h.reduce hwf found
  | replace halted found change valid =>
    refine h.leave hwf found (Or.inr rfl) rfl rfl rfl rfl fun flew hflew => ?_
    obtain rfl := Option.some.inj hflew
    exact ⟨rfl, rfl⟩
  | @rejectStop stop why now =>
    refine h.read (e := {
        kind := .rejected, ts := now, orderId := stop.id, ownerId := stop.ownerId, side := stop.side
        price := some stop.stopPrice, quantity := stop.quantity, limitPrice := stop.limitPrice
        rejectReason := why })
      rfl rfl rfl h.halted.symm rfl (funext fun side => queue_withSession ..) rfl hnone
      fun id hnone => ownerOf_emit_eq_none hnone
  | @placeStop stop now fresh valid ahead =>
    refine h.put stop (e := stop.event .stopAccepted now) (Or.inl rfl) rfl (hfresh _ fresh)
      (funext fun side => queue_emit _ _) rfl rfl rfl rfl (fun s => ?_) rfl
      fun id hnone => ownerOf_emit_eq_none hnone
    have hnew : ∀ s ∈ m.fifo ++ m.stops, s.id ≠ stop.id := fun s hs heq =>
      (notMem_of_idInUse hfifo fresh).1 (List.mem_append_right _ (heq ▸ List.mem_map_of_mem hs))
    show s ∈ m.fifo ++ (m.stops ++ [stop]) ↔ _
    rw [← List.append_assoc, List.mem_append, List.mem_singleton, or_comm]
    exact or_congr_right ⟨fun hs => ⟨hs, hnew s hs⟩, fun hs => hs.1⟩
  | @cancelStop id requester stop now found =>
    obtain ⟨hstop, -⟩ := stop?_spec found
    refine h.takeOut (e := stop.event .stopCancelled now) (List.mem_append_right _ hstop) (Or.inl rfl) rfl
      (funext fun side => queue_emit _ _) rfl rfl rfl rfl (fun s => ?_) (fun flew hflew => by cases hflew)
      fun id hnone => ownerOf_emit_eq_none hnone
    show s ∈ m.fifo ++ m.stops.filter _ ↔ _
    rw [hfifo, List.nil_append, List.nil_append, List.mem_filter, decide_eq_true_iff]
  | @modifyStop id requester old stopPrice limitPrice quantity now found valid ahead =>
    obtain ⟨hstop, -⟩ := stop?_spec found
    set stop : StopOrder := { old with stopPrice, limitPrice, quantity } with hnew
    refine h.put stop (e := stop.event .stopModified now) (Or.inr rfl) rfl
      (h.dormant old (List.mem_append_right _ hstop))
      (funext fun side => queue_emit _ _) rfl rfl rfl rfl (fun s => ?_) rfl
      fun id hnone => ownerOf_emit_eq_none hnone
    show s ∈ m.fifo ++ replaceStop m.stops old stop ↔ _
    rw [hfifo, List.nil_append, List.nil_append, (Wf.replaceStop_perm hwf.nodup_stops hstop).mem_iff,
      List.mem_cons, List.mem_filter, decide_eq_true_iff]

/-! ## Runs -/

/-- One more event is applied behind the others. -/
theorem applyAll_concat {r₀ r' : BookReplica} {es : List EngineEvent} (hes : r₀.applyAll es = .ok r)
    (he : r.apply e = .ok r') : r₀.applyAll (es ++ [e]) = .ok r' := by
  induction es generalizing r₀ with
  | nil =>
    obtain rfl := Except.ok.inj hes
    rw [List.nil_append]
    unfold applyAll
    rw [he]
    rfl
  | cons first es ih =>
    rw [List.cons_append]
    unfold applyAll at hes ⊢
    cases hfirst : r₀.apply first with
    | error error =>
      rw [hfirst] at hes
      cases hes
    | ok r₁ =>
      rw [hfirst] at hes
      exact ih hes

/-- A replica has read the events behind some others, and mirrors the stage that they lead to. -/
def Rebuilt (events : List EngineEvent) (r₀ : BookReplica) (s : Stage) : Prop :=
  ∃ es r, s.market.events = events ++ es ∧ r₀.applyAll es = .ok r ∧ Mirrors r s

/-- A replica that follows the next step has read its event as well. -/
theorem Rebuilt.next {events : List EngineEvent} {r₀ : BookReplica} (h : Rebuilt events r₀ s)
    (hnext : ∀ r, Mirrors r s → Replays r s s') : Rebuilt events r₀ s' := by
  obtain ⟨es, r, hevents, happly, hmirrors⟩ := h
  rcases hnext r hmirrors with ⟨hsame, hmirrors'⟩ | ⟨e, r', hone, he, hmirrors'⟩
  · exact ⟨es, r, hsame.trans hevents, happly, hmirrors'⟩
  · refine ⟨es ++ [e], r', ?_, applyAll_concat happly he, hmirrors'⟩
    rw [hone, hevents, List.append_assoc]

/-- A replica follows the end of a halt. -/
theorem Mirrors.resume (h : Mirrors r (.idle m)) : Replays r (.idle m) (.idle (m.resume now)) :=
  h.read (e := { kind := .resumed, ts := now, orderId := 0, ownerId := 0, side := .buy, price := none
                 quantity := 0 })
    rfl rfl rfl rfl rfl (funext fun _ => rfl) rfl (fun flew hflew => by cases hflew)
    fun id hnone => ownerOf_emit_eq_none hnone

/-- In every stage of a run the replica has been rebuilt. -/
theorem rebuilt_invariant (events : List EngineEvent) (r₀ : BookReplica) :
    CallInvariant Unfilled (Rebuilt events r₀) where
  resume _ _ _ h := h.next fun _ hmirrors => hmirrors.resume
  act hc hwf hfifo hact h := h.next fun _ hmirrors => hact.replays hc hwf hfifo hmirrors
  step hwf hstep h := h.next fun _ hmirrors => hstep.replays hwf hmirrors

end Market

/-! ## Snapshots -/

/-- Two snapshots show the same book. The stops may be listed in another order. -/
structure BookSnapshot.Same (a b : BookSnapshot) : Prop where
  /-- They are as of the same event. -/
  asOfSequence : a.asOfSequence = b.asOfSequence
  /-- They have the same bids. -/
  bids : a.bids = b.bids
  /-- They have the same asks. -/
  asks : a.asks = b.asks
  /-- They have the same stops, in some order. -/
  stops : a.stops.Perm b.stops
  /-- They have the same last trade price. -/
  lastTradePrice : a.lastTradePrice = b.lastTradePrice
  /-- They are both halted, or neither. -/
  halted : a.halted = b.halted

namespace Book

open BookReplica Market

variable {b : Book} {m : Market} {r : BookReplica}

/-- A loaded snapshot mirrors the book. -/
theorem load_mirrors (h : b.Refines m) (hwf : m.Wf []) (hpos : 0 < m.nextSeq) :
    ∃ r, BookReplica.load b.snapshot = .ok r ∧ Mirrors r (.idle m) := by
  have hids : (m.bids.map RestingOrder.orderId ++ m.asks.map RestingOrder.orderId).Nodup :=
    (List.nodup_append.mp (List.nodup_append.mp hwf.ids.nodup).2.1).1
  obtain ⟨hbids, hasks, hapart⟩ := List.nodup_append.mp hids
  -- The bids are loaded into an empty replica, and the asks behind them.
  have hempty : ({ lastSeq := b.snapshot.asOfSequence } : BookReplica).Holds fun _ => [] := by
    constructor
    case flat => exact fun side => by cases side <;> rfl
    case resting => exact fun _ x hx => by cases hx
    case absent => exact fun _ _ => rfl
    case filled => exact fun _ x hx => by cases hx
  obtain ⟨r₁, hload₁, hholds₁, hrest₁, hfilled₁⟩ := @Holds.addSide _ _ .buy m.bids hempty
    (hwf.side .buy) hbids (fun _ _ _ y hy => by cases hy) fun _ _ => rfl
  have hnew : ∀ x ∈ m.asks, ∀ y ∈ m.bids, y.orderId ≠ x.orderId := fun x hx y hy =>
    hapart _ (List.mem_map_of_mem hy) _ (List.mem_map_of_mem hx)
  obtain ⟨r₂, hload₂, hholds₂, hrest₂, hfilled₂⟩ := @Holds.addSide _ _ .sell m.asks hholds₁
    (hwf.side .sell) hasks
    (fun x hx s y hy => by
      cases s with
      | buy => exact hnew x hx y hy
      | sell => cases hy)
    fun x hx => hfilled₁ _ (hnew x hx)
  have hqueue : m.queue = Function.update (Function.update (fun _ => []) Side.buy ([] ++ m.bids)) Side.sell
      (Function.update (fun _ => []) Side.buy ([] ++ m.bids) Side.sell ++ m.asks) := by
    funext side
    cases side <;> rfl
  have hzero : ∀ id, (∀ side, ∀ x ∈ m.queue side, x.orderId ≠ id) → r₂.filled id = 0 := by
    intro id hid
    rw [hfilled₂ id (hid .sell), hfilled₁ id (hid .buy)]
  set r : BookReplica := { r₂ with
    stops := b.snapshot.stops.foldl (fun stops s => stops.insertOrAssign s.orderId s) r₂.stops
    lastTrade := b.snapshot.lastTradePrice
    halted := b.snapshot.halted } with hr
  refine ⟨r, ?_, ?_⟩
  · have hbuy : b.snapshot.bids = m.bids := h.represents.collect_eq .buy
    have hsell : b.snapshot.asks = m.asks := h.represents.collect_eq .sell
    unfold BookReplica.load
    rw [hbuy, hsell, hload₁]
    simp only
    rw [hload₂]
  · have hsession := h.represents.session
    constructor
    case seq =>
      show r₂.lastSeq + 1 = m.nextSeq
      rw [hrest₂.lastSeq, hrest₁.lastSeq]
      show b.nextSeq - 1 + 1 = m.nextSeq
      rw [hsession]
      omega
    case halted =>
      show b.halted = m.halted
      rw [hsession]
    case lastTrade =>
      show b.lastTradePrice = m.lastTradePrice
      rw [hsession]
    case holds => exact hholds₂.congr (fun side => by cases side <;> rfl) rfl rfl hqueue
    case stops =>
      have hperm := h.represents.dormant_perm
      have hnone : r₂.Lists [] := by
        intro id s
        rw [hrest₂.stops, hrest₁.stops]
        exact iff_of_false (fun he => by cases he) fun ⟨_, hs, _⟩ => by cases hs
      have hnodup : (([] ++ b.dormant).map StopOrder.id).Nodup :=
        (hperm.map _).nodup_iff.mpr hwf.nodup_stops
      refine (@Lists.load r₂ r b.dormant [] hnone hnodup rfl).congr rfl fun s => ?_
      show s ∈ m.fifo ++ m.stops ↔ s ∈ [] ++ b.dormant
      rw [h.fifo, List.nil_append, List.nil_append, hperm.mem_iff]
    case flying => exact fun _ hnone => by cases hnone
    case fresh =>
      exact fun id hid => hzero id fun side x hx heq =>
        hwf.owned (List.mem_append_right _ (mem_liveIds_of_queue hx)) (heq ▸ hid)
    case dormant =>
      exact fun stop hstop => hzero stop.id fun side x hx heq => hwf.stop_ne_of_mem hx hstop heq.symm

/-- A replica that mirrors the market of a book shows the book. -/
theorem shows_mirrored (h : b.Refines m) (hwf : m.Wf []) (hr : Mirrors r (.idle m)) :
    ∃ snap, r.toSnapshot = .ok snap ∧ snap.Same b.snapshot := by
  have hsession := h.represents.session
  have hstops := hr.stops
  refine ⟨{
    asOfSequence := r.lastSeq, bids := m.bids, asks := m.asks
    stops := sortStops (r.stops.entries.map Prod.snd)
    lastTradePrice := r.lastTrade, halted := r.halted }, ?_, ?_⟩
  · -- Both sides collect, as every id of a level is that of a resting order.
    have hbuy : r.collect (r.sideMap .buy).flat = .ok m.bids := hr.holds.collect_eq .buy
    have hsell : r.collect (r.sideMap .sell).flat = .ok m.asks := hr.holds.collect_eq .sell
    unfold BookReplica.toSnapshot
    rw [hbuy, hsell]
  · constructor
    case asOfSequence =>
      show r.lastSeq = b.nextSeq - 1
      have hseq : r.lastSeq + 1 = m.nextSeq := hr.seq
      rw [hsession]
      omega
    case bids => exact (h.represents.collect_eq .buy).symm
    case asks => exact (h.represents.collect_eq .sell).symm
    case stops =>
      have hlisted := hstops.sorted_perm hwf.nodup_stopIds
      rw [show (Stage.idle m).market.fifo = [] from h.fifo, List.nil_append] at hlisted
      exact hlisted.trans (h.represents.dormant_perm.symm.map _)
    case lastTradePrice =>
      show r.lastTrade = b.lastTradePrice
      rw [hsession]
      exact hr.lastTrade
    case halted =>
      show r.halted = b.halted
      rw [hsession]
      exact hr.halted

/-- **A snapshot and the events behind it rebuild the book.** In every run, and from every cut between two
of its calls: the snapshot at the cut loads, the events emitted behind it apply without a failure, and the
replica shows what the book's own snapshot shows. From the first cut on nothing is loaded, so the events
alone determine the book. -/
theorem replica_rebuilds (cfg : Config) (before after : List Call)
    (hfits : ((Book.make cfg).run (before ++ after)).Fits)
    (hunfilled : ∀ c ∈ before ++ after, Unfilled c) :
    let cut := (Book.make cfg).run before
    let book := cut.run after
    (∃ r₀ es r snap, BookReplica.load cut.snapshot = .ok r₀ ∧ book.events = cut.events ++ es ∧
      r₀.applyAll es = .ok r ∧ r.toSnapshot = .ok snap ∧ snap.Same book.snapshot) ∧
    BookReplica.load (Book.make cfg).snapshot = .ok {} := by
  intro cut book
  refine ⟨?_, rfl⟩
  rw [run_append] at hfits
  have hcut := run_refines cfg before ((grows_run _ after).fits hfits)
  have hbook : book.Refines (((Market.make cfg).run before).run after) := hcut.run after hfits
  have hreach := reachable_run cfg before
  have hwf : ((Market.make cfg).run before).Wf [] := hreach.wf
  have hnext : ((Market.make cfg).run before).nextSeq = ((Market.make cfg).run before).events.length + 1 :=
    hreach.numbered.2
  -- The replica starts as a mirror of the cut, and each event that it reads keeps it one.
  obtain ⟨r₀, hload, hmirrors⟩ := load_mirrors hcut hwf (hnext ▸ Nat.succ_pos _)
  have hstart : Rebuilt ((Market.make cfg).run before).events r₀ (.idle ((Market.make cfg).run before)) :=
    ⟨[], r₀, (List.append_nil _).symm, rfl, hmirrors⟩
  obtain ⟨es, r, hevents, happly, hr⟩ := ((rebuilt_invariant _ r₀).run after
    (fun c hc => hunfilled c (List.mem_append_right _ hc)) hwf hcut.fifo hstart).1
  have hwf' : (((Market.make cfg).run before).run after).Wf [] :=
    (wf_run after hwf hcut.fifo).1
  obtain ⟨snap, hsnap, hsame⟩ := shows_mirrored hbook hwf' hr
  refine ⟨r₀, es, r, snap, hload, ?_, happly, hsnap, hsame⟩
  rw [hbook.represents.session, hcut.represents.session]
  exact hevents

/-- A bid, and an ask that trades with it. -/
def meeting (side : Side) : Order :=
  { id := if side = .buy then 1 else 2, ownerId := if side = .buy then 1 else 2, side, type := .limit
    price := some 100, quantity := if side = .buy then 5 else 3 }

/-- An order rests before the cut, and trades behind it. -/
theorem replica_rebuilds_after_rest :
    let cut := (Book.make { poolCapacity := 4 }).run [.addOrder (meeting .buy) 0]
    let book := cut.run [.addOrder (meeting .sell) 1]
    ∃ r₀ es r snap, BookReplica.load cut.snapshot = .ok r₀ ∧ book.events = cut.events ++ es ∧
      r₀.applyAll es = .ok r ∧ r.toSnapshot = .ok snap ∧ snap.Same book.snapshot := by
  have hunfilled : ∀ c ∈ [Call.addOrder (meeting .buy) 0] ++ [Call.addOrder (meeting .sell) 1],
      Unfilled c := by
    intro c hc order now horder
    rcases List.mem_cons.mp hc with rfl | hc
    · obtain ⟨rfl, -⟩ := Call.addOrder.inj horder
      rfl
    · rw [List.mem_singleton.mp hc] at horder
      obtain ⟨rfl, -⟩ := Call.addOrder.inj horder
      rfl
  exact (replica_rebuilds { poolCapacity := 4 } _ _ (fits_run rfl _) hunfilled).1

end Book

end OrderBookEngine
