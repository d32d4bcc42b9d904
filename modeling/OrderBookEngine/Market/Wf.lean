import OrderBookEngine.Lib.Keyed
import OrderBookEngine.Market.Step

/-!
# Well-formed markets

`Market.Wf m flying` is the invariant of the market between two steps, with the ids of the orders in
flight: the queues are in priority order and hold positive quantities at positive prices, the stops
are valid, every accepted id is in exactly one place, and the room on the book is accounted for.
`Stage.Wf` says what else holds at each stage, and `Stage.Wf.step` is the step lemma.
-/

namespace OrderBookEngine

/-- A queue in priority order. -/
structure SideWf (side : Side) (xs : List RestingOrder) : Prop where
  /-- Best price first. -/
  sorted : xs.Pairwise fun x y => ¬ side.Better y.price x.price
  /-- Every order has a quantity and a price. -/
  pos : ∀ x ∈ xs, 0 < x.quantity ∧ 0 < x.price

/-- The ids that are live, the ones that are finished, and the owners of every id ever accepted. -/
structure IdsWf (live : List OrderId) (finished : OrderId → Option FinalState)
    (owner : OrderId → Option OwnerId) : Prop where
  /-- No id is in two places. -/
  nodup : live.Nodup
  /-- An id that lives has not ended. -/
  unfinished : ∀ id ∈ live, finished id = none
  /-- An id has an owner exactly if it lives or has ended. -/
  owned : ∀ id, (owner id).isSome ↔ id ∈ live ∨ (finished id).isSome

namespace Market

/-- The ids of the orders and stops of a market. -/
def liveIds (m : Market) : List OrderId :=
  m.bids.map RestingOrder.orderId ++ m.asks.map RestingOrder.orderId ++
    (m.fifo ++ m.stops).map StopOrder.id

/-- The invariant, for a market whose orders in flight have the ids `flying`. -/
structure Wf (m : Market) (flying : List OrderId) : Prop where
  /-- Both queues are in order. -/
  side : ∀ side, SideWf side (m.queue side)
  /-- The resting orders and the room for more make up the pool. -/
  capacity : m.bids.length + m.asks.length + m.freeNodes = m.cfg.poolCapacity
  /-- Every stop would be accepted. -/
  stops : ∀ s ∈ m.fifo ++ m.stops, Session.validateStopFields s = .none
  /-- The ids of the resting orders, the stops, and the orders in flight. -/
  ids : IdsWf (flying ++ m.liveIds) m.finishedOrders m.ownerOf
  /-- The reference is positive. -/
  reference : m.hasReferencePrice = true → 0 < m.referencePrice
  /-- The reference is the price of the last trade. -/
  lastTrade : m.lastTradePrice = if m.hasReferencePrice then some m.referencePrice else none

/-- The price of an order suits its type. -/
def Priced (order : Order) : Prop :=
  match order.type with
  | .limit => ∃ p, order.price = some p ∧ 0 < p
  | .market => order.price = none

/-- The invariant at each stage. -/
def Stage.Wf : Stage → Prop
  | .idle m => m.Wf []
  | .entering m order =>
    m.Wf [order.id] ∧ m.halted = false ∧ Session.validateOrderFields order = .none
  | .walking w =>
    w.market.Wf [w.incoming.id] ∧ w.market.halted = false ∧ Priced w.incoming ∧
      0 ≤ w.incoming.quantity ∧ ∀ t ∈ w.trades, 0 < t.price
  | .stopped w =>
    w.market.Wf [w.incoming.id] ∧ Priced w.incoming ∧ 0 < w.incoming.quantity ∧
      ∀ t ∈ w.trades, 0 < t.price
  | .settled m trades _ => m.Wf [] ∧ ∀ t ∈ trades, 0 < t.price

end Market

/-! ## Ids -/

namespace IdsWf

variable {live live' : List OrderId} {finished : OrderId → Option FinalState}
  {owner : OrderId → Option OwnerId} {id : OrderId}

/-- The order of the ids does not matter. -/
theorem perm (h : IdsWf live finished owner) (hp : live.Perm live') :
    IdsWf live' finished owner :=
  ⟨hp.nodup_iff.mp h.nodup, fun id hid => h.unfinished id (hp.mem_iff.mpr hid),
    fun id => by rw [h.owned, hp.mem_iff]⟩

/-- A live id is finished. -/
theorem finish (h : IdsWf (id :: live) finished owner) (state : FinalState) :
    IdsWf live (Function.update finished id (some state)) owner := by
  obtain ⟨hout, hnd⟩ := List.nodup_cons.mp h.nodup
  refine ⟨hnd, fun i hi => ?_, fun i => ?_⟩
  · rw [Function.update_of_ne (by rintro rfl; exact hout hi)]
    exact h.unfinished i (List.mem_cons_of_mem _ hi)
  · rw [h.owned, Function.update_apply]
    by_cases hi : i = id
    · simp [hi]
    · simp [hi]

/-- An id that is neither live nor finished is accepted. -/
theorem start (h : IdsWf live finished owner) (hlive : id ∉ live) (hfin : finished id = none)
    (who : OwnerId) : IdsWf (id :: live) finished (Function.update owner id (some who)) := by
  refine ⟨List.nodup_cons.mpr ⟨hlive, h.nodup⟩, fun i hi => ?_, fun i => ?_⟩
  · rcases List.mem_cons.mp hi with rfl | hi
    · exact hfin
    · exact h.unfinished i hi
  · rw [Function.update_apply]
    by_cases hi : i = id
    · simp [hi]
    · simp [hi, h.owned]

/-- An id that is neither live nor finished has no owner. -/
theorem owner_eq_none (h : IdsWf live finished owner) (hlive : id ∉ live)
    (hfin : finished id = none) : owner id = none := by
  have := mt (h.owned id).mp (by simp [hlive, hfin])
  simpa using this

end IdsWf

/-! ## Queues -/

namespace SideWf

variable {side : Side} {x : RestingOrder} {xs : List RestingOrder}

/-- A queue without its head is in order. -/
theorem tail (h : SideWf side (x :: xs)) : SideWf side xs :=
  ⟨(List.pairwise_cons.mp h.sorted).2, fun y hy => h.pos y (List.mem_cons_of_mem _ hy)⟩

/-- Part of a queue is in order. -/
theorem filter (h : SideWf side xs) (p : RestingOrder → Bool) : SideWf side (xs.filter p) :=
  ⟨h.sorted.filter p, fun y hy => h.pos y (List.mem_of_mem_filter hy)⟩

/-- The head of a queue may lose quantity. -/
theorem head (h : SideWf side (x :: xs)) {quantity filled : ℤ} (hq : 0 < quantity) :
    SideWf side ({ x with quantity, filled } :: xs) := by
  refine ⟨List.pairwise_cons.mpr (List.pairwise_cons.mp h.sorted), fun y hy => ?_⟩
  rcases List.mem_cons.mp hy with rfl | hy
  · exact ⟨hq, (h.pos x List.mem_cons_self).2⟩
  · exact h.pos y (List.mem_cons_of_mem _ hy)

/-- A queue may be rewritten at the same prices. -/
theorem map (h : SideWf side xs) {f : RestingOrder → RestingOrder}
    (hprice : ∀ y ∈ xs, (f y).price = y.price) (hq : ∀ y ∈ xs, 0 < (f y).quantity) :
    SideWf side (xs.map f) := by
  refine ⟨List.pairwise_map.mpr (h.sorted.imp_of_mem fun {a b} ha hb hab => ?_), fun y hy => ?_⟩
  · rw [hprice a ha, hprice b hb]
    exact hab
  · obtain ⟨z, hz, rfl⟩ := List.mem_map.mp hy
    exact ⟨hq z hz, by rw [hprice z hz]; exact (h.pos z hz).2⟩

end SideWf

/-- A price that is better than one is better than all that are no better than that. -/
theorem Side.Better.trans' {side : Side} {p q r : ℤ} (hpq : side.Better p q)
    (hqr : ¬ side.Better r q) : side.Better p r := by
  cases side <;> simp only [Side.Better] at * <;> omega

/-- Of two prices only one is better. -/
theorem Side.Better.asymm {side : Side} {p q : ℤ} (h : side.Better p q) : ¬ side.Better q p := by
  cases side <;> simp only [Side.Better] at * <;> omega

namespace Market

/-- Joining a queue adds one order. -/
theorem join_perm (side : Side) (x : RestingOrder) (xs : List RestingOrder) :
    (join side x xs).Perm (x :: xs) := by
  rw [join]
  refine List.perm_middle.trans (List.Perm.cons x ?_)
  rw [List.takeWhile_append_dropWhile]

/-- The place of an order that joins a queue. -/
theorem exists_join {side : Side} {xs : List RestingOrder} (x : RestingOrder)
    (h : xs.Pairwise fun x y => ¬ side.Better y.price x.price) :
    ∃ before after, xs = before ++ after ∧ join side x xs = before ++ x :: after ∧
      (∀ y ∈ before, ¬ side.Better x.price y.price) ∧ ∀ y ∈ after, side.Better x.price y.price := by
  refine ⟨_, _, (List.takeWhile_append_dropWhile).symm, rfl, fun y hy => ?_, ?_⟩
  · simpa using List.mem_takeWhile_imp hy
  · induction xs with
    | nil => simp
    | cons a xs ih =>
      obtain ⟨ha, hxs⟩ := List.pairwise_cons.mp h
      by_cases hxa : side.Better x.price a.price
      · rw [List.dropWhile_cons_of_neg (by simpa using hxa)]
        intro y hy
        rcases List.mem_cons.mp hy with rfl | hy
        · exact hxa
        · exact hxa.trans' (ha y hy)
      · rw [List.dropWhile_cons_of_pos (by simpa using hxa)]
        exact ih hxs

end Market

/-- An order joins a queue in its place. -/
theorem SideWf.join {side : Side} {x : RestingOrder} {xs : List RestingOrder} (h : SideWf side xs)
    (hx : 0 < x.quantity ∧ 0 < x.price) : SideWf side (Market.join side x xs) := by
  refine ⟨?_, fun y hy => ?_⟩
  · obtain ⟨before, after, rfl, hjoin, hb, ha⟩ := Market.exists_join x h.sorted
    obtain ⟨hsb, hsa, hcross⟩ := List.pairwise_append.mp h.sorted
    rw [hjoin]
    refine List.pairwise_append.mpr ⟨hsb, List.pairwise_cons.mpr ⟨fun y hy => (ha y hy).asymm, hsa⟩, ?_⟩
    intro y hy z hz
    rcases List.mem_cons.mp hz with rfl | hz
    · exact hb y hy
    · exact hcross y hy z hz
  · rcases List.mem_cons.mp ((Market.join_perm side x xs).mem_iff.mp hy) with rfl | hy
    · exact hx
    · exact h.pos y hy

/-! ## The parts of a market -/

namespace Market

variable {m : Market} {flying : List OrderId}

/-- The live ids, with those of one side first. -/
theorem liveIds_perm (m : Market) (side : Side) :
    m.liveIds.Perm ((m.queue side).map RestingOrder.orderId ++
      ((m.queue side.opposite).map RestingOrder.orderId ++ (m.fifo ++ m.stops).map StopOrder.id)) := by
  cases side with
  | buy => rw [liveIds, List.append_assoc]; exact List.Perm.refl _
  | sell =>
    rw [liveIds, ← List.append_assoc]
    exact List.perm_append_comm.append_right _

/-- Both queues together, whichever side comes first. -/
theorem length_queues (m : Market) (side : Side) :
    m.bids.length + m.asks.length = (m.queue side).length + (m.queue side.opposite).length := by
  cases side
  · rfl
  · exact Nat.add_comm _ _

/-- An order that lookup finds rests on one of the sides. -/
theorem mem_of_restingOrder? {id : OrderId} {order : Order} (h : m.restingOrder? id = some order) :
    ∃ side x, x ∈ m.queue side ∧ x.orderId = id ∧ order = x.toOrder side := by
  rw [restingOrder?] at h
  cases hb : m.bids.find? fun x => x.orderId = id with
  | some x =>
    rw [hb] at h
    obtain ⟨hx, hid⟩ := Keyed.find?_spec hb
    exact ⟨.buy, x, hx, hid, (Option.some.inj h).symm⟩
  | none =>
    rw [hb] at h
    obtain ⟨x, hx, rfl⟩ := Option.map_eq_some_iff.mp h
    obtain ⟨hx, hid⟩ := Keyed.find?_spec hx
    exact ⟨.sell, x, hx, hid, rfl⟩

/-- An id that is not in use is neither live nor finished. -/
theorem notMem_of_idInUse {id : OrderId} (hfifo : m.fifo = []) (huse : m.idInUse id = false) :
    id ∉ m.liveIds ∧ m.finishedOrders id = none := by
  simp only [idInUse, Bool.or_eq_false_iff, Option.isSome_eq_false_iff,
    Option.isNone_iff_eq_none] at huse
  obtain ⟨⟨hrest, hfin⟩, hstop⟩ := huse
  refine ⟨fun hid => ?_, hfin⟩
  rw [restingOrder?] at hrest
  cases hb : m.bids.find? fun x => x.orderId = id with
  | some x => simp [hb] at hrest
  | none =>
    simp only [hb, Option.map_eq_none_iff] at hrest
    rw [stop?] at hstop
    rw [liveIds, hfifo, List.nil_append] at hid
    rcases List.mem_append.mp hid with hid | hid
    · rcases List.mem_append.mp hid with hid | hid
      · exact Keyed.find?_eq_none.mp hb hid
      · exact Keyed.find?_eq_none.mp hrest hid
    · exact Keyed.find?_eq_none.mp hstop hid

/-- Lookup finds a dormant stop, with the id. -/
theorem stop?_spec {id : OrderId} {stop : StopOrder} (h : m.stop? id = some stop) :
    stop ∈ m.stops ∧ stop.id = id :=
  Keyed.find?_spec h

/-- A modified stop stands in the place of the old one. -/
theorem mem_replaceStop {stops : List StopOrder} {old updated stop : StopOrder}
    (h : stop ∈ replaceStop stops old updated) : stop = updated ∨ stop ∈ stops := by
  rw [replaceStop] at h
  split_ifs at h
  · obtain ⟨s, hs, rfl⟩ := List.mem_map.mp h
    split_ifs
    · exact Or.inl rfl
    · exact Or.inr hs
  · rcases List.mem_append.mp h with h | h
    · exact Or.inr (List.mem_of_mem_filter h)
    · exact Or.inl (List.mem_singleton.mp h)

/-- Lookup finds the ids that rest. -/
theorem restingOrder?_isSome {id : OrderId} : (m.restingOrder? id).isSome ↔
    id ∈ m.bids.map RestingOrder.orderId ++ m.asks.map RestingOrder.orderId := by
  rw [restingOrder?, List.mem_append]
  cases hb : m.bids.find? fun x => x.orderId = id with
  | some x =>
    obtain ⟨hx, rfl⟩ := Keyed.find?_spec hb
    simpa using Or.inl ⟨x, hx, rfl⟩
  | none =>
    have hbids := Keyed.find?_eq_none.mp hb
    rw [Option.isSome_map, or_iff_right hbids, ← not_iff_not, Bool.not_eq_true,
      Option.isSome_eq_false_iff, Option.isNone_iff_eq_none]
    exact Keyed.find?_eq_none

/-- Lookup finds the ids that are dormant. -/
theorem stop?_isSome {id : OrderId} : (m.stop? id).isSome ↔ id ∈ m.stops.map StopOrder.id := by
  rw [← not_iff_not, Bool.not_eq_true, Option.isSome_eq_false_iff, Option.isNone_iff_eq_none]
  exact Keyed.find?_eq_none

/-- What resting an order does. -/
theorem restOrder_eq_some {order : Order} {now : ℤ} {m' : Market}
    (h : m.restOrder order now = some m') :
    m.freeNodes ≠ 0 ∧
      m' = { m.setQueue order.side (join order.side order.resting (m.queue order.side)) with
        toSession := m.toSession, freeNodes := m.freeNodes - 1 }.emit (order.event .rested now) := by
  rw [restOrder] at h
  split_ifs at h with hfree
  refine ⟨hfree, (Option.some.inj h).symm.trans ?_⟩
  cases order.side <;> rfl

/-! ## What each step does to the invariant -/

namespace Wf

/-- A quiet event keeps a market well-formed. -/
theorem emit_quiet (h : m.Wf flying) {e : EngineEvent} (hk : Session.quiet e.kind = true) :
    (m.emit e).Wf flying := by
  rw [Market.emit, Session.emit_of_quiet _ hk]
  exact ⟨fun side => by cases side <;> exact h.side _, h.capacity, h.stops, h.ids, h.reference,
    h.lastTrade⟩

/-- The session may change where the invariant does not look. -/
theorem withHalt (h : m.Wf flying) (halted : Bool) (haltUntil : ℤ) (outside : Option ℤ) :
    ({ m with halted, haltUntil, outsideBandSince := outside } : Market).Wf flying :=
  ⟨fun side => by cases side <;> exact h.side _, h.capacity, h.stops, h.ids, h.reference,
    h.lastTrade⟩

/-- A finished order leaves the flight. -/
theorem finish {id : OrderId} (h : m.Wf (id :: flying)) (state : FinalState) :
    ({ m with finishedOrders := Function.update m.finishedOrders id (some state) } : Market).Wf
      flying :=
  ⟨fun side => by cases side <;> exact h.side _, h.capacity, h.stops, h.ids.finish state, h.reference,
    h.lastTrade⟩

/-- A closing event finishes its order or stop. -/
theorem emit_closing {e : EngineEvent} (h : m.Wf (e.orderId :: flying))
    (hk : e.kind = .cancelled ∨ e.kind = .stopCancelled ∨ e.kind = .expired) :
    (m.emit e).Wf flying := by
  have hf := h.finish .cancelled
  have hfin : (m.emit e).finishedOrders =
      Function.update m.finishedOrders e.orderId (some .cancelled) := if_pos hk
  have hown : (m.emit e).ownerOf = m.ownerOf :=
    if_neg (by rcases hk with hk | hk | hk <;> simp [hk])
  refine ⟨fun side => by cases side <;> exact hf.side _, hf.capacity, hf.stops, ?_, hf.reference,
    hf.lastTrade⟩
  rw [hfin, hown]
  exact hf.ids

/-- A fresh order is accepted. -/
theorem accept_fresh {order : Order} (h : m.Wf []) (hfifo : m.fifo = [])
    (hfresh : m.idInUse order.id = false) (now : ℤ) :
    (m.accept order now).market.Wf [order.id] := by
  obtain ⟨hlive, hfin⟩ := notMem_of_idInUse hfifo hfresh
  have hnone := h.ids.owner_eq_none hlive hfin
  have hids := h.ids.start hlive hfin order.ownerId
  refine ⟨fun side => by cases side <;> exact h.side _, h.capacity, h.stops, ?_, h.reference,
    h.lastTrade⟩
  have howner := m.ownerOf_emit_of_unowned (e := order.event .accepted now) (Or.inl rfl) hnone
  show IdsWf _ _ (m.toSession.emit (order.event .accepted now)).ownerOf
  rw [howner]
  exact hids

/-- An order that comes back is accepted again. -/
theorem accept_again {order : Order} (h : m.Wf [order.id]) (now : ℤ) :
    (m.accept order now).market.Wf [order.id] := by
  have hsome : (m.ownerOf order.id).isSome := (h.ids.owned order.id).mpr (Or.inl (by simp))
  obtain ⟨who, hwho⟩ := Option.isSome_iff_exists.mp hsome
  refine ⟨fun side => by cases side <;> exact h.side _, h.capacity, h.stops, ?_, h.reference,
    h.lastTrade⟩
  have howner := m.ownerOf_emit_of_owned (e := order.event .accepted now) (Or.inl rfl) hwho
  show IdsWf _ _ (m.toSession.emit (order.event .accepted now)).ownerOf
  rw [howner]
  exact h.ids

/-- The ids, seen from one side of the book. -/
theorem idsAt (h : m.Wf flying) (side : Side) :
    IdsWf (flying ++ ((m.queue side).map RestingOrder.orderId ++
      ((m.queue side.opposite).map RestingOrder.orderId ++ (m.fifo ++ m.stops).map StopOrder.id)))
      m.finishedOrders m.ownerOf :=
  h.ids.perm ((m.liveIds_perm side).append_left _)

/-- One queue is replaced, and the session changes what it says of ids. -/
theorem withQueue (h : m.Wf flying) (side : Side) (xs : List RestingOrder) (free : ℕ) (s : Session)
    (flying' : List OrderId) (hxs : SideWf side xs)
    (hfree : xs.length + free = (m.queue side).length + m.freeNodes) (hcfg : s.cfg = m.cfg)
    (hhas : s.hasReferencePrice = m.hasReferencePrice) (href : s.referencePrice = m.referencePrice)
    (hlast : s.lastTradePrice = m.lastTradePrice)
    (hids : IdsWf (flying' ++ (xs.map RestingOrder.orderId ++
      ((m.queue side.opposite).map RestingOrder.orderId ++ (m.fifo ++ m.stops).map StopOrder.id)))
      s.finishedOrders s.ownerOf) :
    ({ m.setQueue side xs with toSession := s, freeNodes := free } : Market).Wf flying' := by
  set m' : Market := { m.setQueue side xs with toSession := s, freeNodes := free } with hm'
  have hself : m'.queue side = xs := by cases side <;> rfl
  have hother : m'.queue side.opposite = m.queue side.opposite := by cases side <;> rfl
  have hstops : m'.fifo ++ m'.stops = m.fifo ++ m.stops := by cases side <;> rfl
  refine ⟨fun side' => ?_, ?_, ?_, ?_, ?_, ?_⟩
  · by_cases hs : side' = side
    · rw [hs, hself]
      exact hs ▸ hxs
    · have hopp : side' = side.opposite := by
        cases side <;> cases side' <;> first | rfl | exact absurd rfl hs
      rw [hopp, hother]
      exact h.side _
  -- The pool is counted from the side that changes.
  · have hcap := h.capacity
    rw [length_queues m side] at hcap
    rw [length_queues m' side, hself, hother]
    show _ + free = s.cfg.poolCapacity
    rw [hcfg]
    omega
  · rw [hstops]
    exact h.stops
  · refine hids.perm ?_
    refine ((m'.liveIds_perm side).trans ?_).symm.append_left _
    rw [hself, hother, hstops]
  · show s.hasReferencePrice = true → 0 < s.referencePrice
    rw [hhas, href]
    exact h.reference
  · show s.lastTradePrice = if s.hasReferencePrice then some s.referencePrice else none
    rw [hhas, href, hlast]
    exact h.lastTrade

/-- An order in flight comes to rest. -/
theorem rest {order : Order} {now : ℤ} {m' : Market} (h : m.Wf [order.id])
    (hpos : 0 < order.quantity ∧ 0 < order.resting.price) (hr : m.restOrder order now = some m') :
    m'.Wf [] := by
  obtain ⟨hfree, rfl⟩ := restOrder_eq_some hr
  have hperm := join_perm order.side order.resting (m.queue order.side)
  have hids := (h.idsAt order.side).perm ((hperm.symm.map RestingOrder.orderId).append_right _)
  have hlen : (join order.side order.resting (m.queue order.side)).length + (m.freeNodes - 1) =
      (m.queue order.side).length + m.freeNodes := by
    rw [hperm.length_eq, List.length_cons]
    omega
  have hwf := h.withQueue order.side _ (m.freeNodes - 1) m.toSession [] ((h.side order.side).join hpos)
    hlen rfl rfl rfl rfl hids
  exact hwf.emit_quiet (e := order.event .rested now) rfl

/-- A resting order leaves the book, for the flight or for good. -/
theorem remove {side : Side} {x : RestingOrder} (h : m.Wf []) (hx : x ∈ m.queue side) :
    (m.remove x.orderId).Wf [x.orderId] := by
  have hids : IdsWf ((m.queue side).map RestingOrder.orderId ++
      ((m.queue side.opposite).map RestingOrder.orderId ++ (m.fifo ++ m.stops).map StopOrder.id))
      m.finishedOrders m.ownerOf := h.idsAt side
  have hnd := (List.nodup_append.mp hids.nodup).1
  have hperm := Keyed.perm_cons_filter_ne hnd hx
  -- The other queue does not have the id, so the filter leaves it alone.
  have hout : x.orderId ∉ (m.queue side.opposite).map RestingOrder.orderId := fun hmem =>
    (List.nodup_append.mp hids.nodup).2.2 _ (List.mem_map_of_mem hx) _
      (List.mem_append_left _ hmem) rfl
  have hids' := hids.perm ((hperm.map RestingOrder.orderId).append_right _)
  have hlen : ((m.queue side).filter fun y => y.orderId ≠ x.orderId).length + (m.freeNodes + 1) =
      (m.queue side).length + m.freeNodes := by
    rw [hperm.length_eq, List.length_cons]
    omega
  have hwf := h.withQueue side _ (m.freeNodes + 1) m.toSession [x.orderId]
    ((h.side side).filter _) hlen rfl rfl rfl rfl hids'
  have heq : m.remove x.orderId =
      { m.setQueue side ((m.queue side).filter fun y => y.orderId ≠ x.orderId) with
        toSession := m.toSession, freeNodes := m.freeNodes + 1 } := by
    have hother := Keyed.filter_ne_of_notMem hout
    cases side <;> simp only [queue, Side.opposite] at hother <;>
      simp only [Market.remove, setQueue, queue, hother]
  rw [heq]
  exact hwf

/-- A trade with the head of the other queue. -/
theorem trade {w : Walk} {now : ℤ} {x : RestingOrder} {xs : List RestingOrder}
    {outside breach : Option ℤ} (h : w.market.Wf [w.incoming.id])
    (hqueue : w.market.queue w.incoming.side.opposite = x :: xs) :
    (w.trade now x xs outside breach).market.Wf [w.incoming.id] := by
  have hside := h.side w.incoming.side.opposite
  have hids := h.idsAt w.incoming.side.opposite
  rw [hqueue] at hside hids
  have hx := hside.pos x List.mem_cons_self
  rw [Walk.market_trade]
  simp only
  split_ifs with hfull
  · have hids' := (hids.perm (@List.perm_middle _ _ [w.incoming.id] _)).finish .filled
    exact h.withQueue _ xs _ _ _ hside.tail (by rw [hqueue, List.length_cons]; omega) rfl rfl rfl rfl
      hids'
  · exact h.withQueue _ _ _ _ _ (hside.head (by omega)) (by rw [hqueue]; simp) rfl rfl rfl rfl hids

/-- A resting order is reduced in its place. -/
theorem reduce {side : Side} {x : RestingOrder} {quantity : ℤ} (h : m.Wf flying)
    (hx : x ∈ m.queue side) (hpos : 0 < quantity) :
    (m.reduce x.orderId (x.quantity - quantity)).Wf flying := by
  set shrink : RestingOrder → RestingOrder := fun y =>
    if y.orderId = x.orderId then { y with quantity := y.quantity - (x.quantity - quantity) } else y
    with hshrink
  have hkey : ∀ y, (shrink y).orderId = y.orderId := fun y => by
    simp only [hshrink]
    split_ifs <;> rfl
  have hprice : ∀ y, (shrink y).price = y.price := fun y => by
    simp only [hshrink]
    split_ifs <;> rfl
  have hids := h.idsAt side
  have hnd := (List.nodup_append.mp hids.nodup).2.1
  have hq : ∀ side', ∀ y ∈ m.queue side', 0 < (shrink y).quantity := by
    intro side' y hy
    simp only [hshrink]
    split_ifs with hid
    -- One order has the id, and it keeps a positive quantity.
    · have hxy : y = x := by
        by_cases hs : side' = side
        · exact Keyed.eq_of_key (List.nodup_append.mp hnd).1 (hs ▸ hy) hx hid
        · have hopp : side' = side.opposite := by
            cases side <;> cases side' <;> first | rfl | exact absurd rfl hs
          exact absurd hid.symm ((List.nodup_append.mp hnd).2.2 _ (List.mem_map_of_mem hx) _
            (List.mem_append_left _ (List.mem_map_of_mem (hopp ▸ hy))))
      subst hxy
      simp only
      omega
    · exact ((h.side side').pos y hy).1
  have hside : ∀ side', SideWf side' ((m.queue side').map shrink) := fun side' =>
    (h.side side').map (fun y _ => hprice y) (hq side')
  refine ⟨fun side' => by cases side' <;> exact hside _, ?_, h.stops, ?_, h.reference, h.lastTrade⟩
  · show (m.bids.map shrink).length + (m.asks.map shrink).length + m.freeNodes = _
    rw [List.length_map, List.length_map]
    exact h.capacity
  · show IdsWf (flying ++ ((m.bids.map shrink).map RestingOrder.orderId ++
      (m.asks.map shrink).map RestingOrder.orderId ++ _)) _ _
    rw [Keyed.map_key_modify fun y _ => hkey y, Keyed.map_key_modify fun y _ => hkey y]
    exact h.ids

/-- The stops are rearranged. -/
theorem withStops {fifo stops : List StopOrder} (h : m.Wf flying)
    (hp : (m.fifo ++ m.stops).Perm (fifo ++ stops)) :
    ({ m with fifo, stops } : Market).Wf flying := by
  refine ⟨fun side => by cases side <;> exact h.side _, h.capacity, fun s hs => ?_, ?_, h.reference,
    h.lastTrade⟩
  · exact h.stops s (hp.mem_iff.mpr hs)
  · exact h.ids.perm (((hp.map StopOrder.id).append_left _).append_left _)

/-- Waking stops keeps a market well-formed. -/
theorem wakeStops (h : m.Wf flying) (low high : ℤ) : (m.wakeStops low high).Wf flying := by
  rw [Market.wakeStops]
  split_ifs
  · exact h
  · refine h.withStops ?_
    rw [List.append_assoc]
    exact (List.filter_append_perm _ _).symm.append_left _

/-- The trades of a walk move the reference. -/
theorem absorb {trades : List Trade} {last : Trade} (h : m.Wf flying) (hlast : 0 < last.price) :
    (m.absorb trades last).Wf flying := by
  have hmoved : ({ m with toSession := m.moveReference last } : Market).Wf flying :=
    ⟨fun side => by cases side <;> exact h.side _, h.capacity, h.stops, h.ids, fun _ => hlast, rfl⟩
  exact hmoved.wakeStops _ _

/-- A stop leaves the FIFO for the flight. -/
theorem pop {stop : StopOrder} {rest : List StopOrder} (h : m.Wf []) (hfifo : m.fifo = stop :: rest) :
    ({ m with fifo := rest } : Market).Wf [stop.id] := by
  refine ⟨fun side => by cases side <;> exact h.side _, h.capacity, fun s hs => ?_, ?_, h.reference,
    h.lastTrade⟩
  · refine h.stops s ?_
    rw [hfifo]
    exact List.mem_cons_of_mem _ hs
  · refine h.ids.perm ?_
    rw [liveIds, hfifo]
    exact List.perm_middle

/-- Sending stops back keeps a market well-formed. -/
theorem sendBack (h : m.Wf []) : m.sendBack.Wf [] := by
  exact h.withStops (List.Perm.refl _)

/-- A fresh stop is placed. -/
theorem placeStop {stop : StopOrder} (h : m.Wf []) (hfifo : m.fifo = [])
    (hfresh : m.idInUse stop.id = false) (hvalid : Session.validateStopFields stop = .none)
    (seen : OrderId → Bool) (now : ℤ) :
    ({ m with stops := m.stops ++ [stop], stopIdsSeen := seen }.emit
      (stop.event .stopAccepted now)).Wf [] := by
  obtain ⟨hlive, hfin⟩ := notMem_of_idInUse hfifo hfresh
  have hnone := h.ids.owner_eq_none hlive hfin
  have hids := h.ids.start hlive hfin stop.ownerId
  refine ⟨fun side => by cases side <;> exact h.side _, h.capacity, fun s hs => ?_, ?_, h.reference,
    h.lastTrade⟩
  · have hs : s ∈ m.fifo ++ (m.stops ++ [stop]) := hs
    rw [← List.append_assoc] at hs
    rcases List.mem_append.mp hs with hs | hs
    · exact h.stops s hs
    · rw [List.mem_singleton.mp hs]
      exact hvalid
  · have howner := m.ownerOf_emit_of_unowned (e := stop.event .stopAccepted now) (Or.inr rfl) hnone
    show IdsWf _ _ (m.toSession.emit (stop.event .stopAccepted now)).ownerOf
    rw [howner]
    refine hids.perm ?_
    -- The new id is the last of those of the stops.
    show (stop.id :: m.liveIds).Perm (m.bids.map RestingOrder.orderId ++
      m.asks.map RestingOrder.orderId ++ (m.fifo ++ (m.stops ++ [stop])).map StopOrder.id)
    rw [← List.append_assoc m.fifo, List.map_append, ← List.append_assoc]
    exact (List.perm_append_singleton _ _).symm

/-- The dormant stops have different ids. -/
theorem nodup_stops (h : m.Wf flying) : (m.stops.map StopOrder.id).Nodup := by
  have hnd := (List.nodup_append.mp (List.nodup_append.mp h.ids.nodup).2.1).2.1
  rw [List.map_append] at hnd
  exact (List.nodup_append.mp hnd).2.1

/-- The dormant stops without one of them. -/
theorem perm_filter_stops {stop : StopOrder} (h : m.Wf flying) (hs : stop ∈ m.stops) :
    m.stops.Perm (stop :: m.stops.filter fun s => s.id ≠ stop.id) :=
  Keyed.perm_cons_filter_ne h.nodup_stops hs

/-- A dormant stop is cancelled. -/
theorem cancelStop {stop : StopOrder} (h : m.Wf flying) (hs : stop ∈ m.stops) :
    ({ m with stops := m.stops.filter fun s => s.id ≠ stop.id } : Market).Wf (stop.id :: flying) := by
  have hp := h.perm_filter_stops hs
  have hlive : (flying ++ m.liveIds).Perm (stop.id :: flying ++ (m.bids.map RestingOrder.orderId ++
      m.asks.map RestingOrder.orderId ++
        (m.fifo ++ m.stops.filter fun s => s.id ≠ stop.id).map StopOrder.id)) := by
    refine List.Perm.trans (List.Perm.append_left _ ?_) List.perm_middle
    rw [liveIds]
    refine List.Perm.trans (List.Perm.append_left _ ?_) List.perm_middle
    exact ((hp.append_left _).trans List.perm_middle).map _
  refine ⟨fun side => by cases side <;> exact h.side _, h.capacity, fun s hs => ?_,
    h.ids.perm hlive, h.reference, h.lastTrade⟩
  refine h.stops s ?_
  rcases List.mem_append.mp hs with hs | hs
  · exact List.mem_append_left _ hs
  · exact List.mem_append_right _ (List.mem_of_mem_filter hs)

/-- A modified stop is the old one's successor, and the other stops are the same. -/
theorem replaceStop_perm {stops : List StopOrder} {old updated : StopOrder}
    (hnd : (stops.map StopOrder.id).Nodup) (hs : old ∈ stops) :
    (replaceStop stops old updated).Perm (updated :: stops.filter fun s => s.id ≠ old.id) := by
  rw [replaceStop]
  split_ifs
  · have hp := (Keyed.perm_cons_filter_ne hnd hs).map
      fun s => if s.id = old.id then updated else s
    rw [List.map_cons, if_pos rfl] at hp
    refine hp.trans (List.Perm.cons _ (List.Perm.of_eq ?_))
    refine (List.map_congr_left fun s hs => ?_).trans (List.map_id _)
    exact if_neg (by simpa using List.of_mem_filter hs)
  · exact List.perm_append_singleton _ _

/-- A dormant stop is modified. -/
theorem modifyStop {old updated : StopOrder} (h : m.Wf flying) (hs : old ∈ m.stops)
    (hid : updated.id = old.id) (hvalid : Session.validateStopFields updated = .none) :
    ({ m with stops := replaceStop m.stops old updated } : Market).Wf flying := by
  have hp : (replaceStop m.stops old updated).Perm _ := replaceStop_perm h.nodup_stops hs
  have hkeys : (m.stops.map StopOrder.id).Perm
      ((replaceStop m.stops old updated).map StopOrder.id) := by
    refine ((h.perm_filter_stops hs).map _).trans (List.Perm.trans ?_ (hp.map _).symm)
    rw [List.map_cons, List.map_cons, hid]
  refine ⟨fun side => by cases side <;> exact h.side _, h.capacity, fun s hs => ?_, ?_, h.reference,
    h.lastTrade⟩
  · rcases List.mem_append.mp hs with hs | hs
    · exact h.stops s (List.mem_append_left _ hs)
    · rcases List.mem_cons.mp (hp.mem_iff.mp hs) with rfl | hs
      · exact hvalid
      · exact h.stops s (List.mem_append_right _ (List.mem_of_mem_filter hs))
  · refine h.ids.perm (List.Perm.append_left _ (List.Perm.append_left _ ?_))
    rw [List.map_append, List.map_append]
    exact hkeys.append_left _

end Wf

/-! ## The step lemma -/

/-- A valid order has a price if it needs one, and a quantity. -/
theorem priced_of_valid {order : Order} (h : Session.validateOrderFields order = .none) :
    Priced order ∧ 0 < order.quantity := by
  rw [Session.validateOrderFields] at h
  split_ifs at h with hlimit hmarket hquantity
  refine ⟨?_, by omega⟩
  rw [Priced]
  cases htype : order.type with
  | market => simpa [htype] using hmarket
  | limit =>
    simp only [htype, true_and] at hlimit
    cases hprice : order.price with
    | none => simp [hprice] at hlimit
    | some p => exact ⟨p, rfl, by simpa [hprice] using hlimit⟩

/-- The order that a valid stop fires is valid. -/
theorem firedOrder_valid {stop : StopOrder} (h : Session.validateStopFields stop = .none) :
    Session.validateOrderFields stop.firedOrder = .none := by
  rw [Session.validateStopFields] at h
  split_ifs at h with hquantity hstop hlimit
  rw [Session.validateOrderFields, StopOrder.firedOrder]
  cases hl : stop.limitPrice with
  | none => simp [hquantity]
  | some p => simpa [hl, hquantity] using hlimit

/-- A fired order has the id of its stop. -/
@[simp] theorem firedOrder_id (stop : StopOrder) : stop.firedOrder.id = stop.id := by
  rw [StopOrder.firedOrder]
  cases stop.limitPrice <;> rfl

/-- A trade neither halts the symbol nor lifts a halt. -/
theorem Walk.halted_trade (w : Walk) (now : ℤ) (x : RestingOrder) (xs : List RestingOrder)
    (outside breach : Option ℤ) : (w.trade now x xs outside breach).market.halted = w.market.halted := by
  rw [Walk.toSession_trade]
  simp only
  split_ifs <;> rfl

/-- An order that may rest has a price and a quantity. -/
theorem restOrder_pos {order : Order} (htype : order.type = .limit) (hprice : Priced order)
    (hquantity : 0 < order.quantity) : 0 < order.quantity ∧ 0 < order.resting.price := by
  rw [Priced, htype] at hprice
  obtain ⟨p, hp, hpos⟩ := hprice
  exact ⟨hquantity, by rw [Order.resting, hp]; exact hpos⟩

/-- **The invariant, step by step.** Every step of the engine keeps the market well formed. -/
theorem Stage.Wf.step {now : ℤ} {s s' : Stage} (h : s.Wf) (hstep : Step now s s') : s'.Wf := by
  cases hstep with
  | reenter =>
    obtain ⟨hwf, halted, valid⟩ := h
    obtain ⟨hpriced, hpos⟩ := priced_of_valid valid
    exact ⟨hwf.accept_again now, halted, hpriced, hpos.le, by simp [accept]⟩
  | @trade w x xs _ _ meets band =>
    obtain ⟨hwf, halted, hpriced, -, htrades⟩ := h
    refine ⟨hwf.trade meets.queue, (Walk.halted_trade ..).trans halted, hpriced,
      ?_, fun t ht => ?_⟩
    · show 0 ≤ w.incoming.quantity - min w.incoming.quantity x.quantity
      omega
    · rcases List.mem_append.mp ht with ht | ht
      · exact htrades t ht
      · rw [List.mem_singleton.mp ht]
        exact ((hwf.side _).pos x (by rw [meets.queue]; exact List.mem_cons_self)).2
  | halt meets band =>
    obtain ⟨hwf, -, hpriced, -, htrades⟩ := h
    exact ⟨(hwf.withHalt _ _ _).emit_quiet rfl, hpriced, meets.quantity, htrades⟩
  | limit meets band =>
    obtain ⟨hwf, -, hpriced, -, htrades⟩ := h
    exact ⟨hwf, hpriced, meets.quantity, htrades⟩
  | filled quantity => exact ⟨h.1.finish _, h.2.2.2.2⟩
  | rest quantity type runOut room =>
    obtain ⟨hwf, -, hpriced, -, htrades⟩ := h
    exact ⟨hwf.rest (restOrder_pos type hpriced quantity) room, htrades⟩
  | expire quantity => exact ⟨Market.Wf.emit_closing h.1 (by simp [Order.event]), h.2.2.2.2⟩
  | @restAtBandEdge w _ type valid room =>
    obtain ⟨hwf, -, -, htrades⟩ := h
    obtain ⟨hpriced, hpos⟩ := priced_of_valid valid
    have hwf : w.market.Wf [(w.market.atBandEdge w.incoming).id] := hwf
    exact ⟨hwf.rest (restOrder_pos type hpriced hpos) room, htrades⟩
  | expireStopped => exact ⟨Market.Wf.emit_closing h.1 (by simp [Order.event]), h.2.2.2⟩
  | finish => exact h.1
  | absorb last_eq => exact h.1.absorb (h.2 _ (List.mem_of_getLast? last_eq))
  | @fire m stop rest fifo halted =>
    -- The stop leaves the FIFO, and its id is in flight as the fired order's.
    have hpop := Market.Wf.pop h fifo
    refine ⟨?_, halted, firedOrder_valid ?_⟩
    · rw [firedOrder_id]
      exact hpop.emit_quiet rfl
    · exact Market.Wf.stops h stop (by rw [fifo]; exact List.mem_cons_self)
  | sendBack halted => exact Market.Wf.sendBack h

/-- Steps keep a stage well-formed. -/
theorem Steps.wf {now : ℤ} {s s' : Stage} (hs : Steps now s s') (h : s.Wf) : s'.Wf :=
  hs.invariant (fun hstep h => h.step hstep) h

/-- Cancelling a resting order. -/
theorem Wf.cancel {id : OrderId} {order : Order} {now : ℤ} (h : m.Wf [])
    (found : m.restingOrder? id = some order) :
    ((m.emit (order.event .cancelled now)).remove order.id).Wf [] := by
  obtain ⟨side, x, hx, rfl, rfl⟩ := mem_of_restingOrder? found
  show ((m.remove x.orderId).emit ((x.toOrder side).event .cancelled now)).Wf []
  exact (h.remove hx).emit_closing (Or.inl rfl)

/-- Every action of a call keeps the market well formed. -/
theorem Wf.act {c : Call} {s : Stage} (h : m.Wf []) (hfifo : m.fifo = []) (hact : Acts m c s) :
    s.Wf := by
  cases hact with
  | refuse kind => exact h
  | reject => exact h.emit_quiet rfl
  | submit fresh halted valid =>
    obtain ⟨hpriced, hpos⟩ := priced_of_valid valid
    exact ⟨h.accept_fresh hfifo fresh _, halted, hpriced, hpos.le, by simp [accept]⟩
  | cancel found => exact h.cancel found
  | withdraw found => exact h.cancel found
  | reduce found pos le =>
    obtain ⟨side, x, hx, rfl, rfl⟩ := mem_of_restingOrder? found
    exact (h.reduce hx pos).emit_quiet rfl
  | replace halted found change valid =>
    obtain ⟨side, x, hx, rfl, rfl⟩ := mem_of_restingOrder? found
    exact ⟨(h.remove hx).emit_quiet (e := Order.event _ .replaced _) rfl, halted, valid⟩
  | rejectStop => exact h.emit_quiet rfl
  | placeStop fresh valid ahead => exact h.placeStop hfifo fresh valid _ _
  | cancelStop found => exact (h.cancelStop (stop?_spec found).1).emit_closing (Or.inr (Or.inl rfl))
  | @modifyStop _ _ old stopPrice limitPrice quantity _ found valid ahead =>
    have hid : ({ old with stopPrice, limitPrice, quantity } : StopOrder).id = old.id := rfl
    have hmod := h.modifyStop (stop?_spec found).1 hid valid
    exact hmod.emit_quiet rfl

/-- Lifting a halt keeps a market well-formed. -/
theorem Wf.resume (h : m.Wf []) (now : ℤ) : (m.resume now).Wf [] :=
  (h.withHalt false _ none).emit_quiet rfl

/-- A resumption keeps a market well-formed, if there is one. -/
theorem Wf.resumes {now : ℤ} {m' : Market} (h : m.Wf []) (hr : Resumes now m m') : m'.Wf [] := by
  rcases hr with rfl | ⟨-, -, rfl⟩
  · exact h
  · exact h.resume now

/-- A fresh market is well formed. -/
theorem wf_make (cfg : Config) : (Market.make cfg).Wf [] :=
  ⟨fun side => by cases side <;> exact ⟨List.Pairwise.nil, by simp [make, queue]⟩, by simp [make],
    by simp [make], ⟨by simp [make, liveIds], by simp [make, liveIds], by simp [make, liveIds]⟩,
    by simp [make], rfl⟩

/-- Every reachable stage is well formed. -/
theorem Reachable.wf {cfg : Config} {s : Stage} (h : Reachable cfg s) : s.Wf :=
  h.invariant ⟨wf_make cfg, fun _ h => Market.Wf.resume h _,
    fun fifo act h => Market.Wf.act h fifo act, fun hstep h => h.step hstep⟩

/-! ## An id is in one place -/

section Places

variable {id : OrderId}

/-- An order in flight does not rest. -/
theorem Wf.queue_ne (h : m.Wf flying) (hid : id ∈ flying) {side : Side} {x : RestingOrder}
    (hx : x ∈ m.queue side) : x.orderId ≠ id := by
  rintro rfl
  refine (List.nodup_append.mp (h.idsAt side).nodup).2.2 _ hid _ ?_ rfl
  exact List.mem_append_left _ (List.mem_map_of_mem hx)

/-- An order in flight is no stop. -/
theorem Wf.stop_ne (h : m.Wf flying) (hid : id ∈ flying) {stop : StopOrder}
    (hs : stop ∈ m.fifo ++ m.stops) : stop.id ≠ id := by
  rintro rfl
  refine (List.nodup_append.mp h.ids.nodup).2.2 _ hid _ ?_ rfl
  exact List.mem_append_right _ (List.mem_map_of_mem hs)

/-- An order in flight has not ended. -/
theorem Wf.finished_ne (h : m.Wf flying) (hid : id ∈ flying) {i : OrderId} {how : FinalState}
    (hf : m.finishedOrders i = some how) : i ≠ id := by
  rintro rfl
  rw [h.ids.unfinished i (List.mem_append_left _ hid)] at hf
  cases hf

/-- An id in flight or alive has an owner. -/
theorem Wf.owned (h : m.Wf flying) (hid : id ∈ flying ++ m.liveIds) : m.ownerOf id ≠ none := by
  have := (h.ids.owned id).mpr (Or.inl hid)
  intro hn
  simp [hn] at this

/-- A resting order is alive. -/
theorem mem_liveIds_of_queue {side : Side} {x : RestingOrder} (hx : x ∈ m.queue side) :
    x.orderId ∈ m.liveIds :=
  (m.liveIds_perm side).mem_iff.mpr (List.mem_append_left _ (List.mem_map_of_mem hx))

/-- The two sides share no id. -/
theorem Wf.queue_ne_of_side (h : m.Wf flying) {side side' : Side} {x y : RestingOrder}
    (hx : x ∈ m.queue side) (hy : y ∈ m.queue side') (hne : side' ≠ side) :
    y.orderId ≠ x.orderId := by
  intro hid
  have hnd := (List.nodup_append.mp (h.idsAt side).nodup).2.1
  have hopp : side' = side.opposite := by
    cases side <;> cases side' <;> first | rfl | exact absurd rfl hne
  exact (List.nodup_append.mp hnd).2.2 _ (List.mem_map_of_mem hx) _
    (List.mem_append_left _ (List.mem_map_of_mem (hopp ▸ hy))) hid.symm

/-- A resting order has its id to itself. -/
theorem Wf.eq_of_orderId (h : m.Wf flying) {side side' : Side} {x y : RestingOrder}
    (hx : x ∈ m.queue side) (hy : y ∈ m.queue side') (hid : y.orderId = x.orderId) : y = x := by
  by_cases hs : side' = side
  · have hnd := (List.nodup_append.mp (h.idsAt side).nodup).2.1
    exact Keyed.eq_of_key (List.nodup_append.mp hnd).1 (hs ▸ hy) hx hid
  · exact absurd hid (h.queue_ne_of_side hx hy hs)

/-- A resting order is no stop. -/
theorem Wf.stop_ne_of_mem (h : m.Wf flying) {side : Side} {x : RestingOrder}
    (hx : x ∈ m.queue side) {stop : StopOrder} (hs : stop ∈ m.fifo ++ m.stops) :
    stop.id ≠ x.orderId := by
  intro hid
  have hnd := (List.nodup_append.mp (h.idsAt side).nodup).2.1
  exact (List.nodup_append.mp hnd).2.2 _ (List.mem_map_of_mem hx) _
    (List.mem_append_right _ (List.mem_map_of_mem hs)) hid.symm

/-- A resting order has not ended. -/
theorem Wf.finished_ne_of_mem (h : m.Wf flying) {side : Side} {x : RestingOrder}
    (hx : x ∈ m.queue side) {i : OrderId} {how : FinalState} (hf : m.finishedOrders i = some how) :
    i ≠ x.orderId := by
  rintro rfl
  rw [h.ids.unfinished _ (List.mem_append_right _ (mem_liveIds_of_queue hx))] at hf
  cases hf

/-- The orders of a queue after one of them has been reduced. -/
theorem Wf.mem_queue_reduce {side side' : Side} {x y : RestingOrder} {by' : ℤ} (hwf : m.Wf flying)
    (hx : x ∈ m.queue side) (hy : y ∈ (m.reduce x.orderId by').queue side') :
    (y.orderId ≠ x.orderId ∧ y ∈ m.queue side') ∨
      side' = side ∧ y = { x with quantity := x.quantity - by' } := by
  obtain ⟨z, hz, hzy⟩ : ∃ z ∈ m.queue side',
      (if z.orderId = x.orderId then { z with quantity := z.quantity - by' } else z) = y := by
    cases side' <;> exact List.mem_map.mp hy
  by_cases hzx : z.orderId = x.orderId
  · right
    obtain rfl := hwf.eq_of_orderId hx hz hzx
    rw [if_pos rfl] at hzy
    refine ⟨?_, hzy.symm⟩
    by_contra hne
    exact hwf.queue_ne_of_side hx hz hne rfl
  · rw [if_neg hzx] at hzy
    exact Or.inl ⟨hzy ▸ hzx, hzy ▸ hz⟩

/-- The orders of a queue after an order has come to rest. -/
theorem mem_queue_restOrder {order : Order} {now : ℤ} {m' : Market} {side : Side} {y : RestingOrder}
    (hr : m.restOrder order now = some m') (hy : y ∈ m'.queue side) :
    y ∈ m.queue side ∨ side = order.side ∧ y = order.resting := by
  obtain ⟨-, rfl⟩ := restOrder_eq_some hr
  by_cases hside : side = order.side
  · subst hside
    have hy : y ∈ join order.side order.resting (m.queue order.side) := by
      cases hs : order.side <;> simpa [emit, setQueue, queue, hs] using hy
    rcases List.mem_cons.mp ((join_perm _ _ _).mem_iff.mp hy) with rfl | hy
    · exact Or.inr ⟨rfl, rfl⟩
    · exact Or.inl hy
  · left
    rw [← queue_setQueue_of_ne m _ hside]
    cases side <;> exact hy

/-- The orders that rest after a trade. -/
theorem Wf.mem_queue_trade {w : Walk} {x y : RestingOrder} {xs : List RestingOrder}
    {now : ℤ} {outside breach : Option ℤ} {side : Side} (hwf : w.market.Wf flying)
    (hqueue : w.market.queue w.incoming.side.opposite = x :: xs)
    (hy : y ∈ (w.trade now x xs outside breach).market.queue side) :
    (y ∈ w.market.queue side ∧ y.orderId ≠ x.orderId) ∨
      side = w.incoming.side.opposite ∧
        y = { x with quantity := x.quantity - min w.incoming.quantity x.quantity,
                     filled := x.filled + min w.incoming.quantity x.quantity } ∧
        x.quantity ≠ min w.incoming.quantity x.quantity := by
  have hx : x ∈ w.market.queue w.incoming.side.opposite := by
    rw [hqueue]
    exact List.mem_cons_self
  have hxs : ∀ y ∈ xs, y ∈ w.market.queue w.incoming.side.opposite ∧ y.orderId ≠ x.orderId := by
    intro y hy
    -- No other order of the queue has the first one's id.
    have hnd := (List.nodup_append.mp (List.nodup_append.mp (hwf.idsAt w.incoming.side.opposite).nodup).2.1).1
    rw [hqueue] at hnd ⊢
    refine ⟨List.mem_cons_of_mem _ hy, fun hid => (List.nodup_cons.mp hnd).1 ?_⟩
    rw [← hid]
    exact List.mem_map_of_mem hy
  obtain rfl | rfl : side = w.incoming.side.opposite ∨ side = w.incoming.side := by
    cases side <;> cases w.incoming.side <;> simp [Side.opposite]
  · rw [Walk.queue_trade_opposite] at hy
    simp only at hy
    split_ifs at hy with hfull
    · exact Or.inl (hxs y hy)
    · rcases List.mem_cons.mp hy with rfl | hy
      · exact Or.inr ⟨rfl, rfl, hfull⟩
      · exact Or.inl (hxs y hy)
  · rw [Walk.queue_trade_side] at hy
    refine Or.inl ⟨hy, hwf.queue_ne_of_side hx hy ?_⟩
    cases w.incoming.side <;> simp [Side.opposite]

end Places

end Market

end OrderBookEngine
