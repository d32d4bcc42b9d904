import OrderBookEngine.Engine.Replica
import OrderBookEngine.Market.Events

/-!
# The replica holds queues and stops

`Holds r q` says that a replica has the orders of two queues, in their order, and `Lists r stops` that it
has some stops. What the events make of a replica (an order rests, leaves, or changes in its place; a stop
is put in or taken out) is what they make of the lists.
-/

namespace OrderBookEngine

/-- A stop as a snapshot lists it. -/
def StopOrder.listed (stop : StopOrder) : DormantStop :=
  { orderId := stop.id, ownerId := stop.ownerId, side := stop.side, stopPrice := stop.stopPrice
    limitPrice := stop.limitPrice, quantity := stop.quantity }

/-- The place that splits a queue is where an order joins it. -/
theorem Market.join_of_split {side : Side} {x : RestingOrder} {before after : List RestingOrder}
    (hbefore : ∀ y ∈ before, ¬ side.Better x.price y.price)
    (hafter : ∀ y ∈ after, side.Better x.price y.price) :
    Market.join side x (before ++ after) = before ++ x :: after := by
  have hpass : ∀ y ∈ before, (!decide (side.Better x.price y.price)) = true := fun y hy => by
    simpa using hbefore y hy
  unfold Market.join
  rw [List.takeWhile_append_of_pos hpass, List.dropWhile_append_of_pos hpass]
  cases after with
  | nil => simp
  | cons y after =>
    have hstop : side.Better x.price y.price := hafter y List.mem_cons_self
    rw [List.takeWhile_cons_of_neg (by simpa using hstop), List.dropWhile_cons_of_neg (by simpa using hstop),
      List.append_nil]

namespace BookReplica

variable {r r' : BookReplica} {q q' : Side → List RestingOrder} {side : Side} {x : RestingOrder}

/-- The replica has the orders of two queues. -/
structure Holds (r : BookReplica) (q : Side → List RestingOrder) : Prop where
  /-- The levels of a side list the ids of its queue with their prices. -/
  flat : ∀ side, (r.sideMap side).flat = (q side).map fun x => (x.price, x.orderId)
  /-- Every order of a queue is known with its side, price and quantity. -/
  resting : ∀ side, ∀ x ∈ q side,
    r.resting x.orderId = some { owner := x.ownerId, side, price := x.price, quantity := x.quantity }
  /-- No other order is known. -/
  absent : ∀ id, (∀ side, ∀ x ∈ q side, x.orderId ≠ id) → r.resting id = none
  /-- The executed quantities are those of the queue. -/
  filled : ∀ side, ∀ x ∈ q side, r.filled x.orderId = x.filled

/-- Ids tell the orders apart. -/
def OrdersApart (q : Side → List RestingOrder) : Prop :=
  ∀ side side', ∀ x ∈ q side, ∀ y ∈ q side', y.orderId = x.orderId → side' = side ∧ y = x

/-- Nothing has changed but the orders. -/
structure SameRest (r r' : BookReplica) : Prop where
  /-- The stops are unchanged. -/
  stops : r'.stops = r.stops
  /-- The last trade price is unchanged. -/
  lastTrade : r'.lastTrade = r.lastTrade
  /-- The halt is unchanged. -/
  halted : r'.halted = r.halted
  /-- The last event number is unchanged. -/
  lastSeq : r'.lastSeq = r.lastSeq

/-- Putting in the levels of a side touches nothing else. -/
theorem sameRest_setSideMap (r : BookReplica) (side : Side) (m : ReplicaSide side) :
    SameRest r (r.setSideMap side m) := by
  cases side <;> exact ⟨rfl, rfl, rfl, rfl⟩

/-- It leaves the resting orders alone. -/
@[simp] theorem resting_setSideMap (r : BookReplica) (side : Side) (m : ReplicaSide side) :
    (r.setSideMap side m).resting = r.resting := by cases side <;> rfl

/-- It leaves the executed quantities alone. -/
@[simp] theorem filled_setSideMap (r : BookReplica) (side : Side) (m : ReplicaSide side) :
    (r.setSideMap side m).filled = r.filled := by cases side <;> rfl

/-- The levels put in are those read back. -/
@[simp] theorem sideMap_setSideMap_self (r : BookReplica) (side : Side) (m : ReplicaSide side) :
    (r.setSideMap side m).sideMap side = m := by cases side <;> rfl

/-- An executed quantity is added to one order. -/
theorem filled_addFilled (r : BookReplica) (id id' : OrderId) (quantity : ℤ) :
    (r.addFilled id quantity).filled id' = if id' = id then r.filled id + quantity else r.filled id' :=
  Function.update_apply ..

/-- The other side's levels stay. -/
theorem sideMap_setSideMap_of_ne (r : BookReplica) {side side' : Side} (m : ReplicaSide side)
    (h : side' ≠ side) : (r.setSideMap side m).sideMap side' = r.sideMap side' := by
  cases side <;> cases side' <;> first | rfl | exact absurd rfl h

/-! ## Orders -/

/-- The orders are all that `Holds` reads. -/
theorem Holds.congr (h : r.Holds q) (hsides : ∀ s, r'.sideMap s = r.sideMap s)
    (hresting : r'.resting = r.resting) (hfilled : r'.filled = r.filled) (hq : q' = q) :
    r'.Holds q' := by
  subst hq
  constructor
  case flat => exact fun s => (congrArg SortedMap.flat (hsides s)).trans (h.flat s)
  case resting => rw [hresting]; exact h.resting
  case absent => rw [hresting]; exact h.absent
  case filled => rw [hfilled]; exact h.filled

/-- An order comes to rest. -/
theorem Holds.add (h : r.Holds q) (side : Side) (hnew : ∀ s, ∀ y ∈ q s, y.orderId ≠ x.orderId)
    (hzero : x.filled = 0 → r.filled x.orderId = 0) :
    ∃ r', r.addResting x.orderId x.ownerId side x.price x.quantity x.filled = .ok r' ∧
      r'.Holds (Function.update q side (Market.join side x (q side))) ∧ SameRest r r' ∧
      r'.filled = Function.update r.filled x.orderId x.filled := by
  have hfilled : (if x.filled ≠ 0 then Function.update r.filled x.orderId x.filled else r.filled) =
      Function.update r.filled x.orderId x.filled := by
    split_ifs with hne
    · rfl
    · rw [not_not] at hne
      rw [hne, ← hzero hne, Function.update_eq_self]
  unfold addResting
  rw [h.absent x.orderId hnew, hfilled]
  refine ⟨_, rfl, ?_, ?_, filled_setSideMap ..⟩
  · -- The queue is cut where the order joins it.
    obtain ⟨before, after, hflat, hpushed, hbefore, hafter⟩ :=
      SortedMap.flat_pushBack (r.sideMap side) x.price x.orderId
    rw [h.flat] at hflat
    obtain ⟨A, B, hq, rfl, rfl⟩ := List.map_eq_append_iff.mp hflat
    have hjoin : Market.join side x (q side) = A ++ x :: B := by
      rw [hq]
      exact Market.join_of_split (fun y hy => hbefore _ (List.mem_map_of_mem hy))
        fun y hy => hafter _ (List.mem_map_of_mem hy)
    have hmem : ∀ s, ∀ y ∈ Function.update q side (Market.join side x (q side)) s,
        s = side ∧ y = x ∨ y ∈ q s := by
      intro s y hy
      by_cases hs : s = side
      · subst hs
        rw [Function.update_self] at hy
        rcases List.mem_cons.mp ((Market.join_perm ..).mem_iff.mp hy) with rfl | hy
        · exact Or.inl ⟨rfl, rfl⟩
        · exact Or.inr hy
      · rw [Function.update_of_ne hs] at hy
        exact Or.inr hy
    constructor
    case flat =>
      intro s
      by_cases hs : s = side
      · subst hs
        rw [sideMap_setSideMap_self, Function.update_self, hjoin, List.map_append, List.map_cons]
        exact hpushed
      · rw [sideMap_setSideMap_of_ne _ _ hs, Function.update_of_ne hs]
        exact h.flat s
    case resting =>
      intro s y hy
      rw [resting_setSideMap]
      rcases hmem s y hy with ⟨rfl, rfl⟩ | hold
      · exact Function.update_self ..
      · exact (Function.update_of_ne (hnew s y hold) ..).trans (h.resting s y hold)
    case absent =>
      intro id hid
      rw [resting_setSideMap]
      have hx : x ∈ Function.update q side (Market.join side x (q side)) side := by
        rw [Function.update_self, hjoin]
        exact List.mem_append_right _ List.mem_cons_self
      refine (Function.update_of_ne (hid side x hx).symm ..).trans (h.absent id fun s y hy => hid s y ?_)
      by_cases hs : s = side
      · subst hs
        rw [Function.update_self]
        exact (Market.join_perm ..).mem_iff.mpr (List.mem_cons_of_mem _ hy)
      · rwa [Function.update_of_ne hs]
    case filled =>
      intro s y hy
      rw [filled_setSideMap]
      rcases hmem s y hy with ⟨rfl, rfl⟩ | hold
      · exact Function.update_self ..
      · exact (Function.update_of_ne (hnew s y hold) ..).trans (h.filled s y hold)
  · obtain ⟨hstops, htrade, hhalted, hseq⟩ := sameRest_setSideMap
      { r with
        resting := Function.update r.resting x.orderId
          (some { owner := x.ownerId, side, price := x.price, quantity := x.quantity })
        filled := Function.update r.filled x.orderId x.filled } side
      ((r.sideMap side).pushBack x.price x.orderId)
    exact ⟨hstops, htrade, hhalted, hseq⟩

/-- An order leaves. -/
theorem Holds.remove (h : r.Holds q) (hapart : OrdersApart q) (hx : x ∈ q side) :
    ∃ r', r.removeResting x.orderId = .ok r' ∧
      r'.Holds (fun s => (q s).filter fun y => y.orderId ≠ x.orderId) ∧ SameRest r r' ∧
      r'.filled = r.filled := by
  unfold removeResting
  rw [h.resting side x hx]
  refine ⟨_, rfl, ?_, ?_, filled_setSideMap ..⟩
  · have hmem : ∀ s, ∀ y ∈ (q s).filter (fun y => y.orderId ≠ x.orderId),
        y ∈ q s ∧ y.orderId ≠ x.orderId := fun s y hy => by simpa using hy
    constructor
    case flat =>
      intro s
      by_cases hs : s = side
      · subst hs
        rw [sideMap_setSideMap_self]
        show ((r.sideMap s).removeFrom x.price x.orderId).flat = _
        rw [SortedMap.flat_removeFrom, h.flat, List.filter_map]
        -- Within the queues an id belongs to one price, so both filters agree.
        refine congrArg _ (List.filter_congr fun y hy => decide_eq_decide.mpr (not_congr ⟨?_, ?_⟩))
        · exact fun heq => congrArg Prod.snd heq
        · exact fun heq => by rw [(hapart s s x hx y hy heq).2]
      · rw [sideMap_setSideMap_of_ne _ _ hs]
        show (r.sideMap s).flat = _
        rw [h.flat, List.filter_eq_self.mpr fun y hy => ?_]
        exact decide_eq_true fun heq => hs (hapart side s x hx y hy heq).1
    case resting =>
      intro s y hy
      obtain ⟨hold, hne⟩ := hmem s y hy
      rw [resting_setSideMap]
      exact (Function.update_of_ne hne ..).trans (h.resting s y hold)
    case absent =>
      intro id hid
      rw [resting_setSideMap]
      by_cases hself : id = x.orderId
      · rw [hself]
        exact Function.update_self ..
      · refine (Function.update_of_ne hself ..).trans (h.absent id fun s y hy heq => ?_)
        exact hid s y (List.mem_filter.mpr ⟨hy, decide_eq_true (heq ▸ hself)⟩) heq
    case filled =>
      intro s y hy
      rw [filled_setSideMap]
      exact h.filled s y (hmem s y hy).1
  · obtain ⟨hstops, htrade, hhalted, hseq⟩ := sameRest_setSideMap
      { r with resting := Function.update r.resting x.orderId none } side
      ((r.sideMap side).removeFrom x.price x.orderId)
    exact ⟨hstops, htrade, hhalted, hseq⟩

/-- An order changes in its place. -/
theorem Holds.change (h : r.Holds q) (hapart : OrdersApart q) (hx : x ∈ q side) {quantity filled : ℤ}
    (hsides : ∀ s, r'.sideMap s = r.sideMap s)
    (hresting : r'.resting = Function.update r.resting x.orderId
      (some { owner := x.ownerId, side, price := x.price, quantity }))
    (hself : r'.filled x.orderId = filled)
    (hother : ∀ s, ∀ y ∈ q s, y.orderId ≠ x.orderId → r'.filled y.orderId = r.filled y.orderId) :
    r'.Holds fun s => (q s).map fun y =>
      if y.orderId = x.orderId then { y with quantity, filled } else y := by
  -- Only the order of this id changes, and there is one.
  have hmem : ∀ s, ∀ z ∈ (q s).map (fun y =>
      if y.orderId = x.orderId then { y with quantity, filled } else y),
      s = side ∧ z = { x with quantity, filled } ∨ z ∈ q s ∧ z.orderId ≠ x.orderId := by
    intro s z hz
    obtain ⟨y, hy, rfl⟩ := List.mem_map.mp hz
    split_ifs with heq
    · obtain ⟨rfl, rfl⟩ := hapart side s x hx y hy heq
      exact Or.inl ⟨rfl, rfl⟩
    · exact Or.inr ⟨hy, heq⟩
  have hids : ∀ y : RestingOrder,
      (if y.orderId = x.orderId then { y with quantity, filled } else y : RestingOrder).orderId = y.orderId := by
    intro y
    split_ifs <;> rfl
  constructor
  case flat =>
    intro s
    rw [hsides, h.flat, List.map_map]
    refine List.map_congr_left fun y _ => ?_
    show _ = ((if y.orderId = x.orderId then { y with quantity, filled } else y : RestingOrder).price,
      (if y.orderId = x.orderId then { y with quantity, filled } else y : RestingOrder).orderId)
    split_ifs <;> rfl
  case resting =>
    intro s z hz
    rw [hresting]
    rcases hmem s z hz with ⟨rfl, rfl⟩ | ⟨hz, hne⟩
    · exact Function.update_self ..
    · exact (Function.update_of_ne hne ..).trans (h.resting s z hz)
  case absent =>
    intro id hid
    have hall : ∀ s, ∀ y ∈ q s, y.orderId ≠ id := fun s y hy =>
      hids y ▸ hid s _ (List.mem_map_of_mem hy)
    rw [hresting]
    exact (Function.update_of_ne (hall side x hx).symm ..).trans (h.absent id hall)
  case filled =>
    intro s z hz
    rcases hmem s z hz with ⟨rfl, rfl⟩ | ⟨hz, hne⟩
    · exact hself
    · exact (hother s z hz hne).trans (h.filled s z hz)

/-- A trade with the order at the head of a queue. -/
theorem Holds.fill (h : r.Holds q) (hapart : OrdersApart q) {xs : List RestingOrder} {e : EngineEvent}
    (hqueue : q side = x :: xs) (hxs : ∀ y ∈ xs, y.orderId ≠ x.orderId)
    (hnew : ∀ s, ∀ y ∈ q s, y.orderId ≠ e.orderId) (hpassive : e.passiveId = x.orderId)
    (hprice : e.price = some x.price) (hle : e.quantity ≤ x.quantity) :
    ∃ r', r.applyTrade e = .ok r' ∧
      r'.Holds (Function.update q side (if x.quantity = e.quantity then xs else
        { x with quantity := x.quantity - e.quantity, filled := x.filled + e.quantity } :: xs)) ∧
      SameRest { r with lastTrade := e.price } r' ∧
      r'.filled = ((r.addFilled e.orderId e.quantity).addFilled e.passiveId e.quantity).filled := by
  have hx : x ∈ q side := hqueue ▸ List.mem_cons_self
  set left : RestingOrder :=
    { x with quantity := x.quantity - e.quantity, filled := x.filled + e.quantity } with hleft
  set r₁ : BookReplica := ({ r with lastTrade := e.price }.addFilled e.orderId e.quantity).addFilled
    e.passiveId e.quantity with hr₁
  set r₂ : BookReplica := { r₁ with
    resting := Function.update r.resting x.orderId
      (some { owner := x.ownerId, side, price := x.price, quantity := left.quantity }) } with hr₂
  have hcount : ∀ id, id ≠ e.orderId → r₁.filled id =
      if id = x.orderId then r.filled id + e.quantity else r.filled id := by
    intro id hid
    rw [hr₁, filled_addFilled, filled_addFilled, filled_addFilled, hpassive, if_neg (hnew side x hx),
      if_neg hid]
    split_ifs with heq
    · rw [heq]
    · rfl
  -- The order first loses the quantity in its place.
  have hchanged : r₂.Holds fun s => (q s).map fun y =>
      if y.orderId = x.orderId then { y with quantity := left.quantity, filled := left.filled } else y := by
    refine h.change hapart hx (fun s => by cases s <;> rfl) rfl ?_ fun s y hy hne => ?_
    · show r₁.filled x.orderId = _
      rw [hcount _ (hnew side x hx), if_pos rfl, h.filled side x hx]
    · show r₁.filled y.orderId = _
      rw [hcount _ (hnew s y hy), if_neg hne]
  have hmap : ∀ ys : List RestingOrder, (∀ y ∈ ys, y.orderId ≠ x.orderId) →
      (ys.map fun y => if y.orderId = x.orderId then
        { y with quantity := left.quantity, filled := left.filled } else y) = ys := fun ys hys =>
    (List.map_congr_left fun y hy => if_neg (hys y hy)).trans (List.map_id _)
  have hqueues : (fun s => (q s).map fun y => if y.orderId = x.orderId then
      { y with quantity := left.quantity, filled := left.filled } else y) =
      Function.update q side (left :: xs) := by
    funext s
    by_cases hs : s = side
    · subst hs
      rw [Function.update_self, hqueue, List.map_cons, hmap xs hxs, if_pos rfl]
    · rw [Function.update_of_ne hs]
      exact hmap _ fun y hy heq => hs (hapart side s x hx y hy heq).1
  rw [hqueues] at hchanged
  have happly : r.applyTrade e = if left.quantity < 0 then fail "passive order overfilled"
      else if left.quantity = 0 then r₂.removeResting x.orderId else .ok r₂ := by
    unfold applyTrade
    have hfound : r₁.resting e.passiveId =
        some { owner := x.ownerId, side, price := x.price, quantity := x.quantity } := by
      rw [hpassive]
      exact h.resting side x hx
    simp only
    rw [← hr₁, hfound]
    simp only
    rw [if_neg (not_not.mpr hprice), hpassive]
    rfl
  have henough : ¬ left.quantity < 0 := by
    show ¬ x.quantity - e.quantity < 0
    omega
  rw [happly, if_neg henough]
  by_cases hfull : x.quantity = e.quantity
  · have hzero : left.quantity = 0 := sub_eq_zero.mpr hfull
    have hapart' : OrdersApart (Function.update q side (left :: xs)) := by
      have hmem : ∀ s, ∀ y ∈ Function.update q side (left :: xs) s,
          s = side ∧ y = left ∨ y ∈ q s ∧ y.orderId ≠ x.orderId := by
        intro s y hy
        by_cases hs : s = side
        · subst hs
          rw [Function.update_self] at hy
          rcases List.mem_cons.mp hy with rfl | hy
          · exact Or.inl ⟨rfl, rfl⟩
          · exact Or.inr ⟨hqueue ▸ List.mem_cons_of_mem _ hy, hxs y hy⟩
        · rw [Function.update_of_ne hs] at hy
          exact Or.inr ⟨hy, fun heq => hs (hapart side s x hx y hy heq).1⟩
      intro s s' y hy z hz heq
      rcases hmem s y hy with ⟨rfl, rfl⟩ | ⟨hy, hyne⟩ <;> rcases hmem s' z hz with ⟨rfl, rfl⟩ | ⟨hz, hzne⟩
      · exact ⟨rfl, rfl⟩
      · exact absurd heq hzne
      · exact absurd heq.symm hyne
      · exact hapart s s' y hy z hz heq
    have hmem : left ∈ Function.update q side (left :: xs) side := by
      rw [Function.update_self]
      exact List.mem_cons_self
    obtain ⟨r', hremove, hholds, hrest, hfilled⟩ := hchanged.remove hapart' hmem
    refine ⟨r', ?_, ?_, ⟨hrest.stops, hrest.lastTrade, hrest.halted, hrest.lastSeq⟩, hfilled⟩
    · rw [if_pos hzero]
      exact hremove
    · rw [if_pos hfull]
      refine hholds.congr (fun _ => rfl) rfl rfl (funext fun s => ?_)
      by_cases hs : s = side
      · subst hs
        rw [Function.update_self, Function.update_self, List.filter_cons_of_neg (by simp)]
        exact (List.filter_eq_self.mpr fun y hy => decide_eq_true (hxs y hy)).symm
      · have hne : ∀ y ∈ q s, y.orderId ≠ x.orderId := fun y hy heq => hs (hapart side s x hx y hy heq).1
        rw [Function.update_of_ne hs, Function.update_of_ne hs]
        exact (List.filter_eq_self.mpr fun y hy => decide_eq_true (hne y hy)).symm
  · have hleftover : ¬ left.quantity = 0 := fun hzero => hfull (sub_eq_zero.mp hzero)
    rw [if_neg hleftover, if_neg hfull]
    exact ⟨r₂, rfl, hchanged, ⟨rfl, rfl, rfl, rfl⟩, rfl⟩

/-- The orders of a side are loaded, best first. -/
theorem Holds.addSide {xs : List RestingOrder} (h : r.Holds q) (hsorted : SideWf side (q side ++ xs))
    (hids : (xs.map RestingOrder.orderId).Nodup)
    (hnew : ∀ x ∈ xs, ∀ s, ∀ y ∈ q s, y.orderId ≠ x.orderId)
    (hzero : ∀ x ∈ xs, r.filled x.orderId = 0) :
    ∃ r', BookReplica.addSide side r xs = .ok r' ∧ r'.Holds (Function.update q side (q side ++ xs)) ∧
      SameRest r r' ∧ ∀ id, (∀ x ∈ xs, x.orderId ≠ id) → r'.filled id = r.filled id := by
  induction xs generalizing r q with
  | nil =>
    refine ⟨r, rfl, ?_, ⟨rfl, rfl, rfl, rfl⟩, fun _ _ => rfl⟩
    rw [List.append_nil, Function.update_eq_self]
    exact h
  | cons x xs ih =>
    obtain ⟨r₁, hadd, hholds, hrest, hfilled⟩ := h.add side (hnew x List.mem_cons_self)
      fun _ => hzero x List.mem_cons_self
    rw [List.map_cons, List.nodup_cons] at hids
    have hdistinct : ∀ y ∈ xs, y.orderId ≠ x.orderId := fun y hy heq =>
      hids.1 (heq ▸ List.mem_map_of_mem hy)
    -- The order is not better than those before it, so it goes behind them.
    have hjoin : Market.join side x (q side) = q side ++ [x] := by
      have hlast := (List.pairwise_append.mp hsorted.sorted).2.2
      have hsplit := @Market.join_of_split side x (q side) [] (fun y hy => hlast y hy x List.mem_cons_self)
        fun y hy => by cases hy
      rwa [List.append_nil] at hsplit
    rw [hjoin] at hholds
    have hnew' : ∀ y ∈ xs, ∀ s, ∀ z ∈ Function.update q side (q side ++ [x]) s, z.orderId ≠ y.orderId := by
      intro y hy s z hz
      by_cases hs : s = side
      · subst hs
        rw [Function.update_self] at hz
        rcases List.mem_append.mp hz with hz | hz
        · exact hnew y (List.mem_cons_of_mem _ hy) s z hz
        · rw [List.mem_singleton.mp hz]
          exact (hdistinct y hy).symm
      · rw [Function.update_of_ne hs] at hz
        exact hnew y (List.mem_cons_of_mem _ hy) s z hz
    have hzero' : ∀ y ∈ xs, r₁.filled y.orderId = 0 := by
      intro y hy
      rw [hfilled, Function.update_of_ne (hdistinct y hy)]
      exact hzero y (List.mem_cons_of_mem _ hy)
    have hsorted' : SideWf side (Function.update q side (q side ++ [x]) side ++ xs) := by
      rw [Function.update_self, List.append_assoc]
      exact hsorted
    obtain ⟨r', hall, hholds', hrest', hfilled'⟩ := ih hholds hsorted' hids.2 hnew' hzero'
    refine ⟨r', ?_, ?_, ?_, fun id hid => ?_⟩
    · unfold BookReplica.addSide
      rw [hadd]
      exact hall
    · rw [Function.update_self, Function.update_idem, List.append_assoc] at hholds'
      exact hholds'
    · exact ⟨hrest'.stops.trans hrest.stops, hrest'.lastTrade.trans hrest.lastTrade,
        hrest'.halted.trans hrest.halted, hrest'.lastSeq.trans hrest.lastSeq⟩
    · rw [hfilled' id fun y hy => hid y (List.mem_cons_of_mem _ hy), hfilled]
      exact Function.update_of_ne (hid x List.mem_cons_self).symm ..

/-- The orders of a side, as the replica lists them. -/
theorem Holds.collect_eq (h : r.Holds q) (side : Side) :
    r.collect (r.sideMap side).flat = .ok (q side) := by
  have key : ∀ xs : List RestingOrder, (∀ y ∈ xs, y ∈ q side) →
      r.collect (xs.map fun x => (x.price, x.orderId)) = .ok xs := by
    intro xs
    induction xs with
    | nil => exact fun _ => rfl
    | cons x xs ih =>
      intro hxs
      have hx := hxs x List.mem_cons_self
      rw [List.map_cons]
      unfold BookReplica.collect
      rw [h.resting side x hx]
      simp only
      rw [ih fun y hy => hxs y (List.mem_cons_of_mem _ hy), h.filled side x hx]
      rfl
  rw [h.flat]
  exact key (q side) fun y hy => hy

/-! ## Stops -/

/-- The replica has some stops. -/
def Lists (r : BookReplica) (stops : List StopOrder) : Prop :=
  ∀ id s, (id, s) ∈ r.stops.entries ↔ ∃ stop ∈ stops, stop.id = id ∧ s = stop.listed

variable {stops stops' : List StopOrder} {stop : StopOrder}

/-- Only the dormant stops and the replica's own count for the relation. -/
theorem Lists.congr (h : r.Lists stops) (hstops : r'.stops = r.stops)
    (hmem : ∀ s, s ∈ stops' ↔ s ∈ stops) : r'.Lists stops' := by
  intro id s
  rw [hstops, h id s]
  exact exists_congr fun stop => and_congr_left fun _ => (hmem stop).symm

/-- A stop is put in, in the place of one of its id. -/
theorem Lists.assign (h : r.Lists stops)
    (hstops : r'.stops = r.stops.insertOrAssign stop.id stop.listed)
    (hmem : ∀ s, s ∈ stops' ↔ s = stop ∨ s ∈ stops ∧ s.id ≠ stop.id) : r'.Lists stops' := by
  intro id s
  rw [hstops, SortedMap.mem_entries_insertOrAssign, h id s]
  simp only [hmem]
  constructor
  · rintro (⟨rfl, rfl⟩ | ⟨hne, other, hother, rfl, rfl⟩)
    · exact ⟨stop, Or.inl rfl, rfl, rfl⟩
    · exact ⟨other, Or.inr ⟨hother, hne⟩, rfl, rfl⟩
  · rintro ⟨other, rfl | ⟨hother, hne⟩, rfl, rfl⟩
    · exact Or.inl ⟨rfl, rfl⟩
    · exact Or.inr ⟨hne, other, hother, rfl, rfl⟩

/-- A stop is taken out. -/
theorem Lists.erase (h : r.Lists stops) {id : OrderId} (hstops : r'.stops = r.stops.erase id)
    (hmem : ∀ s, s ∈ stops' ↔ s ∈ stops ∧ s.id ≠ id) : r'.Lists stops' := by
  intro id' s
  rw [hstops, SortedMap.mem_entries_erase, h id' s]
  simp only [hmem]
  constructor
  · rintro ⟨⟨other, hother, rfl, rfl⟩, hne⟩
    exact ⟨other, ⟨hother, hne⟩, rfl, rfl⟩
  · rintro ⟨other, ⟨hother, hne⟩, rfl, rfl⟩
    exact ⟨⟨other, hother, rfl, rfl⟩, hne⟩

/-- A listed stop is known to the replica. -/
theorem Lists.known (h : r.Lists stops) (hstop : stop ∈ stops) :
    (r.stops.find? stop.id).isNone = false := by
  rw [SortedMap.find?_eq_some.mpr ((h stop.id stop.listed).mpr ⟨stop, hstop, rfl, rfl⟩)]
  rfl

/-- Stops are loaded one after the other. -/
theorem Lists.load {done : List StopOrder} (h : r.Lists done)
    (hids : ((done ++ stops).map StopOrder.id).Nodup)
    (hstops : r'.stops =
      (stops.map StopOrder.listed).foldl (fun stops s => stops.insertOrAssign s.orderId s) r.stops) :
    r'.Lists (done ++ stops) := by
  induction stops generalizing r done with
  | nil =>
    rw [List.append_nil]
    exact h.congr hstops fun _ => Iff.rfl
  | cons stop stops ih =>
    have hsplit : done ++ stop :: stops = done ++ [stop] ++ stops := List.append_cons ..
    have hnew : ∀ s ∈ done, s.id ≠ stop.id := by
      rw [hsplit, List.map_append, List.map_append] at hids
      intro s hs
      exact (List.nodup_append.mp (List.nodup_append.mp hids).1).2.2 _ (List.mem_map_of_mem hs) _
        List.mem_cons_self
    rw [hsplit] at hids ⊢
    refine @ih { r with stops := r.stops.insertOrAssign stop.id stop.listed } _ ?_ hids hstops
    refine h.assign rfl fun s => ?_
    rw [List.mem_append, List.mem_singleton, or_comm]
    exact or_congr_right ⟨fun hs => ⟨hs, hnew s hs⟩, fun hs => hs.1⟩

/-- The stops, as the replica lists them. -/
theorem Lists.sorted_perm (h : r.Lists stops) (hids : (stops.map StopOrder.id).Nodup) :
    (sortStops (r.stops.entries.map Prod.snd)).Perm (stops.map StopOrder.listed) := by
  have hkeys : ∀ e ∈ r.stops.entries, e.2.orderId = e.1 := by
    rintro ⟨id, s⟩ he
    obtain ⟨stop, -, rfl, rfl⟩ := (h id s).mp he
    rfl
  -- Neither list has a stop twice, so having the same members is enough.
  have hleft : (r.stops.entries.map Prod.snd).Nodup := by
    rw [List.Nodup, List.pairwise_map]
    refine r.stops.sorted.imp_of_mem fun {a b} ha hb hlt heq => ?_
    rw [← hkeys a ha, ← hkeys b hb, heq] at hlt
    exact lt_irrefl _ hlt
  have hright : (stops.map StopOrder.listed).Nodup := by
    have hcomp : stops.map StopOrder.id = (stops.map StopOrder.listed).map DormantStop.orderId := by
      rw [List.map_map]
      rfl
    rw [hcomp] at hids
    exact hids.of_map _
  refine (List.perm_insertionSort _ _).trans ((List.perm_ext_iff_of_nodup hleft hright).mpr fun s => ?_)
  simp only [List.mem_map, Prod.exists, exists_eq_right]
  constructor
  · rintro ⟨id, he⟩
    obtain ⟨stop, hstop, -, rfl⟩ := (h id s).mp he
    exact ⟨stop, hstop, rfl⟩
  · rintro ⟨stop, hstop, rfl⟩
    exact ⟨stop.id, (h _ _).mpr ⟨stop, hstop, rfl, rfl⟩⟩

end BookReplica

end OrderBookEngine
