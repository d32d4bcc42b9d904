import OrderBookEngine.Refine.Store

/-!
# The store and the market's queues

`Store.Queues st m L free` says that a store has a shape whose orders, in queue order, are the queues
of a market, and that as many nodes are free as the market has room for. Looking an order up,
removing it, reducing it, trading with it, and resting a new one are the market's operations.
-/

namespace OrderBookEngine

namespace Store

/-- The layout's orders are the market's queues. -/
structure Queues (st : Store) (m : Market) (L : Layout) (free : List Ptr) : Prop where
  /-- The store has the shape of these lists of nodes. -/
  shape : st.Shape L free
  /-- The market's queues are the orders of the nodes, level by level. -/
  queue : ∀ side, m.queue side = (L.ptrs side).map fun p => (st.node p).order.resting
  /-- The market counts the free nodes. -/
  freeNodes : m.freeNodes = free.length

variable {st : Store} {m : Market} {L : Layout} {free : List Ptr}

/-- The empty store of a pool. -/
theorem shape_make (capacity : ℕ) :
    ({ nodePool := NodePool.make capacity } : Store).Shape (fun _ => []) (List.range capacity) where
  entries side := by cases side <;> rfl
  nonempty side l hl := by cases hl
  linked side l hl := by cases hl
  rests side l hl := by cases hl
  threaded := by
    -- The free list from the `k`-th node on, by induction on how many are left.
    have key : ∀ n k, k + n = capacity →
        Threaded (fun p => (({ nodePool := NodePool.make capacity } : Store).node p).next)
          (if k < capacity then some k else none) (List.range' k n) := by
      intro n
      induction n with
      | zero =>
        intro k hk
        rw [if_neg (by omega)]
        rfl
      | succ n ih =>
        intro k hk
        rw [if_pos (by omega)]
        exact ⟨rfl, ih (k + 1) (by omega)⟩
    have := key capacity 0 (by omega)
    rw [List.range_eq_range']
    exact this
  perm := List.Perm.refl _
  index id p := by simp [Layout.ptrs]

/-- A new pool represents the market's empty queues. -/
theorem queues_make (cfg : Config) :
    ({ nodePool := NodePool.make cfg.poolCapacity } : Store).Queues (Market.make cfg) (fun _ => [])
      (List.range cfg.poolCapacity) where
  shape := shape_make cfg.poolCapacity
  queue side := by cases side <;> rfl
  freeNodes := by simp [Market.make]

/-- Nodes with the same id are the same node. -/
theorem Shape.eq_of_id (h : st.Shape L free) {side side' : Side} {p q : Ptr}
    (hp : p ∈ L.ptrs side) (hq : q ∈ L.ptrs side') (hid : (st.node p).order.id = (st.node q).order.id) :
    p = q := by
  have h1 := (h.index _ p).mpr ⟨⟨side, hp⟩, rfl⟩
  have h2 := (h.index _ q).mpr ⟨⟨side', hq⟩, hid.symm⟩
  rw [h1] at h2
  exact Option.some.inj h2

/-- The order of a resting node is determined by its side and what a snapshot lists. -/
theorem Shape.toOrder_resting (h : st.Shape L free) {side : Side} {p : Ptr}
    (hp : p ∈ L.ptrs side) : (st.node p).order.resting.toOrder side = (st.node p).order := by
  obtain ⟨l, hl, hpl⟩ := mem_ptrs.mp hp
  obtain ⟨-, hside, htype, hprice⟩ := h.rests side l hl p hpl
  rcases horder : (st.node p).order with ⟨id, owner, s, type, price, quantity, filled⟩
  rw [horder] at hside htype hprice
  simp only at hside htype hprice
  subst hside htype hprice
  rfl

/-- The price of a resting node. -/
theorem Shape.price_eq (h : st.Shape L free) {side : Side} {p : Ptr} (hp : p ∈ L.ptrs side) :
    (st.node p).order.price = some (st.node p).order.resting.price := by
  have := h.toOrder_resting hp
  rw [← this]
  rfl

/-- Looking an id up in one queue. -/
theorem Queues.find?_queue (h : st.Queues m L free) {side : Side} {p : Ptr}
    (hp : p ∈ L.ptrs side) :
    (m.queue side).find? (fun x => x.orderId = (st.node p).order.id) =
      some (st.node p).order.resting := by
  obtain ⟨x, hx⟩ : ∃ x, (m.queue side).find? (fun x => x.orderId = (st.node p).order.id) = some x := by
    rw [← Option.isSome_iff_exists, List.find?_isSome, h.queue]
    exact ⟨_, List.mem_map_of_mem hp, by simp [Order.resting]⟩
  have hid := List.find?_some hx
  have hmem := List.mem_of_find?_eq_some hx
  rw [h.queue] at hmem
  obtain ⟨q, hq, rfl⟩ := List.mem_map.mp hmem
  rw [hx, h.shape.eq_of_id hq hp (of_decide_eq_true hid)]

/-- An id that none of a side's nodes has is not in the queue of the side. -/
theorem Queues.find?_queue_eq_none (h : st.Queues m L free) {side : Side} {id : OrderId}
    (hid : ∀ p ∈ L.ptrs side, (st.node p).order.id ≠ id) :
    (m.queue side).find? (fun x => x.orderId = id) = none := by
  rw [List.find?_eq_none, h.queue]
  intro x hx
  obtain ⟨p, hp, rfl⟩ := List.mem_map.mp hx
  exact fun he => hid p hp (of_decide_eq_true he)

/-- **Lookup.** The index and the queues agree on an id. -/
theorem Queues.lookup (h : st.Queues m L free) (id : OrderId) :
    (st.idIndex id = none ∧ m.restingOrder? id = none) ∨
      ∃ side p, p ∈ L.ptrs side ∧ (st.node p).order.id = id ∧ st.idIndex id = some p ∧
        m.restingOrder? id = some (st.node p).order := by
  cases hidx : st.idIndex id with
  | none =>
    have hne : ∀ side, ∀ p ∈ L.ptrs side, (st.node p).order.id ≠ id := fun side p hp hid => by
      have := (h.shape.index id p).mpr ⟨⟨side, hp⟩, hid⟩
      rw [hidx] at this
      cases this
    have hbuy := h.find?_queue_eq_none (hne .buy)
    have hsell := h.find?_queue_eq_none (hne .sell)
    simp only [Market.queue] at hbuy hsell
    exact Or.inl ⟨rfl, by rw [Market.restingOrder?, hbuy, hsell]; rfl⟩
  | some p =>
    obtain ⟨⟨side, hp⟩, rfl⟩ := (h.shape.index id p).mp hidx
    refine Or.inr ⟨side, p, hp, rfl, rfl, ?_⟩
    have hfind := h.find?_queue hp
    cases side with
    | buy =>
      simp only [Market.queue] at hfind
      rw [Market.restingOrder?, hfind]
      exact congrArg some (h.shape.toOrder_resting hp)
    | sell =>
      -- The abstract lookup begins with the bids, which do not have the id.
      have hbuy : (m.queue .buy).find? (fun x => x.orderId = (st.node p).order.id) = none :=
        h.find?_queue_eq_none fun q hq hid => by
          have := h.shape.eq_of_id hq hp hid
          subst this
          cases h.shape.side_unique hq hp
      simp only [Market.queue] at hbuy hfind
      rw [Market.restingOrder?, hbuy, hfind]
      exact congrArg some (h.shape.toOrder_resting hp)

/-- The store and the room are all that `Queues` reads of a market. -/
theorem Queues.congr {m' : Market} (h : st.Queues m L free)
    (hqueue : ∀ side, m'.queue side = m.queue side) (hfree : m'.freeNodes = m.freeNodes) :
    st.Queues m' L free :=
  ⟨h.shape, fun side => by rw [hqueue, h.queue], by rw [hfree, h.freeNodes]⟩

/-- Taking an order off the book. -/
theorem Queues.remove (h : st.Queues m L free) {side : Side} {p : Ptr} (hp : p ∈ L.ptrs side) :
    ∃ L', (st.removeResting p).Queues (m.remove (st.node p).order.id) L' (p :: free) ∧
      (∀ side, L'.ptrs side = (L.ptrs side).erase p) ∧
      ∀ q, ((st.removeResting p).node q).order = (st.node q).order := by
  obtain ⟨L', hshape, hptrs, horder⟩ := shape_removeResting h.shape hp
  refine ⟨L', ⟨hshape, fun s => ?_, ?_⟩, hptrs, horder⟩
  · have hqueue : (m.remove (st.node p).order.id).queue s =
        (m.queue s).filter fun x => x.orderId ≠ (st.node p).order.id := by cases s <;> rfl
    rw [hqueue, h.queue, hptrs, (h.shape.ptrs_nodup s).erase_eq_filter, List.filter_map]
    simp only [horder]
    refine congrArg _ (List.filter_congr fun q hq => ?_)
    rw [Bool.eq_iff_iff, bne_iff_ne]
    refine decide_eq_true_iff.trans ?_
    exact not_congr ⟨fun hid => h.shape.eq_of_id hq hp hid, fun he => by rw [he]; rfl⟩
  · simp [Market.remove, h.freeNodes]

/-- Reducing an order in its place. -/
theorem Queues.reduce (h : st.Queues m L free) {side : Side} {p : Ptr} (hp : p ∈ L.ptrs side)
    (by' : ℤ) : (st.reduceResting p by').Queues (m.reduce (st.node p).order.id by') L free := by
  refine ⟨shape_reduceResting h.shape hp by', fun s => ?_, h.freeNodes⟩
  have hqueue : (m.reduce (st.node p).order.id by').queue s = (m.queue s).map fun x =>
      if x.orderId = (st.node p).order.id then { x with quantity := x.quantity - by' } else x := by
    cases s <;> rfl
  rw [hqueue, h.queue, List.map_map]
  refine List.map_congr_left fun q hq => ?_
  rw [node_reduceResting]
  by_cases hqp : q = p
  · subst hqp
    simp [Order.resting]
  · have hid : (st.node q).order.id ≠ (st.node p).order.id := fun hid =>
      hqp (h.shape.eq_of_id hq hp hid)
    simp [Order.resting, hid, hqp]

/-- Resting an order: both fail when the book is full, and both put it at the same place. -/
theorem Queues.rest (h : st.Queues m L free) {incoming : Order} {price : ℤ} (now : ℤ)
    (htype : incoming.type = .limit) (hprice : incoming.price = some price)
    (hid : st.idIndex incoming.id = none) :
    (st.restOrder incoming price = none ∧ m.restOrder incoming now = none) ∨
      ∃ st' m' L' free', st.restOrder incoming price = some st' ∧
        m.restOrder incoming now = some (m'.emit (incoming.event .rested now)) ∧
        st'.Queues m' L' free' ∧ m'.toSession = m.toSession ∧ m'.stops = m.stops ∧
        m'.fifo = m.fifo := by
  cases free with
  | nil =>
    have hfree : m.freeNodes = 0 := h.freeNodes
    exact Or.inl ⟨(h.shape.restOrder_eq_none _ _).mpr rfl, by rw [Market.restOrder, if_pos hfree]⟩
  | cons p free =>
    obtain ⟨st', L', A, B, hst', hshape, hptrs, hptrs', hother, hA, hB, hself, horder⟩ :=
      shape_restOrder h.shape htype hprice hid
    have hfree : m.freeNodes = free.length + 1 := h.freeNodes
    refine Or.inr ⟨st', { m.setQueue incoming.side
      (Market.join incoming.side incoming.resting (m.queue incoming.side)) with
      freeNodes := m.freeNodes - 1 }, L', free, hst', ?_, ⟨hshape, fun s => ?_, ?_⟩, ?_⟩
    · rw [Market.restOrder, if_neg (by omega)]
      cases incoming.side <;> rfl
    · have hp : ∀ s, p ∉ L.ptrs s := fun s hs => h.shape.not_mem_free hs List.mem_cons_self
      have hmap : ∀ ps : List Ptr, (∀ q ∈ ps, q ≠ p) →
          ps.map (fun q => (st'.node q).order.resting) =
            ps.map fun q => (st.node q).order.resting := fun ps hps =>
        List.map_congr_left fun q hq => by rw [horder q (hps q hq)]
      by_cases hs : s = incoming.side
      · subst hs
        have hqA : ∀ q ∈ A, q ≠ p := by
          rintro q hq rfl
          exact hp _ (by rw [hptrs]; exact List.mem_append_left _ hq)
        have hqB : ∀ q ∈ B, q ≠ p := by
          rintro q hq rfl
          exact hp _ (by rw [hptrs]; exact List.mem_append_right _ hq)
        have hqueue : (({ m.setQueue incoming.side (Market.join incoming.side incoming.resting
            (m.queue incoming.side)) with freeNodes := m.freeNodes - 1 } : Market).queue
              incoming.side) =
            Market.join incoming.side incoming.resting (m.queue incoming.side) := by
          cases incoming.side <;> rfl
        have hpx : incoming.resting.price = price := by simp [Order.resting, hprice]
        rw [hqueue, Market.join, h.queue, hptrs, hptrs', List.map_append, List.map_append,
          List.map_cons, hmap A hqA, hmap B hqB, hself, hpx]
        -- The store puts the node behind its level, the queue behind the orders that are no worse.
        have hbefore : ∀ y ∈ A.map fun q => (st.node q).order.resting,
            (!decide (incoming.side.Better price y.price)) = true := by
          intro y hy
          obtain ⟨q, hq, rfl⟩ := List.mem_map.mp hy
          obtain ⟨x, hx, hnb⟩ := hA q hq
          simpa [Order.resting, hx] using hnb
        have hafter : ∀ y ∈ B.map fun q => (st.node q).order.resting,
            (!decide (incoming.side.Better price y.price)) = false := by
          intro y hy
          obtain ⟨q, hq, rfl⟩ := List.mem_map.mp hy
          obtain ⟨x, hx, hb⟩ := hB q hq
          simpa [Order.resting, hx] using hb
        rw [List.takeWhile_append_of_pos hbefore, List.dropWhile_append_of_pos hbefore]
        cases hB' : B.map fun q => (st.node q).order.resting with
        | nil => simp
        | cons y ys =>
          have hy := hafter y (by simp [hB'])
          rw [List.takeWhile_cons_of_neg (by simp [hy]), List.dropWhile_cons_of_neg (by simp [hy]),
            List.append_nil]
      · have hqueue : (({ m.setQueue incoming.side (Market.join incoming.side incoming.resting
            (m.queue incoming.side)) with freeNodes := m.freeNodes - 1 } : Market).queue s) =
            m.queue s := by
          cases hi : incoming.side <;> cases s <;> first | rfl | exact absurd hi.symm hs
        rw [hqueue, h.queue, hother s hs]
        exact (hmap _ fun q hq => by rintro rfl; exact hp s hq).symm
    · simp [hfree]
    · cases incoming.side <;> exact ⟨rfl, rfl, rfl⟩

/-! ## Trading with the head of a queue -/

/-- The passive side of a fill: the writes of `addFilled` and `reduceResting`. -/
theorem order_fill (st : Store) (p q : Ptr) (quantity : ℤ) :
    (((st.addFilled p quantity).reduceResting p quantity).node q).order =
      if q = p then
        { (st.node p).order with
          quantity := (st.node p).order.quantity - quantity
          filled := (st.node p).order.filled + quantity }
      else (st.node q).order := by
  rw [node_reduceResting, node_addFilled, if_pos rfl, node_addFilled]
  split_ifs <;> rfl

/-- A fill that leaves the head of a queue with something. -/
theorem Queues.fill (h : st.Queues m L free) {side : Side} {p : Ptr} {ps : List Ptr}
    {x : RestingOrder} {xs : List RestingOrder} (hptrs : L.ptrs side = p :: ps)
    (hqueue : m.queue side = x :: xs) (quantity : ℤ) :
    ((st.addFilled p quantity).reduceResting p quantity).Queues
      (m.setQueue side
        ({ x with quantity := x.quantity - quantity, filled := x.filled + quantity } :: xs)) L free := by
  have hp : p ∈ L.ptrs side := by simp [hptrs]
  have hshape := shape_reduceResting (shape_addFilled h.shape p quantity) hp quantity
  -- A fill writes to one node, so what is read of the others is the same.
  have hkeep : ∀ ps : List Ptr, p ∉ ps →
      ps.map (fun q => (((st.addFilled p quantity).reduceResting p quantity).node q).order.resting) =
        ps.map fun q => (st.node q).order.resting := fun ps hps =>
    List.map_congr_left fun q hq => by
      rw [order_fill, if_neg (by rintro rfl; exact hps hq)]
  have hx : x = (st.node p).order.resting ∧ xs = ps.map fun q => (st.node q).order.resting := by
    have := h.queue side
    rw [hqueue, hptrs, List.map_cons] at this
    exact List.cons.inj this
  refine ⟨hshape, fun s => ?_, ?_⟩
  · by_cases hs : s = side
    · subst hs
      have hnd := h.shape.ptrs_nodup s
      rw [hptrs] at hnd
      have hset : (m.setQueue s ({ x with
          quantity := x.quantity - quantity, filled := x.filled + quantity } :: xs)).queue s =
          { x with quantity := x.quantity - quantity, filled := x.filled + quantity } :: xs := by
        cases s <;> rfl
      rw [hset, hptrs, List.map_cons, hkeep ps (List.nodup_cons.mp hnd).1, order_fill, if_pos rfl,
        hx.1, hx.2]
      rfl
    · have hset : (m.setQueue side ({ x with
          quantity := x.quantity - quantity, filled := x.filled + quantity } :: xs)).queue s =
          m.queue s := by
        cases side <;> cases s <;> first | rfl | exact absurd rfl hs
      rw [hset, h.queue, hkeep _ fun hq => hs (h.shape.side_unique hq hp)]
  · cases side <;> exact h.freeNodes

/-- A fill that takes the head of a queue off the book. -/
theorem Queues.fillOff (h : st.Queues m L free) {side : Side} {p : Ptr} {ps : List Ptr}
    {x : RestingOrder} {xs : List RestingOrder} (hptrs : L.ptrs side = p :: ps)
    (hqueue : m.queue side = x :: xs) (quantity : ℤ) :
    ∃ L', (((st.addFilled p quantity).reduceResting p quantity).removeResting p).Queues
        { m.setQueue side xs with freeNodes := m.freeNodes + 1 } L' (p :: free) ∧
      L'.ptrs side = ps ∧
      ∀ q, q ≠ p → ((((st.addFilled p quantity).reduceResting p quantity).removeResting p).node q).order =
        (st.node q).order := by
  have hp : p ∈ L.ptrs side := by simp [hptrs]
  obtain ⟨L', hshape, herase, horder⟩ :=
    shape_removeResting (shape_reduceResting (shape_addFilled h.shape p quantity) hp quantity) hp
  have hptrs' : L'.ptrs side = ps := by rw [herase, hptrs, List.erase_cons_head]
  have hne : ∀ q, q ≠ p →
      ((((st.addFilled p quantity).reduceResting p quantity).removeResting p).node q).order =
        (st.node q).order := fun q hq => by
    rw [horder, order_fill, if_neg hq]
  refine ⟨L', ⟨hshape, fun s => ?_, ?_⟩, hptrs', hne⟩
  -- The freed node is in no queue any more.
  · have hnotin : p ∉ L'.ptrs s := by
      rw [herase]
      exact (h.shape.ptrs_nodup s).not_mem_erase
    rw [List.map_congr_left fun q hq => by rw [hne q (by rintro rfl; exact hnotin hq)]]
    by_cases hs : s = side
    · subst hs
      have hset : ({ m.setQueue s xs with freeNodes := m.freeNodes + 1 } : Market).queue s = xs := by
        cases s <;> rfl
      have := h.queue s
      rw [hqueue, hptrs, List.map_cons] at this
      rw [hset, hptrs']
      exact (List.cons.inj this).2
    · have hset : ({ m.setQueue side xs with freeNodes := m.freeNodes + 1 } : Market).queue s =
          m.queue s := by
        cases side <;> cases s <;> first | rfl | exact absurd rfl hs
      rw [hset, h.queue, herase, List.erase_of_not_mem fun hq => hs (h.shape.side_unique hq hp)]
  · cases side <;> simp [h.freeNodes]

end Store

end OrderBookEngine
