import OrderBookEngine.Properties.Depth

/-!
# The representation of a book

`Book.Intact` says of a book what its audit looks for, and more: the levels and their links, the running
totals, both indexes, the keys of the stops, and the pool, whose nodes rest or are free. It speaks of the
fields alone, and of the nodes that a loop over the links visits. Every run keeps it
(`representation_intact`).

One of its fields is weaker than the comments on the store: `Level::order_count` is a `uint32_t`, and the
code counts modulo `2^32`. `Book.Exact` asks for the exact count, as `depth` and the audit do. A run leaves
an exact book if and only if fewer than `2^32` orders rest at any one price (`representation_exact_iff`);
with `2^32` of them the count is zero (`order_count_wraps`).
-/

namespace OrderBookEngine

namespace Store

/-- The nodes of a side, level by level. -/
def restingNodes (st : Store) (side : Side) : List Ptr :=
  (st.sideMap side).entries.flatMap fun e => st.levelNodes e.2

/-- The nodes that the free list threads. -/
def freeNodes (st : Store) : List Ptr :=
  follow (fun p => (st.node p).next) st.nodePool.capacity st.nodePool.freeHead

/-- A level under its key. -/
structure LevelIntact (st : Store) (side : Side) (price : ℤ) (level : Level) : Prop where
  /-- It has a node. -/
  nonempty : st.levelNodes level ≠ []
  /-- It has the price of its key. -/
  key : level.price = price
  /-- Its head is the first node. -/
  head : level.head = (st.levelNodes level).head?
  /-- Its tail is the last node. -/
  tail : level.tail = (st.levelNodes level).getLast?
  /-- The nodes are linked in both directions. -/
  linked : Linked (fun p => (st.node p).next) (fun p => (st.node p).prev) (st.levelNodes level)
  /-- Every node knows the level, and its order is open at the level's price. -/
  nodes : ∀ p ∈ st.levelNodes level, (st.node p).level = some { side, price } ∧
    (st.node p).order.side = side ∧ (st.node p).order.price = some price ∧ 0 < (st.node p).order.quantity
  /-- The total is the sum of the orders' quantities. -/
  totalQuantity : level.totalQuantity = ((st.levelNodes level).map fun p => (st.node p).order.quantity).sum
  /-- The count has 32 bits. -/
  orderCount : level.orderCount.toNat = (st.levelNodes level).length % 2 ^ 32

end Store

/-- What holds of a book between two calls. -/
structure Book.Intact (b : Book) : Prop where
  /-- Every level is intact. -/
  levels : ∀ side, ∀ e ∈ (b.sideMap side).entries, b.LevelIntact side e.1 e.2
  /-- The index finds exactly the resting nodes, by their orders' ids. -/
  idIndex : ∀ id p, b.idIndex id = some p ↔
    (∃ side, p ∈ b.restingNodes side) ∧ (b.node p).order.id = id
  /-- Every stop is under the key of its side and price. -/
  stopKeys : ∀ side, ∀ e ∈ (b.stopsFor side).entries, e.2.side = side ∧ e.1.1 = e.2.stopPrice
  /-- The index finds exactly the dormant stops. -/
  stopIndex : ∀ id location, b.stopIndex id = some location ↔
    ∃ stop, (location.key, stop) ∈ (b.stopsFor location.side).entries ∧ stop.id = id
  /-- No priority is given twice. -/
  priorities : ((b.sellStops.entries ++ b.buyStops.entries).map fun e => e.1.2).Nodup
  /-- No stop is woken. -/
  triggeredStops : b.triggeredStops = []
  /-- No drain loop is running. -/
  drainingStops : b.drainingStops = false
  /-- The free nodes are threaded. -/
  free : Threaded (fun p => (b.node p).next) b.nodePool.freeHead b.freeNodes
  /-- Every node of the pool rests or is free, and only once. -/
  pool : (b.restingNodes .buy ++ b.restingNodes .sell ++ b.freeNodes).Perm
    (List.range b.nodePool.capacity)
  /-- The pool is exhausted exactly when all of its nodes rest. -/
  acquire : b.nodePool.acquire = none ↔
    (b.restingNodes .buy ++ b.restingNodes .sell).length = b.nodePool.capacity

/-- An intact book whose levels count their orders exactly. -/
structure Book.Exact (b : Book) : Prop extends b.Intact where
  /-- The running count equals the real one. -/
  counts : ∀ side, ∀ e ∈ (b.sideMap side).entries, e.2.orderCount.toNat = (b.levelNodes e.2).length

namespace Store

variable {st : Store} {L : Layout} {free : List Ptr}

/-! ## The layout of an intact store -/

/-- The nodes of a side are those of the shape. -/
theorem Shape.restingNodes_eq (h : st.Shape L free) (side : Side) : st.restingNodes side = L.ptrs side := by
  unfold restingNodes Layout.ptrs
  rw [h.entries, List.flatMap_map]
  exact List.flatMap_congr fun l hl => h.levelNodes_levelOf hl

/-- The free nodes are those of the shape. -/
theorem Shape.freeNodes_eq (h : st.Shape L free) : st.freeNodes = free := by
  have hlength := h.perm.length_eq
  rw [List.length_append, List.length_range] at hlength
  exact h.threaded.follow_eq (by omega)

/-- Every level of the shape is intact, if nothing rests without a quantity. -/
theorem Shape.levelIntact (h : st.Shape L free) {side : Side}
    (hpos : ∀ p ∈ L.ptrs side, 0 < (st.node p).order.quantity) {l : ℤ × List Ptr} (hl : l ∈ L side) :
    st.LevelIntact side l.1 (st.levelOf l) := by
  have hnodes : st.levelNodes (st.levelOf l) = l.2 := h.levelNodes_levelOf hl
  constructor
  case nonempty => exact hnodes ▸ h.nonempty side l hl
  case key => rfl
  case head => rw [hnodes]; rfl
  case tail => rw [hnodes]; rfl
  case linked => exact hnodes ▸ h.linked side l hl
  case nodes =>
    rw [hnodes]
    intro p hp
    obtain ⟨hlevel, hside, -, hprice⟩ := h.rests side l hl p hp
    exact ⟨hlevel, hside, hprice, hpos p (mem_ptrs.mpr ⟨l, hl, hp⟩)⟩
  case totalQuantity => rw [hnodes]; rfl
  case orderCount =>
    rw [hnodes]
    exact UInt32.toNat_ofNat'

/-- The pool has run out exactly if every node rests. -/
theorem Shape.acquire_eq_none (h : st.Shape L free) :
    st.nodePool.acquire = none ↔ (L.ptrs .buy ++ L.ptrs .sell).length = st.nodePool.capacity := by
  have hlength := h.perm.length_eq
  rw [List.length_append, List.length_range] at hlength
  have hhead := h.threaded.head_eq
  unfold NodePool.acquire
  rw [hhead]
  cases free with
  | nil => exact iff_of_true rfl (by simpa using hlength)
  | cons p free =>
    refine iff_of_false (fun hnone => by cases hnone) fun hfull => ?_
    rw [List.length_cons] at hlength
    omega

end Store

namespace StopBook

variable {sb : StopBook} {K : List (ℤ × StopOrder)}

/-- The index finds the stops of the two maps. -/
theorem Lists.stopIndex_iff (h : sb.Lists K) (id : OrderId) (location : StopLocation) :
    sb.stopIndex id = some location ↔
      ∃ stop, (location.key, stop) ∈ (sb.stopsFor location.side).entries ∧ stop.id = id := by
  rw [h.index]
  constructor
  · rintro ⟨e, he, hid, rfl⟩
    exact ⟨e.2, (h.entries _ _ _).mpr ⟨rfl, rfl, he⟩, hid⟩
  · rintro ⟨stop, hstop, hid⟩
    obtain ⟨hside, hprice, hmem⟩ := (h.entries _ _ _).mp hstop
    refine ⟨_, hmem, hid, ?_⟩
    obtain ⟨side, price, priority⟩ := location
    obtain rfl : stop.side = side := hside
    obtain rfl : price = stop.stopPrice := hprice
    rfl

/-- The listed stops have different priorities. -/
theorem Lists.priorities_nodup (h : sb.Lists K) :
    ((sb.sellStops.entries ++ sb.buyStops.entries).map fun e => e.1.2).Nodup := by
  have hperm := h.perm.map Prod.fst
  rw [List.map_map] at hperm
  refine hperm.nodup_iff.mpr ?_
  rw [List.Nodup, List.pairwise_map]
  exact h.sorted.imp fun hlt => ne_of_lt hlt

end StopBook

namespace Book

variable {b : Book} {m : Market}

/-- A book that stands for a market with nothing woken and positive quantities is intact. -/
theorem Refines.intact (h : b.Refines m) (hpos : ∀ side, ∀ x ∈ m.queue side, 0 < x.quantity) :
    b.Intact := by
  obtain ⟨⟨L, free, K, hrep⟩, hfifo, hdraining⟩ := h
  have hshape := hrep.queues.shape
  -- The orders of the levels are those of the queues.
  have hpos' : ∀ side, ∀ p ∈ L.ptrs side, 0 < (b.node p).order.quantity := by
    intro side p hp
    have hmem := List.mem_map_of_mem (f := fun p => (b.node p).order.resting) hp
    rw [← hrep.queues.queue] at hmem
    exact hpos side _ hmem
  constructor
  case levels =>
    intro side e he
    rw [hshape.entries] at he
    obtain ⟨l, hl, rfl⟩ := List.mem_map.mp he
    exact hshape.levelIntact (hpos' side) hl
  case idIndex =>
    intro id p
    rw [hshape.index]
    simp only [hshape.restingNodes_eq]
  case stopKeys =>
    intro side e he
    obtain ⟨hside, hprice, -⟩ := (hrep.lists.entries side e.1 e.2).mp he
    exact ⟨hside, hprice⟩
  case stopIndex => exact hrep.lists.stopIndex_iff
  case priorities => exact hrep.lists.priorities_nodup
  case triggeredStops => exact hrep.fifo.trans hfifo
  case drainingStops => exact hdraining
  case free =>
    rw [hshape.freeNodes_eq]
    exact hshape.threaded
  case pool =>
    rw [hshape.restingNodes_eq, hshape.restingNodes_eq, hshape.freeNodes_eq]
    exact hshape.perm
  case acquire =>
    rw [hshape.restingNodes_eq, hshape.restingNodes_eq]
    exact hshape.acquire_eq_none

/-- **The representation.** Every run leaves an intact book. -/
theorem representation_intact (cfg : Config) (calls : List Call)
    (hfits : ((Book.make cfg).run calls).Fits) : ((Book.make cfg).run calls).Intact :=
  (run_refines cfg calls hfits).intact fun side x hx =>
    (((reachable_run cfg calls).wf.side side).pos x hx).1

/-- The counts of the levels are exact if and only if they fit in 32 bits, price by price. -/
theorem Represents.counts_iff (h : b.Represents m) :
    (∀ side, ∀ e ∈ (b.sideMap side).entries, e.2.orderCount.toNat = (b.levelNodes e.2).length) ↔
      ∀ side p, (ordersAt (b.collect side) p).length < 2 ^ 32 := by
  obtain ⟨L, free, K, hrep⟩ := h
  have hshape := hrep.queues.shape
  -- The nodes of a level are the orders at its price, and its count is their number modulo `2^32`.
  have hlength : ∀ side, ∀ l ∈ L side,
      (b.levelNodes (b.levelOf l)).length = (ordersAt (b.collect side) l.1).length := by
    intro side l hl
    rw [hshape.levelNodes_levelOf hl, hshape.ordersAt_eq hl, List.length_map]
  have hcount : ∀ side, ∀ l ∈ L side,
      (b.levelOf l).orderCount.toNat = (ordersAt (b.collect side) l.1).length % 2 ^ 32 := by
    intro side l hl
    rw [hshape.orderCount_eq hl]
    exact UInt32.toNat_ofNat'
  constructor
  · intro hcounts side p
    by_cases hp : ∃ x ∈ b.collect side, x.price = p
    · obtain ⟨l, hl, rfl⟩ := List.mem_map.mp (((hshape.pricesOf side).mem p).mpr hp)
      have hexact := hcounts side (l.1, b.levelOf l) (by
        rw [hshape.entries]
        exact List.mem_map_of_mem hl)
      rw [← hlength side l hl, ← hexact]
      exact (b.levelOf l).orderCount.toNat_lt
    · -- Nothing rests at a price without a level.
      have hnone : ordersAt (b.collect side) p = [] :=
        List.filter_eq_nil_iff.mpr fun x hx => by simpa using fun hxp => hp ⟨x, hx, hxp⟩
      rw [hnone]
      exact Nat.two_pow_pos 32
  · intro hfew side e he
    rw [hshape.entries] at he
    obtain ⟨l, hl, rfl⟩ := List.mem_map.mp he
    rw [hcount side l hl, hlength side l hl]
    exact Nat.mod_eq_of_lt (hfew side l.1)

/-- **The representation is exact while the counts fit.** A run leaves a book with exact counts if and only
if fewer than `2^32` orders rest at any one price. -/
theorem representation_exact_iff (cfg : Config) (calls : List Call)
    (hfits : ((Book.make cfg).run calls).Fits) :
    ((Book.make cfg).run calls).Exact ↔
      ∀ side p, (ordersAt (((Book.make cfg).run calls).collect side) p).length < 2 ^ 32 := by
  have hcounts := (run_refines cfg calls hfits).represents.counts_iff
  constructor
  · intro h
    exact hcounts.mp h.counts
  · intro hfew
    exact { representation_intact cfg calls hfits with counts := hcounts.mpr hfew }

/-- A pool with room for two bids, over 64-bit priorities. -/
theorem representation_exact_of_bids :
    ((Book.make { poolCapacity := 2, priorities := .uint64 }).run (bidsFor 5)).Exact := by
  refine (representation_exact_iff _ _ (Or.inr (by decide +kernel))).mpr fun side p => ?_
  have hfew : (((Book.make { poolCapacity := 2, priorities := .uint64 }).run (bidsFor 5)).collect
      side).length ≤ 2 := by
    cases side <;> decide +kernel
  exact (List.length_filter_le _ _).trans_lt (hfew.trans_lt (by decide))

/-! ## As many bids as a count can tell -/

/-- A bid of its own id. -/
def bidNumbered (id : ℕ) : Order :=
  { id, ownerId := 1, side := .buy, type := .limit, price := some 100, quantity := 1 }

/-- What so many bids make of a market. -/
structure BidsOnly (m : Market) (room n : ℕ) : Prop where
  /-- There is no ask. -/
  asks : m.asks = []
  /-- There is no stop. -/
  stops : m.stops = []
  /-- There are as many bids. -/
  length : m.bids.length = n
  /-- They are at one price, with the first ids. -/
  bids : ∀ x ∈ m.bids, x.orderId < n ∧ x.price = 100
  /-- The market is not halted. -/
  halted : m.halted = false
  /-- The other ids have not been used. -/
  finished : ∀ id, n ≤ id → m.finishedOrders id = none
  /-- There is room for so many more. -/
  freeNodes : m.freeNodes = room

/-- One more bid rests with the others. -/
theorem BidsOnly.bid {n room : ℕ} (h : BidsOnly m (room + 1) n) :
    BidsOnly (m.call (.addOrder (bidNumbered n) 0)) room (n + 1) := by
  -- The id is new, so that the bid is accepted.
  have hunused : m.idInUse n = false := by
    unfold Market.idInUse Market.restingOrder? Market.stop?
    have hnone : m.bids.find? (fun x => x.orderId = n) = none := by
      refine List.find?_eq_none.mpr fun x hx => ?_
      simpa using (h.bids x hx).1.ne
    rw [hnone, h.asks, h.stops, h.finished n le_rfl]
    rfl
  have hvalid : m.validateNewOrder (bidNumbered n) 0 = (m.toSession, .none) := by
    unfold Session.validateNewOrder
    rw [h.halted]
    rfl
  have hadmitted : m.admitted (bidNumbered n) 0 = some (m.emit ((bidNumbered n).event .accepted 0)) := by
    unfold Market.admitted
    rw [hvalid]
    exact if_pos (by rw [show (bidNumbered n).id = n from rfl, hunused]; rfl)
  set accepted := m.emit ((bidNumbered n).event .accepted 0) with haccepted
  have hasks : accepted.queue .sell = [] := h.asks
  -- There is a free node for it.
  have hrest : accepted.restOrder (bidNumbered n) 0 =
      some ({ accepted with
        bids := Market.join .buy (bidNumbered n).resting m.bids
        freeNodes := room }.emit ((bidNumbered n).event .rested 0)) := by
    unfold Market.restOrder
    have hroom : accepted.freeNodes = room + 1 := h.freeNodes
    have hleft : accepted.freeNodes - 1 = room := by rw [hroom]; rfl
    rw [if_neg (hroom ▸ Nat.succ_ne_zero _)]
    exact congrArg (fun k => some (Market.emit { accepted with
      bids := Market.join .buy (bidNumbered n).resting m.bids
      freeNodes := k } ((bidNumbered n).event .rested 0))) hleft
  -- No ask is there to meet: the bid comes to rest, and wakes no stop.
  have hcall : m.call (.addOrder (bidNumbered n) 0) = { accepted with
        bids := Market.join .buy (bidNumbered n).resting m.bids
        freeNodes := room }.emit ((bidNumbered n).event .rested 0) := by
    show (m.enterWith Market.triggerStops (bidNumbered n) 0 true).1 = _
    rw [Market.enterWith_of_admitted _ hadmitted]
    unfold Market.walk
    rw [show (bidNumbered n).side.opposite = .sell from rfl, hasks]
    have hsome : ¬ (bidNumbered n).quantity = 0 := one_ne_zero
    have hlimit : (bidNumbered n).quantity > 0 ∧ (bidNumbered n).type = .limit := ⟨one_pos, rfl⟩
    show (Market.afterWalk _
      (Market.runOut (accepted.markIfFilled (bidNumbered n)) (bidNumbered n) [] .none 0) 0).1 = _
    unfold Market.runOut Market.markIfFilled
    rw [if_neg hsome, if_pos hlimit, hrest]
    rfl
  have hjoin := Market.join_perm .buy (bidNumbered n).resting m.bids
  rw [hcall]
  constructor
  case asks => exact h.asks
  case stops => exact h.stops
  case length =>
    show (Market.join _ _ _).length = _
    rw [hjoin.length_eq, List.length_cons, h.length]
  case bids =>
    intro x hx
    rcases List.mem_cons.mp (hjoin.mem_iff.mp hx) with rfl | hold
    · exact ⟨Nat.lt_succ_self n, rfl⟩
    · exact ⟨(h.bids x hold).1.trans (Nat.lt_succ_self n), (h.bids x hold).2⟩
  case halted => exact h.halted
  case finished => exact fun id hid => h.finished id (Nat.le_of_succ_le hid)
  case freeNodes => rfl

/-- So many bids, with room for as many. -/
theorem bidsOnly_run (n room : ℕ) :
    BidsOnly ((Market.make { poolCapacity := room + n }).run
      ((List.range n).map fun i => .addOrder (bidNumbered i) 0)) room n := by
  induction n generalizing room with
  | zero =>
    constructor
    case bids => exact fun x hx => by cases hx
    all_goals first | rfl | exact fun _ _ => rfl
  | succ n ih =>
    have hbid := (ih (room + 1)).bid
    have hroom : room + 1 + n = room + (n + 1) := by omega
    rw [hroom] at hbid
    unfold Market.run at hbid ⊢
    rw [List.range_succ, List.map_append, List.foldl_append]
    exact hbid

/-- Bids at one price share one level. -/
theorem level_of_bids {room n : ℕ} (h : b.Represents m) (hbids : BidsOnly m room n) (hn : 0 < n) :
    ∃ e ∈ (b.sideMap .buy).entries,
      (b.levelNodes e.2).length = n ∧ e.2.orderCount.toNat = n % 2 ^ 32 := by
  have hcollect : b.collect .buy = m.bids := h.collect_eq .buy
  obtain ⟨L, free, K, hrep⟩ := h
  have hshape := hrep.queues.shape
  obtain ⟨x, hx⟩ := List.exists_mem_of_length_pos (hbids.length ▸ hn)
  obtain ⟨l, hl, hprice⟩ := List.mem_map.mp
    (((hshape.pricesOf .buy).mem 100).mpr ⟨x, hcollect ▸ hx, (hbids.bids x hx).2⟩)
  have hall : ordersAt (b.collect .buy) l.1 = m.bids := by
    rw [hcollect, hprice]
    exact List.filter_eq_self.mpr fun y hy => by simpa using (hbids.bids y hy).2
  have hlength : l.2.length = n := by
    rw [← hbids.length, ← hall, hshape.ordersAt_eq hl, List.length_map]
  refine ⟨(l.1, b.levelOf l), ?_, ?_, ?_⟩
  · rw [hshape.entries]
    exact List.mem_map_of_mem hl
  · rw [hshape.levelNodes_levelOf hl, hlength]
  · rw [← hlength]
    exact UInt32.toNat_ofNat'

/-- A full pool of bids. -/
def bidRun (n : ℕ) : Book :=
  (Book.make { poolCapacity := n }).run ((List.range n).map fun i => .addOrder (bidNumbered i) 0)

/-- The run fills one level, whose count is the number of bids modulo `2^32`. -/
theorem level_of_bidRun {n : ℕ} (hn : 0 < n) : ∃ e ∈ ((bidRun n).sideMap .buy).entries,
    ((bidRun n).levelNodes e.2).length = n ∧ e.2.orderCount.toNat = n % 2 ^ 32 := by
  have hbids := bidsOnly_run n 0
  rw [Nat.zero_add] at hbids
  exact level_of_bids (run_refines _ _ (fits_run rfl _)).represents hbids hn

/-- The count of a level with `2^32` orders is zero, and the book is not exact. -/
theorem order_count_wraps :
    (∃ e ∈ ((bidRun (2 ^ 32)).sideMap .buy).entries,
      e.2.orderCount.toNat = 0 ∧ ((bidRun (2 ^ 32)).levelNodes e.2).length ≠ e.2.orderCount.toNat) ∧
      ¬ (bidRun (2 ^ 32)).Exact := by
  obtain ⟨e, he, hlength, hcount⟩ := level_of_bidRun (Nat.two_pow_pos 32)
  rw [Nat.mod_self] at hcount
  have hne : ((bidRun (2 ^ 32)).levelNodes e.2).length ≠ e.2.orderCount.toNat := by
    rw [hlength, hcount]
    exact (Nat.two_pow_pos 32).ne'
  exact ⟨⟨e, he, hcount, hne⟩, fun hexact => hne (hexact.counts .buy e he).symm⟩

end Book

end OrderBookEngine
