import OrderBookEngine.Refine.Run
import Mathlib.Algebra.Order.BigOperators.Group.List

/-!
# Depth in 64 bits

`Level::total_quantity` is an `int64_t` and `Level::order_count` a `uint32_t`. Both are only ever added to
and subtracted from, so what the machine stores is the exact total modulo `2^64` and the exact count modulo
`2^32`. Nothing checks that they fit: the quantities that rest at one price are bounded one by one only.
`depth_true_iff` says that depth is right, and that no total overflows, in exactly the books whose price
groups fit.
-/

namespace OrderBookEngine

/-- One price level of a depth snapshot. -/
structure DepthLevel where
  /-- The price. -/
  price : ℤ
  /-- The quantity that rests at it. -/
  quantity : Int64
  /-- The number of orders that rest at it. -/
  orderCount : UInt32
deriving DecidableEq

/-- The depth of a book, as of an event. -/
structure DepthSnapshot where
  /-- The number of the last event. -/
  asOfSequence : ℕ
  /-- The best levels of the bids. -/
  bids : List DepthLevel
  /-- The best levels of the asks. -/
  asks : List DepthLevel
deriving DecidableEq

/-- The first levels of a side. -/
def Store.depthLevels (st : Store) (maxLevels : ℕ) (side : Side) : List DepthLevel :=
  ((st.sideMap side).entries.take maxLevels).map fun e =>
    { price := e.1, quantity := Int64.ofInt e.2.totalQuantity, orderCount := e.2.orderCount }

/-- `Book::depth`. -/
def Book.depth (b : Book) (maxLevels : ℕ) : DepthSnapshot where
  asOfSequence := b.nextSeq - 1
  bids := b.depthLevels maxLevels .buy
  asks := b.depthLevels maxLevels .sell

/-! ## Price groups -/

/-- The orders at a price. -/
def ordersAt (orders : List RestingOrder) (p : ℤ) : List RestingOrder :=
  orders.filter fun x => x.price = p

/-- The quantity that rests at a price. -/
def quantityAt (orders : List RestingOrder) (p : ℤ) : ℤ :=
  ((ordersAt orders p).map RestingOrder.quantity).sum

/-- The prices of a side's orders, best first. -/
structure PricesOf (side : Side) (orders : List RestingOrder) (prices : List ℤ) : Prop where
  /-- The prices stand best first. -/
  sorted : prices.Pairwise side.Better
  /-- They are the prices at which orders rest. -/
  mem : ∀ p, p ∈ prices ↔ ∃ x ∈ orders, x.price = p

/-- A level tells the truth about the orders at a price. -/
structure DepthLevel.Tells (level : DepthLevel) (orders : List RestingOrder) (p : ℤ) : Prop where
  /-- It has the price. -/
  price : level.price = p
  /-- Its quantity is the sum of the orders' quantities. -/
  quantity : level.quantity.toInt = quantityAt orders p
  /-- Its quantity is positive. -/
  pos : 0 < level.quantity.toInt
  /-- Its count is the number of orders. -/
  orderCount : level.orderCount.toNat = (ordersAt orders p).length

/-- The price groups of a side fit: their quantities in 64 bits, and their sizes in 32. -/
def GroupsFit (orders : List RestingOrder) : Prop :=
  ∀ p, quantityAt orders p < 2 ^ 63 ∧ (ordersAt orders p).length < 2 ^ 32

namespace Book

/-- Depth lists the best price groups of the snapshot, whatever `maxLevels` is, and the totals that it reads
have not overflowed. -/
structure DepthTrue (b : Book) : Prop where
  /-- The levels reported are those of the best prices. -/
  levels : ∀ side, ∃ prices, PricesOf side (b.collect side) prices ∧
    ∀ maxLevels, List.Forall₂ (fun level p => level.Tells (b.collect side) p)
      (b.depthLevels maxLevels side) (prices.take maxLevels)
  /-- No total has overflowed. -/
  totals : ∀ side, ∀ e ∈ (b.sideMap side).entries, e.2.totalQuantity < 2 ^ 63

/-- A book that a run reaches: after its last call, or inside a call after the walk of an order, which is
where orders have come to rest. -/
def Reaches (cfg : Config) (calls : List Call) (b : Book) : Prop :=
  b = (Book.make cfg).run calls ∨
    ∃ e ∈ (Book.make cfg).runEntries calls, b = (e.state.walk e.order e.now).1

end Book

/-! ## Levels and groups -/

namespace Store

variable {st : Store} {L : Layout} {free : List Ptr}

/-- The orders at the price of a level are its nodes'. -/
theorem Shape.ordersAt_eq (h : st.Shape L free) {side : Side} {l : ℤ × List Ptr} (hl : l ∈ L side) :
    ordersAt (st.collect side) l.1 = l.2.map fun p => (st.node p).order.resting := by
  obtain ⟨before, after, hcut⟩ := List.append_of_mem hl
  have hsorted := h.sorted side
  have hprice : ∀ k ∈ L side, ∀ p ∈ k.2, (st.node p).order.resting.price = k.1 := fun k hk p hp => by
    simp [Order.resting, (h.rests side k hk p hp).price]
  -- The other levels have other prices.
  have hother : ∀ k ∈ L side, k.1 ≠ l.1 →
      (k.2.map fun p => (st.node p).order.resting).filter (fun x => x.price = l.1) = [] := by
    intro k hk hne
    refine List.filter_eq_nil_iff.mpr fun x hx => ?_
    obtain ⟨p, hp, rfl⟩ := List.mem_map.mp hx
    simpa [hprice k hk p hp] using hne
  have hself : (l.2.map fun p => (st.node p).order.resting).filter (fun x => x.price = l.1) =
      l.2.map fun p => (st.node p).order.resting := by
    refine List.filter_eq_self.mpr fun x hx => ?_
    obtain ⟨p, hp, rfl⟩ := List.mem_map.mp hx
    simpa using hprice l hl p hp
  rw [hcut] at hsorted
  obtain ⟨-, hafter, hbefore⟩ := List.pairwise_append.mp hsorted
  have hbefore' : ∀ k ∈ before, k.1 ≠ l.1 := fun k hk heq => by
    have hbetter := hbefore k hk l List.mem_cons_self
    rw [heq] at hbetter
    exact irrefl_of side.Better _ hbetter
  have hafter' : ∀ k ∈ after, k.1 ≠ l.1 := fun k hk heq => by
    have hbetter := (List.pairwise_cons.mp hafter).1 k hk
    rw [heq] at hbetter
    exact irrefl_of side.Better _ hbetter
  unfold ordersAt
  rw [h.collect_eq, Layout.ptrs, List.map_flatMap, List.filter_flatMap, hcut, List.flatMap_append,
    List.flatMap_cons, hself,
    List.flatMap_eq_nil_iff.mpr fun k hk => hother k (by simp [hcut, hk]) (hbefore' k hk),
    List.flatMap_eq_nil_iff.mpr fun k hk => hother k (by simp [hcut, hk]) (hafter' k hk),
    List.nil_append, List.append_nil]

/-- The levels of a side are at the prices of its orders. -/
theorem Shape.pricesOf (h : st.Shape L free) (side : Side) :
    PricesOf side (st.collect side) ((L side).map Prod.fst) where
  sorted := List.pairwise_map.mpr (h.sorted side)
  mem p := by
    have hprice : ∀ k ∈ L side, ∀ p ∈ k.2, (st.node p).order.resting.price = k.1 := fun k hk p hp => by
      simp [Order.resting, (h.rests side k hk p hp).price]
    rw [h.collect_eq]
    constructor
    · intro hp
      obtain ⟨l, hl, rfl⟩ := List.mem_map.mp hp
      obtain ⟨q, qs, hq⟩ := List.exists_cons_of_ne_nil (h.nonempty side l hl)
      have hmem : q ∈ l.2 := by simp [hq]
      exact ⟨_, List.mem_map_of_mem (mem_ptrs.mpr ⟨l, hl, hmem⟩), hprice l hl q hmem⟩
    · rintro ⟨x, hx, rfl⟩
      obtain ⟨q, hq, rfl⟩ := List.mem_map.mp hx
      obtain ⟨l, hl, hql⟩ := mem_ptrs.mp hq
      exact List.mem_map.mpr ⟨l, hl, (hprice l hl q hql).symm⟩

/-- The total of a level is the quantity at its price. -/
theorem Shape.totalQuantity_eq (h : st.Shape L free) {side : Side} {l : ℤ × List Ptr}
    (hl : l ∈ L side) : (st.levelOf l).totalQuantity = quantityAt (st.collect side) l.1 := by
  unfold quantityAt
  rw [h.ordersAt_eq hl, List.map_map]
  rfl

/-- The count of a level is the number of orders at its price, modulo `2^32`. -/
theorem Shape.orderCount_eq (h : st.Shape L free) {side : Side} {l : ℤ × List Ptr}
    (hl : l ∈ L side) :
    (st.levelOf l).orderCount = UInt32.ofNat (ordersAt (st.collect side) l.1).length := by
  rw [h.ordersAt_eq hl, List.length_map]
  rfl

end Store

namespace Book

variable {b : Book} {m : Market}

/-- What a side's orders at one price add up to. -/
theorem quantityAt_pos {orders : List RestingOrder} (hpos : ∀ x ∈ orders, 0 < x.quantity) {p : ℤ}
    (h : ∃ x ∈ orders, x.price = p) : 0 < quantityAt orders p := by
  have hall : ∀ q ∈ (ordersAt orders p).map RestingOrder.quantity, 0 < q := by
    intro q hq
    obtain ⟨x, hx, rfl⟩ := List.mem_map.mp hq
    exact hpos x (List.mem_of_mem_filter hx)
  obtain ⟨x, hx, hxp⟩ := h
  have hne : (ordersAt orders p).map RestingOrder.quantity ≠ [] := by
    have hmem : x ∈ ordersAt orders p := List.mem_filter.mpr ⟨hx, by simpa using hxp⟩
    exact fun hnil => List.ne_nil_of_mem hmem (List.map_eq_nil_iff.mp hnil)
  exact List.sum_pos _ hall hne

/-- **Depth.** A book's depth is true if and only if its price groups fit. -/
theorem depthTrue_iff (h : b.Represents m) (hpos : ∀ side, ∀ x ∈ m.queue side, 0 < x.quantity) :
    DepthTrue b ↔ ∀ side, GroupsFit (b.collect side) := by
  obtain ⟨L, free, K, hrep⟩ := h
  have hshape := hrep.queues.shape
  have hpos' : ∀ side, ∀ x ∈ b.collect side, 0 < x.quantity := by
    intro side x hx
    rw [Represents.collect_eq ⟨L, free, K, hrep⟩] at hx
    exact hpos side x hx
  have hprices : ∀ side, PricesOf side (b.collect side) ((L side).map Prod.fst) := hshape.pricesOf
  have hnone : ∀ side p, (¬ ∃ x ∈ b.collect side, x.price = p) → ordersAt (b.collect side) p = [] :=
    fun side p hp => List.filter_eq_nil_iff.mpr fun x hx => by simpa using fun hxp => hp ⟨x, hx, hxp⟩
  constructor
  · rintro ⟨hlevels, htotals⟩ side p
    by_cases hp : ∃ x ∈ b.collect side, x.price = p
    · obtain ⟨l, hl, rfl⟩ := List.mem_map.mp (((hprices side).mem p).mpr hp)
      have htotal := htotals side (l.1, b.levelOf l) (by
        rw [hshape.entries]
        exact List.mem_map_of_mem hl)
      rw [hshape.totalQuantity_eq hl] at htotal
      obtain ⟨prices, hprices', hdepth⟩ := hlevels side
      -- With all the levels listed, one is at this price.
      have hall := hdepth prices.length
      rw [List.take_length] at hall
      obtain ⟨level, -, htells⟩ := exists_of_forall₂ hall.flip ((hprices'.mem l.1).mpr hp)
      refine ⟨htotal, ?_⟩
      rw [← htells.orderCount]
      exact level.orderCount.toNat_lt
    · rw [quantityAt, hnone side p hp]
      simp
  · intro hfit
    have hlevel : ∀ side, ∀ l ∈ L side, (b.levelOf l).totalQuantity < 2 ^ 63 ∧
        0 < (b.levelOf l).totalQuantity := by
      intro side l hl
      rw [hshape.totalQuantity_eq hl]
      exact ⟨(hfit side l.1).1, quantityAt_pos (hpos' side)
        (((hprices side).mem l.1).mp (List.mem_map_of_mem hl))⟩
    refine ⟨fun side => ⟨_, hprices side, fun maxLevels => ?_⟩, fun side e he => ?_⟩
    · unfold Store.depthLevels
      rw [hshape.entries, ← List.map_take, ← List.map_take, List.map_map, List.forall₂_map_left_iff,
        List.forall₂_map_right_iff, List.forall₂_same]
      intro l hl
      have hl := List.mem_of_mem_take hl
      obtain ⟨hlt, hgt⟩ := hlevel side l hl
      have hexact : (Int64.ofInt (b.levelOf l).totalQuantity).toInt = (b.levelOf l).totalQuantity :=
        Int64.toInt_ofInt_of_le (by omega) hlt
      refine ⟨rfl, hexact.trans (hshape.totalQuantity_eq hl), hexact.symm ▸ hgt, ?_⟩
      show (b.levelOf l).orderCount.toNat = _
      rw [hshape.orderCount_eq hl]
      exact UInt32.toNat_ofNat_of_lt' (hfit side l.1).2
    · rw [hshape.entries] at he
      obtain ⟨l, hl, rfl⟩ := List.mem_map.mp he
      exact (hlevel side l hl).1

/-- What a run reaches represents a market whose orders have positive quantities. -/
theorem Reaches.represents {cfg : Config} {calls : List Call} (h : Reaches cfg calls b)
    (hfits : ((Book.make cfg).run calls).Fits) :
    ∃ m, b.Represents m ∧ ∀ side, ∀ x ∈ m.queue side, 0 < x.quantity := by
  rcases h with rfl | ⟨e, he, rfl⟩
  · have hwf := (reachable_run cfg calls).wf
    exact ⟨_, (run_refines cfg calls hfits).represents, fun side x hx => ((hwf.side side).pos x hx).1⟩
  · obtain ⟨e', hsame, hreach⟩ := exists_entry cfg calls hfits he
    have hsettled := (Market.walk_steps e'.now hreach.wf).1.steps.wf hreach.wf
    exact ⟨_, hsame.walk.1, fun side x hx => ((hsettled.1.side side).pos x hx).1⟩

/-- **Depth tells the truth while the groups fit.** In every book that a run reaches, also inside a call,
depth lists the best price groups with their exact quantities and counts, and no total has overflowed, if
and only if the orders at no price add up to `2^63` or number `2^32`. -/
theorem depth_true_iff (cfg : Config) (calls : List Call)
    (hfits : ((Book.make cfg).run calls).Fits) :
    ∀ b, Reaches cfg calls b → (DepthTrue b ↔ ∀ side, GroupsFit (b.collect side)) := by
  intro b hb
  obtain ⟨m, hrep, hpos⟩ := hb.represents hfits
  exact depthTrue_iff hrep hpos

/-- Bids for the same quantity at the same price. -/
def bidsFor (quantity : ℤ) : List Call :=
  [.addOrder { id := 1, ownerId := 1, side := .buy, type := .limit, price := some 100, quantity } 0,
   .addOrder { id := 2, ownerId := 1, side := .buy, type := .limit, price := some 100, quantity } 0]

/-- Two bids for 5. -/
theorem depth_true_iff_of_bids :
    let b := (Book.make { poolCapacity := 4 }).run (bidsFor 5)
    DepthTrue b ↔ ∀ side, GroupsFit (b.collect side) :=
  depth_true_iff { poolCapacity := 4 } (bidsFor 5) (fits_run rfl _) _ (Or.inl rfl)

/-- Two bids for `2^62` overflow the total of their level, and depth shows a negative quantity. -/
theorem depth_overflows :
    let b := (Book.make { poolCapacity := 4 }).run (bidsFor (2 ^ 62))
    (b.depth 1).bids.map (fun level => level.quantity.toInt) = [-2 ^ 63] ∧ ¬ DepthTrue b := by
  have hnegative : (((Book.make { poolCapacity := 4 }).run (bidsFor (2 ^ 62))).depth 1).bids.map
      (fun level => level.quantity.toInt) = [-2 ^ 63] := by decide +kernel
  have htotal : ∃ e ∈ (((Book.make { poolCapacity := 4 }).run (bidsFor (2 ^ 62))).sideMap .buy).entries,
      e.2.totalQuantity = 2 ^ 63 := by decide +kernel
  refine ⟨hnegative, fun h => ?_⟩
  obtain ⟨e, he, htotal⟩ := htotal
  have hfits := h.totals .buy e he
  omega

end Book

end OrderBookEngine
