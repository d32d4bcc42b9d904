import OrderBookEngine.Market.Basic
import Mathlib.Algebra.BigOperators.Group.List.Basic
import Mathlib.Data.List.Perm.Basic
import Mathlib.Tactic.Ring
import Mathlib.Data.List.FinRange

/-!
# The store holds two queues of orders

`Store.Shape st L free` is the representation invariant of the store of resting orders: the maps, the
links, the running totals, the index, and the pool agree with a layout `L` (per side, the levels best
first, each with its nodes oldest first) and with the free list. The operations act on the layout as
on plain lists: `shape_addFilled` and `shape_reduceResting` for a change of quantity,
`shape_removeResting`, and `shape_restOrder`.
-/

namespace OrderBookEngine

/-- Per side, the levels best first: each with its price and its nodes, oldest first. -/
abbrev Layout := Side → List (ℤ × List Ptr)

/-- The nodes of one side in queue order. -/
def Layout.ptrs (L : Layout) (side : Side) : List Ptr := (L side).flatMap Prod.snd

namespace Store

/-- The level record that a list of nodes calls for. -/
def levelOf (st : Store) (l : ℤ × List Ptr) : Level :=
  { price := l.1, head := l.2.head?, tail := l.2.getLast?
    totalQuantity := (l.2.map fun p => (st.node p).order.quantity).sum
    orderCount := UInt32.ofNat l.2.length }

/-- The node rests on a side at a price. -/
structure RestsAt (st : Store) (side : Side) (price : ℤ) (p : Ptr) : Prop where
  /-- It knows its level. -/
  level : (st.node p).level = some { side, price }
  /-- Its order is of the level's side. -/
  side : (st.node p).order.side = side
  /-- Its order is a limit order. -/
  type : (st.node p).order.type = .limit
  /-- Its order has the level's price. -/
  price : (st.node p).order.price = some price

/-- The store agrees with a layout and a free list. -/
structure Shape (st : Store) (L : Layout) (free : List Ptr) : Prop where
  /-- The map of a side has one level for each list of nodes, with its totals. -/
  entries : ∀ side, (st.sideMap side).entries = (L side).map fun l => (l.1, st.levelOf l)
  /-- No level is empty. -/
  nonempty : ∀ side, ∀ l ∈ L side, l.2 ≠ []
  /-- The nodes of a level are linked in the order of its list. -/
  linked : ∀ side, ∀ l ∈ L side,
    Linked (fun p => (st.node p).next) (fun p => (st.node p).prev) l.2
  /-- Every node of a level rests at its price. -/
  rests : ∀ side, ∀ l ∈ L side, ∀ p ∈ l.2, st.RestsAt side l.1 p
  /-- The free nodes are threaded behind the head of the free list. -/
  threaded : Threaded (fun p => (st.node p).next) st.nodePool.freeHead free
  /-- Every node of the pool is linked in or free, and only once. -/
  perm : (L.ptrs .buy ++ L.ptrs .sell ++ free).Perm (List.range st.nodePool.capacity)
  /-- The index finds exactly the linked nodes, by their orders' ids. -/
  index : ∀ id p,
    st.idIndex id = some p ↔ (∃ side, p ∈ L.ptrs side) ∧ (st.node p).order.id = id

variable {st : Store} {L : Layout} {free : List Ptr} {p : Ptr}

/-! ## Consequences of the shape -/

/-- No node stands twice, in the levels and the free list together. -/
theorem Shape.nodup (h : st.Shape L free) : (L.ptrs .buy ++ L.ptrs .sell ++ free).Nodup :=
  h.perm.nodup_iff.mpr List.nodup_range

/-- No node is linked in twice on one side. -/
theorem Shape.ptrs_nodup (h : st.Shape L free) (side : Side) : (L.ptrs side).Nodup := by
  have hnd := (List.nodup_append.mp h.nodup).1
  cases side
  · exact (List.nodup_append.mp hnd).1
  · exact (List.nodup_append.mp hnd).2.1

/-- A linked node is not free. -/
theorem Shape.not_mem_free (h : st.Shape L free) {side : Side} {p : Ptr} (hp : p ∈ L.ptrs side) :
    p ∉ free := by
  intro hf
  have hdisj := (List.nodup_append.mp h.nodup).2.2
  refine hdisj p ?_ p hf rfl
  cases side
  · exact List.mem_append_left _ hp
  · exact List.mem_append_right _ hp

/-- No node rests on both sides. -/
theorem Shape.side_unique (h : st.Shape L free) {side side' : Side} {p : Ptr}
    (hp : p ∈ L.ptrs side) (hp' : p ∈ L.ptrs side') : side = side' := by
  have hdisj := (List.nodup_append.mp (List.nodup_append.mp h.nodup).1).2.2
  cases side <;> cases side' <;> first
    | rfl
    | exact absurd rfl (hdisj p hp p hp')
    | exact absurd rfl (hdisj p hp' p hp)

/-- The nodes of a side are those of its levels. -/
theorem mem_ptrs {side : Side} {p : Ptr} : p ∈ L.ptrs side ↔ ∃ l ∈ L side, p ∈ l.2 := by
  simp [Layout.ptrs, List.mem_flatMap]

/-- No level has more nodes than the pool. -/
theorem Shape.length_le (h : st.Shape L free) {side : Side} {l : ℤ × List Ptr} (hl : l ∈ L side) :
    l.2.length ≤ st.nodePool.capacity := by
  have hsub : l.2.Sublist (L.ptrs side) := by
    obtain ⟨before, after, hsplit⟩ := List.append_of_mem hl
    rw [Layout.ptrs, hsplit, List.flatMap_append, List.flatMap_cons]
    exact (List.sublist_append_left _ _).trans (List.sublist_append_right _ _)
  have hlen := h.perm.length_eq
  simp only [List.length_append, List.length_range] at hlen
  have := hsub.length_le
  cases side <;> omega

/-- Following the links of a level visits its nodes. -/
theorem Shape.levelNodes_levelOf (h : st.Shape L free) {side : Side} {l : ℤ × List Ptr}
    (hl : l ∈ L side) : st.levelNodes (st.levelOf l) = l.2 :=
  (h.linked side l hl).threaded.follow_eq (h.length_le hl)

/-- What a snapshot collects is the layout's orders in queue order. -/
theorem Shape.collect_eq (h : st.Shape L free) (side : Side) :
    st.collect side = (L.ptrs side).map fun p => (st.node p).order.resting := by
  rw [collect, h.entries, List.flatMap_map, Layout.ptrs, List.map_flatMap]
  refine List.flatMap_congr fun l hl => ?_
  rw [h.levelNodes_levelOf hl]
  refine List.map_congr_left fun p hp => ?_
  rw [restingAt, Order.resting, (h.rests side l hl p hp).price]
  rfl

/-- The best price is that of the queue's first order. -/
theorem Shape.best_eq (h : st.Shape L free) (side : Side) :
    st.best side = (st.collect side).head?.map RestingOrder.price := by
  rw [h.collect_eq, best, h.entries, Layout.ptrs]
  cases hL : L side with
  | nil => rfl
  | cons l ls =>
    have hl : l ∈ L side := by simp [hL]
    obtain ⟨p, ps, hps⟩ := List.exists_cons_of_ne_nil (h.nonempty side l hl)
    have hp := (h.rests side l hl p (by simp [hps])).price
    simp [hps, Order.resting, hp]

/-- The prices increase strictly, in the side's order, from level to level. -/
theorem Shape.sorted (h : st.Shape L free) (side : Side) :
    (L side).Pairwise fun a b => side.Better a.1 b.1 := by
  have := (st.sideMap side).sorted
  rw [h.entries, List.pairwise_map] at this
  exact this

/-- The layout of a side cut at a resting node. -/
theorem Shape.exists_cut (h : st.Shape L free) {side : Side} {p : Ptr} (hp : p ∈ L.ptrs side) :
    ∃ before price xs ys after, L side = before ++ (price, xs ++ p :: ys) :: after ∧
      ∀ l ∈ before ++ after, p ∉ l.2 := by
  obtain ⟨⟨price, nodes⟩, hl, hpl⟩ := mem_ptrs.mp hp
  obtain ⟨before, after, hsplit⟩ := List.append_of_mem hl
  obtain ⟨xs, ys, rfl⟩ := List.append_of_mem hpl
  refine ⟨before, price, xs, ys, after, hsplit, fun l hl hmem => ?_⟩
  have hnd := h.ptrs_nodup side
  rw [Layout.ptrs, hsplit, List.flatMap_append, List.flatMap_cons] at hnd
  obtain ⟨-, hcons, hcross⟩ := List.nodup_append.mp hnd
  rcases List.mem_append.mp hl with hl | hl
  · exact hcross p (List.mem_flatMap.mpr ⟨l, hl, hmem⟩) p (by simp) rfl
  · exact (List.nodup_append.mp hcons).2.2 p (by simp) p (List.mem_flatMap.mpr ⟨l, hl, hmem⟩) rfl

/-- The totals of a level depend only on the quantities of its nodes. -/
theorem levelOf_congr {st' : Store} {l : ℤ × List Ptr}
    (h : ∀ p ∈ l.2, (st'.node p).order.quantity = (st.node p).order.quantity) :
    st'.levelOf l = st.levelOf l := by
  rw [levelOf, levelOf, List.map_congr_left h]

/-- The entries of a side whose layout is cut at a level. -/
theorem Shape.entries_cut (h : st.Shape L free) {side : Side} {before after : List (ℤ × List Ptr)}
    {l : ℤ × List Ptr} (hcut : L side = before ++ l :: after) :
    (st.sideMap side).entries =
      before.map (fun l => (l.1, st.levelOf l)) ++ (l.1, st.levelOf l) ::
        after.map fun l => (l.1, st.levelOf l) := by
  rw [h.entries, hcut, List.map_append, List.map_cons]

/-! ## Changing an order in place -/

/-- A store with the same links, index, and pool has the same shape once its totals agree. -/
theorem Shape.of_same_links {st' : Store} (h : st.Shape L free)
    (hent : ∀ side, (st'.sideMap side).entries = (L side).map fun l => (l.1, st'.levelOf l))
    (hnext : ∀ p, (st'.node p).next = (st.node p).next)
    (hprev : ∀ p, (st'.node p).prev = (st.node p).prev)
    (hlevel : ∀ p, (st'.node p).level = (st.node p).level)
    (hside : ∀ p, (st'.node p).order.side = (st.node p).order.side)
    (htype : ∀ p, (st'.node p).order.type = (st.node p).order.type)
    (hprice : ∀ p, (st'.node p).order.price = (st.node p).order.price)
    (hid : ∀ p, (st'.node p).order.id = (st.node p).order.id)
    (hidx : st'.idIndex = st.idIndex) (hcap : st'.nodePool.capacity = st.nodePool.capacity)
    (hfree : st'.nodePool.freeHead = st.nodePool.freeHead) : st'.Shape L free where
  entries := hent
  nonempty := h.nonempty
  linked side l hl := (h.linked side l hl).congr (fun p _ => hnext p) fun p _ => hprev p
  rests side l hl p hp :=
    have hr := h.rests side l hl p hp
    ⟨by rw [hlevel, hr.level], by rw [hside, hr.side], by rw [htype, hr.type],
      by rw [hprice, hr.price]⟩
  threaded := by
    rw [hfree]
    exact h.threaded.congr fun p _ => hnext p
  perm := by rw [hcap]; exact h.perm
  index id p := by rw [hidx, hid]; exact h.index id p

/-- `addFilled` writes one field of one order. -/
theorem node_addFilled (st : Store) (p q : Ptr) (quantity : ℤ) :
    (st.addFilled p quantity).node q =
      if q = p then
        { st.node p with
          order := { (st.node p).order with filled := (st.node p).order.filled + quantity } }
      else st.node q := by
  rw [addFilled, node_setNode]

/-- An executed quantity does not change the shape. -/
theorem shape_addFilled (h : st.Shape L free) (p : Ptr) (quantity : ℤ) :
    (st.addFilled p quantity).Shape L free := by
  have hq : ∀ q, ((st.addFilled p quantity).node q).order.quantity = (st.node q).order.quantity := by
    intro q
    rw [node_addFilled]
    split_ifs with hqp
    · subst hqp; rfl
    · rfl
  refine h.of_same_links ?_ ?_ ?_ ?_ ?_ ?_ ?_ ?_ rfl rfl rfl
  · intro side
    rw [addFilled, sideMap_setNode, h.entries]
    exact List.map_congr_left fun l _ => by
      rw [← addFilled, levelOf_congr fun q _ => hq q]
  all_goals
    intro q
    rw [node_addFilled]
    split_ifs with hqp
    · subst hqp; rfl
    · rfl

/-- `reduceResting` writes one field of one order, and its level's total. -/
theorem node_reduceResting (st : Store) (p q : Ptr) (by' : ℤ) :
    (st.reduceResting p by').node q =
      if q = p then
        { st.node p with
          order := { (st.node p).order with quantity := (st.node p).order.quantity - by' } }
      else st.node q := by
  rw [reduceResting, node_setNode]
  cases (st.node p).level <;> simp

/-- Neither does a smaller quantity, with the level's total reduced by the same. -/
theorem shape_reduceResting (h : st.Shape L free) {side : Side} {p : Ptr} (hp : p ∈ L.ptrs side)
    (by' : ℤ) : (st.reduceResting p by').Shape L free := by
  obtain ⟨before, price, xs, ys, after, hcut, hout⟩ := h.exists_cut hp
  have hmem : (price, xs ++ p :: ys) ∈ L side := by simp [hcut]
  have hr := h.rests side _ hmem p (by simp)
  set st' := st.reduceResting p by' with hst'
  have hne : ∀ q, q ≠ p → st'.node q = st.node q := fun q hq => by
    rw [hst', node_reduceResting, if_neg hq]
  have hself : (st'.node p).order.quantity = (st.node p).order.quantity - by' := by
    rw [hst', node_reduceResting, if_pos rfl]
  -- Another level does not hold the node, so its record is the same.
  have hother : ∀ l : ℤ × List Ptr, p ∉ l.2 → st'.levelOf l = st.levelOf l := fun l hl =>
    levelOf_congr fun q hq => by rw [hne q (by rintro rfl; exact hl hq)]
  have heq : st' = (st.modifyLevel { side, price } fun level =>
      { level with totalQuantity := level.totalQuantity - by' }).setNode p
        { st.node p with
          order := { (st.node p).order with quantity := (st.node p).order.quantity - by' } } := by
    rw [hst', reduceResting, hr.level]
    simp
  have hidx : st'.idIndex = st.idIndex := by simp [heq]
  have hcap : st'.nodePool.capacity = st.nodePool.capacity := by simp [heq]
  have hfree : st'.nodePool.freeHead = st.nodePool.freeHead := by simp [heq]
  have hmap : ∀ side', st'.sideMap side' = (st.setSideMap side ((st.sideMap side).modify price
      fun level => { level with totalQuantity := level.totalQuantity - by' })).sideMap side' :=
    fun side' => by rw [heq, sideMap_setNode, modifyLevel]
  refine h.of_same_links ?_ ?_ ?_ ?_ ?_ ?_ ?_ ?_ hidx hcap hfree
  · intro side'
    rw [hmap]
    by_cases hs : side' = side
    · subst hs
      have hnd : (xs ++ p :: ys).Nodup :=
        (h.ptrs_nodup side').sublist (by
          rw [Layout.ptrs, hcut, List.flatMap_append, List.flatMap_cons]
          exact (List.sublist_append_left _ _).trans (List.sublist_append_right _ _))
      have hxy : p ∉ xs ∧ p ∉ ys := by
        simp only [List.nodup_append, List.nodup_cons] at hnd
        exact ⟨fun hx => hnd.2.2 p hx p List.mem_cons_self rfl, hnd.2.1.1⟩
      have hsum : ∀ zs : List Ptr, p ∉ zs →
          zs.map (fun q => (st'.node q).order.quantity) =
            zs.map fun q => (st.node q).order.quantity := fun zs hzs =>
        List.map_congr_left fun q hq => by rw [hne q (by rintro rfl; exact hzs hq)]
      rw [sideMap_setSideMap_self, SortedMap.entries_modify (h.entries_cut hcut), hcut,
        List.map_append, List.map_cons]
      congr 1
      · exact List.map_congr_left fun l hl => by rw [hother l (hout l (by simp [hl]))]
      · congr 1
        · simp only [levelOf, List.map_append, List.map_cons, List.sum_append, List.sum_cons,
            hsum xs hxy.1, hsum ys hxy.2, hself]
          refine Prod.ext rfl (Level.ext rfl rfl rfl ?_ rfl)
          simp only
          ring
        · exact List.map_congr_left fun l hl => by rw [hother l (hout l (by simp [hl]))]
    · rw [sideMap_setSideMap_of_ne _ _ hs, h.entries]
      refine List.map_congr_left fun l hl => ?_
      rw [hother l fun hpl => hs (h.side_unique (mem_ptrs.mpr ⟨l, hl, hpl⟩) hp)]
  all_goals
    intro q
    rw [hst', node_reduceResting]
    split_ifs with hqp
    · subst hqp; rfl
    · rfl

/-! ## Taking an order off the book -/

/-- Erasing an empty level leaves every node alone. -/
@[simp] theorem node_eraseLevelIfEmpty (st : Store) (side : Side) (ref : LevelRef) (q : Ptr) :
    (st.eraseLevelIfEmpty side ref).node q = st.node q := by
  rw [eraseLevelIfEmpty]
  cases (st.sideMap ref.side).find? ref.price with
  | none => rfl
  | some level => simp only; split_ifs <;> simp

/-- Erasing an empty level leaves the pool alone. -/
@[simp] theorem nodePool_eraseLevelIfEmpty (st : Store) (side : Side) (ref : LevelRef) :
    (st.eraseLevelIfEmpty side ref).nodePool = st.nodePool := by
  rw [eraseLevelIfEmpty]
  cases (st.sideMap ref.side).find? ref.price with
  | none => rfl
  | some level => simp only; split_ifs <;> simp

/-- Erasing an empty level leaves the index alone. -/
@[simp] theorem idIndex_eraseLevelIfEmpty (st : Store) (side : Side) (ref : LevelRef) :
    (st.eraseLevelIfEmpty side ref).idIndex = st.idIndex := by
  rw [eraseLevelIfEmpty]
  cases (st.sideMap ref.side).find? ref.price with
  | none => rfl
  | some level => simp only; split_ifs <;> simp

/-- The node writes of `unlinkAndMaybeEraseLevel`. -/
theorem node_unlink {p : Ptr} {ref : LevelRef} (hl : (st.node p).level = some ref)
    (hprev : (st.node p).prev ≠ some p) (hnext : (st.node p).next ≠ some p) (q : Ptr) :
    (st.unlinkAndMaybeEraseLevel p).node q =
      { order := (st.node q).order
        next := if (st.node p).prev = some q then (st.node p).next else (st.node q).next
        prev := if (st.node p).next = some q then (st.node p).prev else (st.node q).prev
        level := if q = p then none else (st.node q).level } := by
  rw [unlinkAndMaybeEraseLevel]
  simp only [hl, node_eraseLevelIfEmpty, node_setNode, node_modifyLevel, node_writeNode]
  by_cases hq : q = p
  · subst hq
    simp [hprev, hnext]
  · by_cases h1 : (st.node p).prev = some q <;> by_cases h2 : (st.node p).next = some q <;>
      simp [hq, h1, h2]

/-- Unlinking a node leaves the index alone. -/
@[simp] theorem idIndex_unlink (st : Store) (p : Ptr) :
    (st.unlinkAndMaybeEraseLevel p).idIndex = st.idIndex := by
  rw [unlinkAndMaybeEraseLevel]
  cases (st.node p).level <;> simp

/-- Unlinking a node leaves the capacity alone. -/
@[simp] theorem capacity_unlink (st : Store) (p : Ptr) :
    (st.unlinkAndMaybeEraseLevel p).nodePool.capacity = st.nodePool.capacity := by
  rw [unlinkAndMaybeEraseLevel]
  cases (st.node p).level <;> simp

/-- Unlinking a node leaves the free list alone. -/
@[simp] theorem freeHead_unlink (st : Store) (p : Ptr) :
    (st.unlinkAndMaybeEraseLevel p).nodePool.freeHead = st.nodePool.freeHead := by
  rw [unlinkAndMaybeEraseLevel]
  cases (st.node p).level <;> simp

/-- The layout of a side without one of its nodes: an emptied level goes with it. -/
def cutOut (before : List (ℤ × List Ptr)) (price : ℤ) (nodes : List Ptr)
    (after : List (ℤ × List Ptr)) : List (ℤ × List Ptr) :=
  if nodes = [] then before ++ after else before ++ (price, nodes) :: after

/-- Cutting out a level of no nodes does not change the nodes listed. -/
theorem flatMap_cutOut (before : List (ℤ × List Ptr)) (price : ℤ) (nodes : List Ptr)
    (after : List (ℤ × List Ptr)) :
    (cutOut before price nodes after).flatMap Prod.snd =
      before.flatMap Prod.snd ++ (nodes ++ after.flatMap Prod.snd) := by
  rw [cutOut]
  split_ifs with h
  · simp [h]
  · simp

/-- The map writes of `unlinkAndMaybeEraseLevel`: the side's entries are those of the layout without
the node. -/
theorem entries_unlink (h : st.Shape L free) {side : Side} {p : Ptr}
    {before after : List (ℤ × List Ptr)} {price : ℤ} {xs ys : List Ptr}
    (hcut : L side = before ++ (price, xs ++ p :: ys) :: after) :
    ((st.unlinkAndMaybeEraseLevel p).sideMap side).entries =
      (cutOut before price (xs ++ ys) after).map fun l => (l.1, st.levelOf l) := by
  have hmem : (price, xs ++ p :: ys) ∈ L side := by simp [hcut]
  have hr := h.rests side _ hmem p (by simp)
  have hlink := h.linked side _ hmem
  have hnd : (xs ++ p :: ys).Nodup :=
    (h.ptrs_nodup side).sublist (by
      rw [Layout.ptrs, hcut, List.flatMap_append, List.flatMap_cons]
      exact (List.sublist_append_left _ _).trans (List.sublist_append_right _ _))
  -- The level's record, rewritten, is the one that the remaining nodes call for.
  have hlevel : ({ st.levelOf (price, xs ++ p :: ys) with
      totalQuantity := (st.levelOf (price, xs ++ p :: ys)).totalQuantity - (st.node p).order.quantity
      orderCount := (st.levelOf (price, xs ++ p :: ys)).orderCount - 1
      head := if (st.levelOf (price, xs ++ p :: ys)).head = some p then (st.node p).next
        else (st.levelOf (price, xs ++ p :: ys)).head
      tail := if (st.levelOf (price, xs ++ p :: ys)).tail = some p then (st.node p).prev
        else (st.levelOf (price, xs ++ p :: ys)).tail } : Level) =
      st.levelOf (price, xs ++ ys) := by
    refine Level.ext rfl ?_ ?_ ?_ ?_
    · simp only [levelOf, hlink.next_eq]
      exact (head?_unlink hnd).symm
    · simp only [levelOf, hlink.prev_eq]
      exact (getLast?_unlink hnd).symm
    · simp only [levelOf, List.map_append, List.map_cons, List.sum_append, List.sum_cons]
      ring
    · have hlen : (xs ++ p :: ys).length = (xs ++ ys).length + 1 := by simp; omega
      simp only [levelOf, hlen, UInt32.ofNat_add]
      exact UInt32.add_sub_cancel _ _
  rw [unlinkAndMaybeEraseLevel]
  simp only [hr.level, hr.side]
  set st1 := (st.writeNode (st.node p).prev _).writeNode (st.node p).next _ with hst1
  set m := (st.sideMap side).modify price fun level =>
      { level with
        totalQuantity := level.totalQuantity - (st.node p).order.quantity
        orderCount := level.orderCount - 1
        head := if level.head = some p then (st.node p).next else level.head
        tail := if level.tail = some p then (st.node p).prev else level.tail } with hm
  have hentries : m.entries = before.map (fun l => (l.1, st.levelOf l)) ++
      (price, st.levelOf (price, xs ++ ys)) :: after.map fun l => (l.1, st.levelOf l) := by
    rw [hm, SortedMap.entries_modify (h.entries_cut hcut), hlevel]
  have hfind : m.find? price = some (st.levelOf (price, xs ++ ys)) :=
    SortedMap.find?_eq_some.mpr (by simp [hentries])
  have hmap : (st1.modifyLevel { side, price } fun level =>
      { level with
        totalQuantity := level.totalQuantity - (st.node p).order.quantity
        orderCount := level.orderCount - 1
        head := if level.head = some p then (st.node p).next else level.head
        tail := if level.tail = some p then (st.node p).prev else level.tail }).sideMap side = m := by
    rw [modifyLevel, sideMap_setSideMap_self, hm, hst1, sideMap_writeNode, sideMap_writeNode]
  rw [eraseLevelIfEmpty]
  simp only [sideMap_setNode, hmap, hfind]
  by_cases hnil : xs ++ ys = []
  · rw [if_pos (by simp [levelOf, hnil]), sideMap_setSideMap_self, cutOut, if_pos hnil,
      List.map_append]
    exact SortedMap.entries_erase hentries
  · have hhead : (st.levelOf (price, xs ++ ys)).head ≠ none := by
      simpa [levelOf, List.head?_eq_none_iff] using hnil
    rw [if_neg hhead, sideMap_setNode, hmap, hentries, cutOut, if_neg hnil, List.map_append,
      List.map_cons]

/-- Erasing an empty level leaves the other side alone. -/
theorem sideMap_eraseLevelIfEmpty_of_ne (st : Store) {side side' : Side} (ref : LevelRef)
    (hs : side' ≠ side) : (st.eraseLevelIfEmpty side ref).sideMap side' = st.sideMap side' := by
  rw [eraseLevelIfEmpty]
  cases (st.sideMap ref.side).find? ref.price with
  | none => rfl
  | some level =>
    simp only
    split_ifs
    · exact sideMap_setSideMap_of_ne _ _ hs
    · rfl

/-- A change of a level leaves the other side alone. -/
theorem sideMap_modifyLevel_of_ne (st : Store) {side' : Side} (ref : LevelRef) (f : Level → Level)
    (hs : side' ≠ ref.side) : (st.modifyLevel ref f).sideMap side' = st.sideMap side' :=
  sideMap_setSideMap_of_ne _ _ hs

/-- Unlinking a node leaves the other side alone. -/
theorem sideMap_unlink_of_ne {p : Ptr} {side : Side} {price : ℤ} (hr : st.RestsAt side price p)
    {side' : Side} (hs : side' ≠ side) :
    (st.unlinkAndMaybeEraseLevel p).sideMap side' = st.sideMap side' := by
  rw [unlinkAndMaybeEraseLevel]
  simp only [hr.level, hr.side]
  rw [sideMap_eraseLevelIfEmpty_of_ne _ _ hs, sideMap_setNode, sideMap_modifyLevel_of_ne _ _ _ hs]
  simp

/-- **Removal.** The node leaves its queue for the head of the free list. No order changes. -/
theorem shape_removeResting (h : st.Shape L free) {side : Side} {p : Ptr} (hp : p ∈ L.ptrs side) :
    ∃ L', (st.removeResting p).Shape L' (p :: free) ∧
      (∀ side, L'.ptrs side = (L.ptrs side).erase p) ∧
      ∀ q, ((st.removeResting p).node q).order = (st.node q).order := by
  obtain ⟨before, price, xs, ys, after, hcut, hout⟩ := h.exists_cut hp
  have hmem : (price, xs ++ p :: ys) ∈ L side := by simp [hcut]
  have hr := h.rests side _ hmem p (by simp)
  have hlink := h.linked side _ hmem
  have hptrs : L.ptrs side =
      before.flatMap Prod.snd ++ (xs ++ p :: (ys ++ after.flatMap Prod.snd)) := by
    simp [Layout.ptrs, hcut]
  have hnd := h.ptrs_nodup side
  rw [hptrs] at hnd
  have hndl : (xs ++ p :: ys).Nodup := hnd.sublist (by
    refine List.Sublist.trans ?_ (List.sublist_append_right _ _)
    exact List.Sublist.append_left (List.Sublist.cons_cons _ (List.sublist_append_left _ _)) _)
  -- The node's own links do not point back at it.
  have hprev : (st.node p).prev ≠ some p := by
    rw [hlink.prev_eq]
    intro he
    exact (List.nodup_append.mp hndl).2.2 p (List.mem_of_getLast? he) p List.mem_cons_self rfl
  have hnext : (st.node p).next ≠ some p := by
    rw [hlink.next_eq]
    intro he
    exact (List.nodup_cons.mp (List.nodup_append.mp hndl).2.1).1 (List.mem_of_mem_head? he)
  have hnode := node_unlink hr.level hprev hnext
  have hrelease : ∀ q, (st.removeResting p).node q =
      if q = p then
        { (st.unlinkAndMaybeEraseLevel p).node p with prev := none, next := st.nodePool.freeHead }
      else (st.unlinkAndMaybeEraseLevel p).node q := fun q => by
    simp [removeResting, node, NodePool.release, Function.update_apply]
  have horder : ∀ q, ((st.removeResting p).node q).order = (st.node q).order := fun q => by
    rw [hrelease]
    split_ifs with hq
    · simp [hq, hnode]
    · simp [hnode]
  -- Nodes that are not its neighbours keep their links, and every other node its level.
  have hkeep : ∀ q, q ≠ p → (st.node p).prev ≠ some q → (st.node p).next ≠ some q →
      (st.removeResting p).node q = st.node q := fun q hq h1 h2 => by
    rw [hrelease, if_neg hq, hnode]
    simp [hq, h1, h2]
  have hlev : ∀ q, q ≠ p → ((st.removeResting p).node q).level = (st.node q).level := fun q hq => by
    rw [hrelease, if_neg hq, hnode]
    simp [hq]
  have hneigh : ∀ q, (st.node p).prev = some q ∨ (st.node p).next = some q → q ∈ xs ++ p :: ys := by
    intro q hq
    rcases hq with hq | hq
    · rw [hlink.prev_eq] at hq
      exact List.mem_append_left _ (List.mem_of_getLast? hq)
    · rw [hlink.next_eq] at hq
      exact List.mem_append_right _ (List.mem_cons_of_mem _ (List.mem_of_mem_head? hq))
  let L' : Layout := fun s => if s = side then cutOut before price (xs ++ ys) after else L s
  have hL' : L' side = cutOut before price (xs ++ ys) after := if_pos rfl
  have hL'ne : ∀ s, s ≠ side → L' s = L s := fun s hs => if_neg hs
  have hptrs' : L'.ptrs side = before.flatMap Prod.snd ++ (xs ++ (ys ++ after.flatMap Prod.snd)) := by
    rw [Layout.ptrs, hL', flatMap_cutOut, List.append_assoc]
  have herase : ∀ s, L'.ptrs s = (L.ptrs s).erase p := by
    intro s
    by_cases hs : s = side
    · subst hs
      rw [hptrs', hptrs, List.erase_append_right _ fun hb => ?_, List.erase_append_right _ fun hx => ?_,
        List.erase_cons_head]
      · exact (List.nodup_append.mp (List.nodup_append.mp hnd).2.1).2.2 p hx p List.mem_cons_self rfl
      · exact (List.nodup_append.mp hnd).2.2 p hb p (by simp) rfl
    · rw [Layout.ptrs, hL'ne s hs, List.erase_of_not_mem fun hm => hs (h.side_unique hm hp)]
      rfl
  -- A level of the new layout is one of the old ones, or the one that lost the node.
  have hcases : ∀ s, ∀ l ∈ L' s, (s = side ∧ l = (price, xs ++ ys) ∧ xs ++ ys ≠ []) ∨
      (l ∈ L s ∧ p ∉ l.2 ∧ ∀ q ∈ l.2, q ∉ xs ++ p :: ys) := by
    intro s l hl
    by_cases hs : s = side
    · subst hs
      have hdisj : ∀ l ∈ before ++ after, ∀ q ∈ l.2, q ∉ xs ++ p :: ys := by
        intro l hl q hq hqx
        rcases List.mem_append.mp hl with hl | hl
        · refine (List.nodup_append.mp hnd).2.2 q (List.mem_flatMap.mpr ⟨l, hl, hq⟩) q ?_ rfl
          rw [← List.cons_append, ← List.append_assoc]
          exact List.mem_append_left _ hqx
        · have hnd' := (List.nodup_append.mp hnd).2.1
          rw [← List.cons_append, ← List.append_assoc] at hnd'
          exact (List.nodup_append.mp hnd').2.2 q hqx q (List.mem_flatMap.mpr ⟨l, hl, hq⟩) rfl
      have hold : ∀ l ∈ before ++ after, l ∈ L s ∧ p ∉ l.2 ∧ ∀ q ∈ l.2, q ∉ xs ++ p :: ys :=
        fun l hl => ⟨by rw [hcut]; simp only [List.mem_append, List.mem_cons] at hl ⊢; tauto,
          hout l hl, hdisj l hl⟩
      rw [hL', cutOut] at hl
      split_ifs at hl with hnil
      · exact Or.inr (hold l hl)
      · simp only [List.mem_append, List.mem_cons] at hl
        rcases hl with hl | rfl | hl
        · exact Or.inr (hold l (List.mem_append_left _ hl))
        · exact Or.inl ⟨rfl, rfl, hnil⟩
        · exact Or.inr (hold l (List.mem_append_right _ hl))
    · rw [hL'ne s hs] at hl
      have hne : ∀ q ∈ l.2, q ∉ xs ++ p :: ys := fun q hq hqx =>
        hs (h.side_unique (mem_ptrs.mpr ⟨l, hl, hq⟩) (mem_ptrs.mpr ⟨_, hmem, hqx⟩))
      exact Or.inr ⟨hl, fun hpl => hne p hpl (by simp), hne⟩
  have hlevelOf : ∀ l, (st.removeResting p).levelOf l = st.levelOf l := fun l =>
    levelOf_congr fun q _ => by rw [horder]
  have hside : ∀ s, (st.removeResting p).sideMap s = (st.unlinkAndMaybeEraseLevel p).sideMap s := by
    intro s
    cases s <;> rfl
  refine ⟨L', ⟨?_, ?_, ?_, ?_, ?_, ?_, ?_⟩, herase, horder⟩
  · intro s
    simp only [hlevelOf, hside]
    by_cases hs : s = side
    · subst hs
      rw [entries_unlink h hcut, hL']
    · rw [sideMap_unlink_of_ne hr hs, h.entries, hL'ne s hs]
  · intro s l hl
    rcases hcases s l hl with ⟨-, rfl, hnil⟩ | ⟨hl, -, -⟩
    · exact hnil
    · exact h.nonempty s l hl
  · intro s l hl
    rcases hcases s l hl with ⟨-, rfl, -⟩ | ⟨hl, hpl, hql⟩
    · refine hlink.unlink hndl ?_ ?_ <;>
      · intro q hq
        have hqp : q ≠ p := by
          rintro rfl
          simp only [List.nodup_append, List.nodup_cons] at hndl
          rcases List.mem_append.mp hq with hq | hq
          · exact hndl.2.2 q hq q List.mem_cons_self rfl
          · exact hndl.2.1.1 hq
        simp only [hrelease, if_neg hqp, hnode]
    · refine (h.linked s l hl).congr (fun q hq => ?_) fun q hq => ?_ <;>
      · rw [hkeep q (by rintro rfl; exact hpl hq) (fun h1 => hql q hq (hneigh q (Or.inl h1)))
          fun h2 => hql q hq (hneigh q (Or.inr h2))]
  · intro s l hl q hq
    have hold : ∃ l₀ ∈ L s, l₀.1 = l.1 ∧ q ∈ l₀.2 ∧ q ≠ p := by
      rcases hcases s l hl with ⟨rfl, rfl, -⟩ | ⟨hl, hpl, -⟩
      · refine ⟨_, hmem, rfl, ?_, ?_⟩
        · simp only [List.mem_append, List.mem_cons] at hq ⊢
          tauto
        · rintro rfl
          simp only [List.nodup_append, List.nodup_cons] at hndl
          rcases List.mem_append.mp hq with hq | hq
          · exact hndl.2.2 q hq q List.mem_cons_self rfl
          · exact hndl.2.1.1 hq
      · exact ⟨l, hl, rfl, hq, by rintro rfl; exact hpl hq⟩
    obtain ⟨l₀, hl₀, hprice, hq₀, hqp⟩ := hold
    have hr₀ := h.rests s l₀ hl₀ q hq₀
    rw [hprice] at hr₀
    exact ⟨by rw [hlev q hqp, hr₀.level], by rw [horder, hr₀.side], by rw [horder, hr₀.type],
      by rw [horder, hr₀.price]⟩
  · have hhead : ((st.removeResting p).node p).next = st.nodePool.freeHead := by
      rw [hrelease, if_pos rfl]
    refine ⟨rfl, ?_⟩
    show Threaded _ ((st.removeResting p).node p).next free
    rw [hhead]
    refine h.threaded.congr fun q hq => ?_
    have hres : ∀ q ∈ xs ++ p :: ys, q ∉ free := fun q hq =>
      h.not_mem_free (mem_ptrs.mpr ⟨_, hmem, hq⟩)
    rw [hkeep q (by rintro rfl; exact h.not_mem_free hp hq)
      (fun h1 => hres q (hneigh q (Or.inl h1)) hq) fun h2 => hres q (hneigh q (Or.inr h2)) hq]
  · have hcap : (st.removeResting p).nodePool.capacity = st.nodePool.capacity := by
      simp [removeResting, NodePool.release]
    rw [hcap]
    refine List.Perm.trans ?_ h.perm
    rw [herase, herase]
    have hpc := List.perm_cons_erase hp
    cases side with
    | buy =>
      have hs : p ∉ L.ptrs .sell := fun hm => by cases h.side_unique hp hm
      rw [List.erase_of_not_mem hs]
      exact List.perm_middle.trans ((hpc.symm.append_right _).append_right _)
    | sell =>
      have hs : p ∉ L.ptrs .buy := fun hm => by cases h.side_unique hp hm
      rw [List.erase_of_not_mem hs, List.append_assoc, List.append_assoc]
      exact (List.perm_middle.trans (hpc.symm.append_right _)).append_left _
  · intro id q
    have hidx : (st.removeResting p).idIndex =
        Function.update st.idIndex (st.node p).order.id none := by
      simp [removeResting, hnode]
    have hmem' : (∃ s, q ∈ L'.ptrs s) ↔ (∃ s, q ∈ L.ptrs s) ∧ q ≠ p := by
      constructor
      · rintro ⟨s, hq⟩
        rw [herase] at hq
        exact ⟨⟨s, List.mem_of_mem_erase hq⟩, fun he => (h.ptrs_nodup s).not_mem_erase (he ▸ hq)⟩
      · rintro ⟨⟨s, hq⟩, hne⟩
        exact ⟨s, by rw [herase]; exact (List.mem_erase_of_ne hne).mpr hq⟩
    rw [hidx, horder, hmem', Function.update_apply]
    split_ifs with hid
    · simp only [false_iff, not_and]
      rintro ⟨⟨s, hq⟩, hne⟩ hqid
      have h1 := (h.index id q).mpr ⟨⟨s, hq⟩, hqid⟩
      have h2 := (h.index id p).mpr ⟨⟨side, hp⟩, hid.symm⟩
      rw [h1] at h2
      exact hne (Option.some.inj h2)
    · rw [h.index]
      constructor
      · rintro ⟨hq, hqid⟩
        exact ⟨⟨hq, by rintro rfl; exact hid hqid.symm⟩, hqid⟩
      · rintro ⟨⟨hq, -⟩, hqid⟩
        exact ⟨hq, hqid⟩

/-! ## Putting an order on the book -/

/-- The map that `getOrCreateLevel` works on once the level is there. -/
abbrev withLevel (st : Store) (side : Side) (price : ℤ) : SideMap side :=
  (st.sideMap side).emplace price { price, head := none, tail := none }

section GetOrCreate

variable {side : Side} {price : ℤ} {p : Ptr} {level : Level}

/-- The node writes of `getOrCreateLevel`. -/
theorem node_getOrCreateLevel (hfind : (st.withLevel side price).find? price = some level)
    (htail : level.tail ≠ some p) (q : Ptr) :
    (st.getOrCreateLevel side price p).node q =
      if q = p then
        { st.node p with
          prev := if level.head = none then (st.node p).prev else level.tail
          level := some { side, price } }
      else if level.head ≠ none ∧ level.tail = some q then { st.node q with next := some p }
      else st.node q := by
  rw [getOrCreateLevel]
  simp only [sideMap_setSideMap_self, hfind]
  by_cases hh : level.head = none
  · by_cases hq : q = p
    · subst hq; simp [hh]
    · simp [hh, node_setNode, hq]
  · by_cases hq : q = p
    · subst hq; simp [hh, node_writeNode, htail]
    · simp [hh, node_setNode, node_writeNode, hq]

/-- The level writes of `getOrCreateLevel`. -/
theorem entries_getOrCreateLevel {before after : List (ℤ × Level)}
    (hcut : (st.withLevel side price).entries = before ++ (price, level) :: after)
    (htail : level.tail ≠ some p) :
    ((st.getOrCreateLevel side price p).sideMap side).entries =
      before ++ (price,
        { price := level.price
          head := if level.head = none then some p else level.head
          tail := some p
          totalQuantity := level.totalQuantity + (st.node p).order.quantity
          orderCount := level.orderCount + 1 }) :: after := by
  have hfind : (st.withLevel side price).find? price = some level :=
    SortedMap.find?_eq_some.mpr (by simp [hcut])
  rw [getOrCreateLevel]
  simp only [sideMap_setSideMap_self, hfind]
  -- An empty level gets the node as its head as well.
  by_cases hh : level.head = none
  · simp only [hh, if_true, sideMap_setNode, modifyLevel, sideMap_setSideMap_self,
      node_setSideMap]
    have h1 := SortedMap.entries_modify hcut fun level =>
      { level with head := some p, tail := some p }
    rw [SortedMap.entries_modify h1]
  · simp only [hh, if_false, sideMap_setNode, sideMap_writeNode, modifyLevel,
      sideMap_setSideMap_self, node_setSideMap]
    have h1 := SortedMap.entries_modify hcut fun level => { level with tail := some p }
    rw [SortedMap.entries_modify h1]
    simp [node_writeNode, htail]

/-- Creating a level leaves the other side alone. -/
theorem sideMap_getOrCreateLevel_of_ne (st : Store) {side' : Side} (hs : side' ≠ side) :
    (st.getOrCreateLevel side price p).sideMap side' = st.sideMap side' := by
  rw [getOrCreateLevel]
  cases ((st.setSideMap side (st.withLevel side price)).sideMap side).find? price with
  | none => exact sideMap_setSideMap_of_ne _ _ hs
  | some level =>
    simp only
    rw [sideMap_setNode, sideMap_modifyLevel_of_ne _ _ _ hs]
    split_ifs
    · rw [sideMap_modifyLevel_of_ne _ _ _ hs, sideMap_setSideMap_of_ne _ _ hs]
    · rw [sideMap_modifyLevel_of_ne _ _ _ hs, sideMap_writeNode, sideMap_setNode,
        sideMap_setSideMap_of_ne _ _ hs]

/-- Creating a level leaves the capacity alone. -/
@[simp] theorem capacity_getOrCreateLevel (st : Store) :
    (st.getOrCreateLevel side price p).nodePool.capacity = st.nodePool.capacity := by
  rw [getOrCreateLevel]
  cases ((st.setSideMap side (st.withLevel side price)).sideMap side).find? price with
  | none => simp
  | some level => simp only; split_ifs <;> simp

/-- Creating a level leaves the free list alone. -/
@[simp] theorem freeHead_getOrCreateLevel (st : Store) :
    (st.getOrCreateLevel side price p).nodePool.freeHead = st.nodePool.freeHead := by
  rw [getOrCreateLevel]
  cases ((st.setSideMap side (st.withLevel side price)).sideMap side).find? price with
  | none => simp
  | some level => simp only; split_ifs <;> simp

/-- Creating a level leaves the index alone. -/
@[simp] theorem idIndex_getOrCreateLevel (st : Store) :
    (st.getOrCreateLevel side price p).idIndex = st.idIndex := by
  rw [getOrCreateLevel]
  cases ((st.setSideMap side (st.withLevel side price)).sideMap side).find? price with
  | none => simp
  | some level => simp only; split_ifs <;> simp

end GetOrCreate

/-- The place of a price among a side's levels, with the nodes already there (none at a new price). -/
theorem Shape.exists_place (h : st.Shape L free) (side : Side) (price : ℤ) :
    ∃ before nodes after, L side = cutOut before price nodes after ∧
      (∀ l ∈ before, side.Better l.1 price) ∧ (∀ l ∈ after, side.Better price l.1) ∧
      (st.withLevel side price).entries =
        before.map (fun l => (l.1, st.levelOf l)) ++ (price, st.levelOf (price, nodes)) ::
          after.map fun l => (l.1, st.levelOf l) := by
  by_cases hex : ∃ nodes, (price, nodes) ∈ L side
  · -- There is a level at the price.
    obtain ⟨nodes, hl⟩ := hex
    obtain ⟨before, after, hcut⟩ := List.append_of_mem hl
    have hent := h.entries_cut hcut
    obtain ⟨hb, ha⟩ := SortedMap.lt_of_split hent
    refine ⟨before, nodes, after, ?_, fun l hl => hb _ (List.mem_map_of_mem hl),
      fun l hl => ha _ (List.mem_map_of_mem hl), ?_⟩
    · rw [cutOut, if_neg (h.nonempty side _ hl), hcut]
    · rw [withLevel, SortedMap.emplace_of_mem _ (w := st.levelOf (price, nodes)) (by simp [hent]),
        hent]
  · -- There is none, and a new one goes between its neighbours.
    have hne : ∀ e ∈ (st.sideMap side).entries, e.1 ≠ price := by
      rw [h.entries]
      intro e he hprice
      obtain ⟨l, hl, rfl⟩ := List.mem_map.mp he
      exact hex ⟨l.2, hprice ▸ hl⟩
    obtain ⟨before, after, hm, hb, ha, hent⟩ :=
      SortedMap.entries_emplace (Level.mk price none none 0 0) hne
    rw [h.entries] at hm
    obtain ⟨before, after', hcut, rfl, hafter⟩ := List.map_eq_append_iff.mp hm
    subst hafter
    refine ⟨before, [], after', by rw [cutOut, if_pos rfl, hcut],
      fun l hl => hb _ (List.mem_map_of_mem hl), fun l hl => ha _ (List.mem_map_of_mem hl), ?_⟩
    rw [withLevel, hent]
    rfl

/-- A node pointer from the pool is null exactly when the free list is empty. -/
theorem Shape.restOrder_eq_none (h : st.Shape L free) (incoming : Order) (price : ℤ) :
    st.restOrder incoming price = none ↔ free = [] := by
  rw [restOrder, NodePool.acquire, h.threaded.head_eq]
  cases free <;> simp

/-- The node writes of `restOrder`, for a price whose nodes are known. -/
theorem node_restOrder (h : st.Shape L (p :: free)) {incoming : Order} {price : ℤ}
    {before after : List (ℤ × List Ptr)} {nodes : List Ptr}
    (hcut : L incoming.side = cutOut before price nodes after)
    (hent : (st.withLevel incoming.side price).entries =
      before.map (fun l => (l.1, st.levelOf l)) ++ (price, st.levelOf (price, nodes)) ::
        after.map fun l => (l.1, st.levelOf l)) :
    ∃ st', st.restOrder incoming price = some st' ∧
      (∀ q, st'.node q =
        if q = p then
          { order := incoming, next := none, prev := nodes.getLast?
            level := some { side := incoming.side, price } }
        else if nodes.getLast? = some q then { st.node q with next := some p }
        else st.node q) ∧
      (st'.sideMap incoming.side).entries =
        before.map (fun l => (l.1, st.levelOf l)) ++ (price,
          { price, head := (nodes ++ [p]).head?, tail := some p
            totalQuantity := (st.levelOf (price, nodes)).totalQuantity + incoming.quantity
            orderCount := UInt32.ofNat (nodes ++ [p]).length }) ::
          after.map (fun l => (l.1, st.levelOf l)) ∧
      (∀ side ≠ incoming.side, st'.sideMap side = st.sideMap side) ∧
      st'.nodePool.capacity = st.nodePool.capacity ∧
      st'.nodePool.freeHead = (st.node p).next ∧
      st'.idIndex = Function.update st.idIndex incoming.id (some p) := by
  -- The node is free, and so in no level.
  have hp : p ∉ nodes := by
    intro hmem
    have hptr : p ∈ L.ptrs incoming.side := by
      rw [Layout.ptrs, hcut, flatMap_cutOut]
      simp [hmem]
    exact h.not_mem_free hptr List.mem_cons_self
  have hhead : st.nodePool.freeHead = some p := h.threaded.1
  let pool : NodePool := { st.nodePool with
    freeHead := (st.node p).next, nodes := Function.update st.nodePool.nodes p {} }
  let st0 : Store := { st with nodePool := pool }
  let st1 : Store := st0.setNode p { st0.node p with order := incoming }
  have hst1 : ∀ q, st1.node q = if q = p then { order := incoming } else st.node q := fun q => by
    rw [node_setNode]
    split_ifs with hq
    · simp [st0, pool, node]
    · simp [st0, pool, node, hq]
  have hwith : st1.withLevel incoming.side price = st.withLevel incoming.side price := by
    rw [withLevel, withLevel, sideMap_setNode]
    cases incoming.side <;> rfl
  -- The level has been found or made; the node is linked behind its tail.
  have htail : (st.levelOf (price, nodes)).tail ≠ some p := fun he =>
    hp (List.mem_of_getLast? he)
  have hnil : (st.levelOf (price, nodes)).head = none ↔ nodes = [] := List.head?_eq_none_iff
  have hcut' : (st1.withLevel incoming.side price).entries = _ := (congrArg _ hwith).trans hent
  have hfind : (st1.withLevel incoming.side price).find? price = some (st.levelOf (price, nodes)) :=
    SortedMap.find?_eq_some.mpr (by simp [hcut'])
  refine ⟨{ st1.getOrCreateLevel incoming.side price p with
    idIndex := Function.update st.idIndex incoming.id (some p) }, ?_, ?_, ?_, ?_, ?_, ?_, rfl⟩
  · rw [restOrder, NodePool.acquire, hhead]
    simp only [Option.some.injEq]
    congr 1
    rw [idIndex_getOrCreateLevel]
    rfl
  · intro q
    rw [show ∀ (st' : Store) f, ({ st' with idIndex := f } : Store).node q = st'.node q from
      fun _ _ => rfl, node_getOrCreateLevel hfind htail]
    simp only [hst1, if_true, hnil]
    split_ifs with hq h1 h2 h3 h4
    · simp [h1]
    · rfl
    · rfl
    · exact absurd h2.2 h3
    · exact absurd ⟨fun hh => by rw [hnil.mp hh] at h4; simp at h4, h4⟩ h2
    · rfl
  · rw [show ∀ (st' : Store) f s, ({ st' with idIndex := f } : Store).sideMap s = st'.sideMap s from
      fun _ _ s => by cases s <;> rfl, entries_getOrCreateLevel hcut' htail]
    have hq : (st1.node p).order.quantity = incoming.quantity := by simp [hst1]
    rw [hq]
    congr 3
    cases nodes <;> simp [levelOf]
  · intro side hs
    rw [show ∀ (st' : Store) f s, ({ st' with idIndex := f } : Store).sideMap s = st'.sideMap s from
      fun _ _ s => by cases s <;> rfl, sideMap_getOrCreateLevel_of_ne _ hs, sideMap_setNode]
    cases side <;> rfl
  · simp [st1, st0, pool]
  · simp [st1, st0, pool]

/-- **Resting.** The node at the head of the free list joins the queue behind every order whose price
is at least as good. -/
theorem shape_restOrder (h : st.Shape L (p :: free)) {incoming : Order} {price : ℤ}
    (htype : incoming.type = .limit) (hprice : incoming.price = some price)
    (hid : st.idIndex incoming.id = none) :
    ∃ st' L' A B, st.restOrder incoming price = some st' ∧ st'.Shape L' free ∧
      L.ptrs incoming.side = A ++ B ∧ L'.ptrs incoming.side = A ++ p :: B ∧
      (∀ side ≠ incoming.side, L'.ptrs side = L.ptrs side) ∧
      (∀ q ∈ A, ∃ x, (st.node q).order.price = some x ∧ ¬ incoming.side.Better price x) ∧
      (∀ q ∈ B, ∃ x, (st.node q).order.price = some x ∧ incoming.side.Better price x) ∧
      (st'.node p).order = incoming ∧ ∀ q, q ≠ p → (st'.node q).order = (st.node q).order := by
  obtain ⟨before, nodes, after, hcut, hbefore, hafter, hent⟩ := h.exists_place incoming.side price
  obtain ⟨st', hst', hnode, hentries, hside, hcap, hfree, hidx⟩ := node_restOrder h hcut hent
  have hptrs : L.ptrs incoming.side =
      (before.flatMap Prod.snd ++ nodes) ++ after.flatMap Prod.snd := by
    rw [Layout.ptrs, hcut, flatMap_cutOut, List.append_assoc]
  have hfresh : ∀ side, p ∉ L.ptrs side := fun side hp =>
    h.not_mem_free hp List.mem_cons_self
  have hnodes : ∀ q ∈ nodes, q ∈ L.ptrs incoming.side := fun q hq => by simp [hptrs, hq]
  have horder : ∀ q, q ≠ p → (st'.node q).order = (st.node q).order := fun q hq => by
    rw [hnode, if_neg hq]
    split_ifs <;> rfl
  -- A level that is still there has the nodes that it had.
  have hold : ∀ l, l ∈ before ∨ l ∈ after → l ∈ L incoming.side ∧ ∀ q ∈ l.2, q ∉ nodes := by
    intro l hl
    have hmem : l ∈ L incoming.side := by
      rw [hcut, cutOut]
      split_ifs
      · simpa using hl
      · simp only [List.mem_append, List.mem_cons]
        tauto
    have hnd := h.ptrs_nodup incoming.side
    rw [hptrs, List.append_assoc] at hnd
    refine ⟨hmem, fun q hq hqn => ?_⟩
    rcases hl with hl | hl
    · exact (List.nodup_append.mp hnd).2.2 q (List.mem_flatMap.mpr ⟨l, hl, hq⟩) q (by simp [hqn]) rfl
    · exact (List.nodup_append.mp (List.nodup_append.mp hnd).2.1).2.2 q hqn q
        (List.mem_flatMap.mpr ⟨l, hl, hq⟩) rfl
  have hlevelOf : ∀ side, ∀ l ∈ L side, st'.levelOf l = st.levelOf l := fun side l hl =>
    levelOf_congr fun q hq => by
      rw [horder q (by rintro rfl; exact hfresh side (mem_ptrs.mpr ⟨l, hl, hq⟩))]
  have hsum : nodes.map (fun q => (st'.node q).order.quantity) =
      nodes.map fun q => (st.node q).order.quantity := List.map_congr_left fun q hq => by
    rw [horder q (by rintro rfl; exact hfresh _ (hnodes _ hq))]
  have hself : (st'.node p).order = incoming := by rw [hnode, if_pos rfl]
  let L' : Layout := fun s =>
    if s = incoming.side then before ++ (price, nodes ++ [p]) :: after else L s
  have hL' : L' incoming.side = before ++ (price, nodes ++ [p]) :: after := if_pos rfl
  have hL'ne : ∀ s, s ≠ incoming.side → L' s = L s := fun s hs => if_neg hs
  have hptrs' : L'.ptrs incoming.side =
      (before.flatMap Prod.snd ++ nodes) ++ p :: after.flatMap Prod.snd := by
    rw [Layout.ptrs, hL']
    simp
  have hptrs'ne : ∀ s, s ≠ incoming.side → L'.ptrs s = L.ptrs s := fun s hs => by
    rw [Layout.ptrs, hL'ne s hs, Layout.ptrs]
  have hcases : ∀ s, ∀ l ∈ L' s, (s = incoming.side ∧ l = (price, nodes ++ [p])) ∨
      (l ∈ L s ∧ p ∉ l.2 ∧ ∀ q ∈ l.2, q ∉ nodes) := by
    intro s l hl
    have hp : l ∈ L s → p ∉ l.2 := fun hl hpl => hfresh s (mem_ptrs.mpr ⟨l, hl, hpl⟩)
    by_cases hs : s = incoming.side
    · subst hs
      rw [hL'] at hl
      simp only [List.mem_append, List.mem_cons] at hl
      rcases hl with hl | rfl | hl
      · exact Or.inr ⟨(hold l (Or.inl hl)).1, hp (hold l (Or.inl hl)).1, (hold l (Or.inl hl)).2⟩
      · exact Or.inl ⟨rfl, rfl⟩
      · exact Or.inr ⟨(hold l (Or.inr hl)).1, hp (hold l (Or.inr hl)).1, (hold l (Or.inr hl)).2⟩
    · rw [hL'ne s hs] at hl
      exact Or.inr ⟨hl, hp hl, fun q hq hqn =>
        hs (h.side_unique (mem_ptrs.mpr ⟨l, hl, hq⟩) (hnodes q hqn))⟩
  have hkeep : ∀ q, q ≠ p → q ∉ nodes → st'.node q = st.node q := fun q hq hqn => by
    rw [hnode, if_neg hq, if_neg fun he => hqn (List.mem_of_getLast? he)]
  -- The nodes of the order's own level were those of a level, if there were any.
  have hlevel : nodes ≠ [] → (price, nodes) ∈ L incoming.side := fun hnil => by
    rw [hcut, cutOut, if_neg hnil]
    simp
  have hlinked : Linked (fun q => (st.node q).next) (fun q => (st.node q).prev) nodes := by
    by_cases hnil : nodes = []
    · rw [hnil]
      exact linked_nil
    · exact h.linked _ _ (hlevel hnil)
  have hndn : (nodes ++ [p]).Nodup := by
    have hnd := h.ptrs_nodup incoming.side
    rw [hptrs] at hnd
    have := (List.nodup_append.mp (List.nodup_append.mp hnd).1).2.1
    exact List.nodup_append.mpr ⟨this, List.nodup_singleton p, fun q hq r hr => by
      rw [List.mem_singleton.mp hr]
      rintro rfl
      exact hfresh _ (hnodes _ hq)⟩
  have hrests : ∀ s l q, l ∈ L s → q ∈ l.2 → st'.RestsAt s l.1 q := by
    intro s l q hl hq
    have hqp : q ≠ p := by
      rintro rfl
      exact hfresh s (mem_ptrs.mpr ⟨l, hl, hq⟩)
    have hr := h.rests s l hl q hq
    refine ⟨?_, by rw [horder q hqp, hr.side], by rw [horder q hqp, hr.type],
      by rw [horder q hqp, hr.price]⟩
    rw [hnode, if_neg hqp]
    split_ifs <;> exact hr.level
  refine ⟨st', L', _, _, hst', ⟨?_, ?_, ?_, ?_, ?_, ?_, ?_⟩, hptrs, hptrs', hptrs'ne, ?_, ?_,
    hself, horder⟩
  · intro s
    by_cases hs : s = incoming.side
    · subst hs
      rw [hentries, hL', List.map_append, List.map_cons]
      congr 1
      · exact List.map_congr_left fun l hl => by rw [hlevelOf _ l (hold l (Or.inl hl)).1]
      · congr 1
        · simp [levelOf, hsum, hself]
        · exact List.map_congr_left fun l hl => by rw [hlevelOf _ l (hold l (Or.inr hl)).1]
    · rw [hside s hs, hL'ne s hs, h.entries]
      exact List.map_congr_left fun l hl => by rw [hlevelOf s l hl]
  · intro s l hl
    rcases hcases s l hl with ⟨-, rfl⟩ | ⟨hl, -, -⟩
    · simp
    · exact h.nonempty s l hl
  · intro s l hl
    rcases hcases s l hl with ⟨-, rfl⟩ | ⟨hl, hp, hq⟩
    · have hne : ∀ q ∈ nodes, q ≠ p := by
        rintro q hq rfl
        exact hfresh _ (hnodes _ hq)
      refine hlinked.concat hndn (fun q hq => ?_) (by rw [hnode, if_pos rfl]) (fun q hq => ?_)
        (by rw [hnode, if_pos rfl])
      · rw [hnode, if_neg (hne q hq)]
        split_ifs <;> rfl
      · rw [hnode, if_neg (hne q hq)]
        split_ifs <;> rfl
    · refine (h.linked s l hl).congr (fun q hql => ?_) fun q hql => ?_ <;>
        rw [hkeep q (by rintro rfl; exact hp hql) (hq q hql)]
  · intro s l hl q hq
    rcases hcases s l hl with ⟨rfl, rfl⟩ | ⟨hl, -, -⟩
    · rcases List.mem_append.mp hq with hq | hq
      · exact hrests _ (price, nodes) q (hlevel (List.ne_nil_of_mem hq)) hq
      · rw [List.mem_singleton.mp hq]
        exact ⟨by rw [hnode, if_pos rfl], by rw [hself], by rw [hself, htype],
          by rw [hself, hprice]⟩
    · exact hrests s l q hl hq
  · rw [hfree]
    refine h.threaded.2.congr fun q hq => ?_
    have hfn := (List.nodup_append.mp h.nodup).2.1
    rw [hkeep q (by rintro rfl; exact (List.nodup_cons.mp hfn).1 hq) fun hqn =>
      h.not_mem_free (hnodes q hqn) (List.mem_cons_of_mem _ hq)]
  · rw [hcap]
    refine List.Perm.trans (List.perm_iff_count.mpr fun a => ?_) h.perm
    cases hs : incoming.side with
    | buy =>
      rw [hs] at hptrs hptrs'
      rw [hptrs', hptrs, hptrs'ne .sell (by simp [hs])]
      simp only [List.count_append, List.count_cons]
      omega
    | sell =>
      rw [hs] at hptrs hptrs'
      rw [hptrs', hptrs, hptrs'ne .buy (by simp [hs])]
      simp only [List.count_append, List.count_cons]
      omega
  · intro id q
    have hmem' : (∃ s, q ∈ L'.ptrs s) ↔ (∃ s, q ∈ L.ptrs s) ∨ q = p := by
      constructor
      · rintro ⟨s, hq⟩
        by_cases hs : s = incoming.side
        · subst hs
          rw [hptrs'] at hq
          have : q ∈ L.ptrs incoming.side ∨ q = p := by
            rw [hptrs]
            simp only [List.mem_append, List.mem_cons] at hq ⊢
            tauto
          exact this.imp_left fun hq => ⟨_, hq⟩
        · rw [hptrs'ne s hs] at hq
          exact Or.inl ⟨s, hq⟩
      · rintro (⟨s, hq⟩ | rfl)
        · by_cases hs : s = incoming.side
          · subst hs
            refine ⟨incoming.side, ?_⟩
            rw [hptrs] at hq
            rw [hptrs']
            simp only [List.mem_append, List.mem_cons] at hq ⊢
            tauto
          · exact ⟨s, by rwa [hptrs'ne s hs]⟩
        · exact ⟨incoming.side, by simp [hptrs']⟩
    rw [hidx, hmem', Function.update_apply]
    by_cases hq : q = p
    · subst hq
      rw [hself]
      split_ifs with hidq
      · simp [hidq]
      · have : ¬ st.idIndex id = some q := fun he =>
          hfresh _ ((h.index id q).mp he).1.choose_spec
        simp [this, Ne.symm hidq]
    · rw [horder q hq]
      split_ifs with hidq
      · have : ∀ s, q ∈ L.ptrs s → (st.node q).order.id ≠ id := fun s hqs he => by
          have := (h.index id q).mpr ⟨⟨s, hqs⟩, he⟩
          rw [hidq, hid] at this
          cases this
        constructor
        · intro he
          exact absurd (Option.some.inj he).symm hq
        · rintro ⟨⟨s, hqs⟩ | rfl, he⟩
          · exact absurd he (this s hqs)
          · exact absurd rfl hq
      · rw [h.index]
        simp [hq]
  · intro q hq
    rcases List.mem_append.mp hq with hq | hq
    · obtain ⟨l, hl, hql⟩ := List.mem_flatMap.mp hq
      refine ⟨l.1, (h.rests _ l (hold l (Or.inl hl)).1 q hql).price, fun hbetter => ?_⟩
      exact irrefl_of incoming.side.Better _ (IsTrans.trans _ _ _ (hbefore l hl) hbetter)
    · refine ⟨price, (h.rests _ _ (hlevel (List.ne_nil_of_mem hq)) q hq).price, ?_⟩
      exact irrefl_of incoming.side.Better price
  · intro q hq
    obtain ⟨l, hl, hql⟩ := List.mem_flatMap.mp hq
    exact ⟨l.1, (h.rests _ l (hold l (Or.inr hl)).1 q hql).price, hafter l hl⟩

end Store

end OrderBookEngine
