import OrderBookEngine.Lib.SortedMap
import OrderBookEngine.Lib.LinkedList
import OrderBookEngine.Engine.Types
import Mathlib.Order.Defs.LinearOrder
import Mathlib.Order.RelClasses
import Mathlib.Algebra.Order.Group.Int

/-!
# The store of resting orders

`pool.hpp`, `node.hpp`, `level.hpp`, and the part of `book_levels.cpp` that links nodes into price
levels. A node is named by its index in `nodes_`, and a node pointer is an optional index. A level is
an element of one of the two maps, which `std::map` never moves, so a level pointer is the side and
the key of that element.

The functions follow the code's writes one by one. That the links, the totals, and the index describe
two queues of orders is proved in `Refine/Store.lean`.
-/

namespace OrderBookEngine

/-- A non-null `Node *`: an index into the pool's `nodes_`. -/
abbrev Ptr := ℕ

/-- A non-null `Level *`: the side and the key of a map element. -/
structure LevelRef where
  /-- The map that the level is in. -/
  side : Side
  /-- Its key. -/
  price : ℤ
deriving DecidableEq, Repr

/-- A slot of the pool, with an order in it or on the free list. -/
@[ext]
structure Node where
  /-- Meaningful while the node rests. -/
  order : Order := { id := 0, ownerId := 0, side := .buy, type := .limit, price := none, quantity := 0 }
  /-- The next younger order at the price, or the next free node. -/
  next : Option Ptr := none
  /-- The next older order at the price. -/
  prev : Option Ptr := none
  /-- The price level this node rests in. -/
  level : Option LevelRef := none

/-- The orders at one price, oldest first. -/
@[ext]
structure Level where
  /-- Its key in the map. -/
  price : ℤ
  /-- The oldest order. -/
  head : Option Ptr
  /-- The youngest order. -/
  tail : Option Ptr
  /-- The sum of what its orders have left. -/
  totalQuantity : ℤ := 0
  /-- The number of its orders. -/
  orderCount : UInt32 := 0

/-! ## The node pool -/

/-- All nodes, and those that are free. -/
structure NodePool where
  /-- How many nodes there are. -/
  capacity : ℕ
  /-- The contents of the nodes. -/
  nodes : Ptr → Node
  /-- The first free node. -/
  freeHead : Option Ptr

namespace NodePool

/-- The constructor threads the free list through the `next` links. -/
def make (capacity : ℕ) : NodePool where
  capacity
  nodes i := { next := if i + 1 < capacity then some (i + 1) else none }
  freeHead := if capacity > 0 then some 0 else none

/-- `NodePool::acquire`, which fails when the free list is empty. -/
def acquire (pool : NodePool) : Option (Ptr × NodePool) :=
  match pool.freeHead with
  | none => none
  | some node =>
    some (node, { pool with
      -- The node leaves the free list, and its fields are reset.
      freeHead := (pool.nodes node).next
      nodes := Function.update pool.nodes node {} })

/-- `NodePool::release`. -/
def release (pool : NodePool) (node : Ptr) : NodePool :=
  { pool with
    nodes := Function.update pool.nodes node
      -- The order stays in the node; `acquire` clears it.
      { pool.nodes node with prev := none, next := pool.freeHead }
    freeHead := some node }

end NodePool

/-! ## The sides -/

/-- The order of a side's levels: bids highest first, asks lowest first. -/
def Side.Better : Side → ℤ → ℤ → Prop
  | .buy, p, q => q < p
  | .sell, p, q => p < q

/-- Prices are compared as integers. -/
instance (side : Side) : DecidableRel side.Better := fun p q =>
  match side with
  | .buy => inferInstanceAs (Decidable (q < p))
  | .sell => inferInstanceAs (Decidable (p < q))

/-- On either side, better prices are a strict total order. -/
instance (side : Side) : IsStrictTotalOrder ℤ side.Better :=
  match side with
  | .buy => inferInstanceAs (IsStrictTotalOrder ℤ (· > ·))
  | .sell => inferInstanceAs (IsStrictTotalOrder ℤ (· < ·))

/-- The levels of one side, best first. -/
abbrev SideMap (side : Side) := SortedMap ℤ Level side.Better

/-- The members of `Book` that hold the resting orders. -/
structure Store where
  /-- Highest price first. -/
  bids : SideMap .buy := SortedMap.empty
  /-- Lowest price first. -/
  asks : SideMap .sell := SortedMap.empty
  /-- Where an order rests. -/
  idIndex : OrderId → Option Ptr := fun _ => none
  /-- The nodes of all orders. -/
  nodePool : NodePool

namespace Store

/-- The levels of a side. -/
def sideMap (st : Store) : (side : Side) → SideMap side
  | .buy => st.bids
  | .sell => st.asks

/-- Replace the levels of a side. -/
def setSideMap (st : Store) : (side : Side) → SideMap side → Store
  | .buy, m => { st with bids := m }
  | .sell, m => { st with asks := m }

/-- The contents of a node. -/
def node (st : Store) (p : Ptr) : Node := st.nodePool.nodes p

/-- Overwrite a node. -/
def setNode (st : Store) (p : Ptr) (n : Node) : Store :=
  { st with nodePool := { st.nodePool with nodes := Function.update st.nodePool.nodes p n } }

section Fields

variable (st : Store) {side side' : Side} {p q : Ptr}

/-- The side that is replaced has the new levels. -/
@[simp] theorem sideMap_setSideMap_self (m : SideMap side) :
    (st.setSideMap side m).sideMap side = m := by cases side <;> rfl

/-- The other side is as it was. -/
theorem sideMap_setSideMap_of_ne (m : SideMap side) (h : side' ≠ side) :
    (st.setSideMap side m).sideMap side' = st.sideMap side' := by
  cases side <;> cases side' <;> first | rfl | exact absurd rfl h

/-- Replacing levels leaves the pool alone. -/
@[simp] theorem nodePool_setSideMap (m : SideMap side) :
    (st.setSideMap side m).nodePool = st.nodePool := by cases side <;> rfl

/-- Replacing levels leaves the index alone. -/
@[simp] theorem idIndex_setSideMap (m : SideMap side) :
    (st.setSideMap side m).idIndex = st.idIndex := by cases side <;> rfl

/-- Replacing levels leaves the nodes alone. -/
@[simp] theorem node_setSideMap (m : SideMap side) : (st.setSideMap side m).node p = st.node p := by
  cases side <;> rfl

/-- Overwriting a node leaves the levels alone. -/
@[simp] theorem sideMap_setNode (n : Node) : (st.setNode p n).sideMap side = st.sideMap side := by
  cases side <;> rfl

/-- Overwriting a node leaves the index alone. -/
@[simp] theorem idIndex_setNode (n : Node) : (st.setNode p n).idIndex = st.idIndex := rfl

/-- Overwriting a node leaves the size of the pool alone. -/
@[simp] theorem capacity_setNode (n : Node) :
    (st.setNode p n).nodePool.capacity = st.nodePool.capacity := rfl

/-- Overwriting a node leaves the head of the free list alone. -/
@[simp] theorem freeHead_setNode (n : Node) :
    (st.setNode p n).nodePool.freeHead = st.nodePool.freeHead := rfl

/-- Overwriting a node changes that node alone. -/
theorem node_setNode (n : Node) : (st.setNode p n).node q = if q = p then n else st.node q := by
  simp [node, setNode, Function.update_apply]

/-- A node that is overwritten has the new contents. -/
@[simp] theorem node_setNode_self (n : Node) : (st.setNode p n).node p = n := by simp [node_setNode]

end Fields

/-- Write through a level pointer. -/
def modifyLevel (st : Store) (level : LevelRef) (f : Level → Level) : Store :=
  st.setSideMap level.side ((st.sideMap level.side).modify level.price f)

/-- Changing a level leaves the pool alone. -/
@[simp] theorem nodePool_modifyLevel (st : Store) (level : LevelRef) (f : Level → Level) :
    (st.modifyLevel level f).nodePool = st.nodePool := by simp [modifyLevel]

/-- Changing a level leaves the index alone. -/
@[simp] theorem idIndex_modifyLevel (st : Store) (level : LevelRef) (f : Level → Level) :
    (st.modifyLevel level f).idIndex = st.idIndex := by simp [modifyLevel]

/-- Changing a level leaves the nodes alone. -/
@[simp] theorem node_modifyLevel (st : Store) (level : LevelRef) (f : Level → Level) (p : Ptr) :
    (st.modifyLevel level f).node p = st.node p := by simp [modifyLevel]

/-- `if (p) p->field = value`, for a pointer that may be null. -/
def writeNode (st : Store) (p : Option Ptr) (write : Node → Node) : Store :=
  match p with
  | none => st
  | some q => st.setNode q (write (st.node q))

section WriteNode

variable (st : Store) (p : Option Ptr) (write : Node → Node)

/-- Writing through a pointer leaves the levels alone. -/
@[simp] theorem sideMap_writeNode (side : Side) :
    (st.writeNode p write).sideMap side = st.sideMap side := by cases p <;> simp [writeNode]

/-- Writing through a pointer leaves the index alone. -/
@[simp] theorem idIndex_writeNode : (st.writeNode p write).idIndex = st.idIndex := by
  cases p <;> simp [writeNode]

/-- Writing through a pointer leaves the size of the pool alone. -/
@[simp] theorem capacity_writeNode :
    (st.writeNode p write).nodePool.capacity = st.nodePool.capacity := by
  cases p <;> simp [writeNode]

/-- Writing through a pointer leaves the head of the free list alone. -/
@[simp] theorem freeHead_writeNode :
    (st.writeNode p write).nodePool.freeHead = st.nodePool.freeHead := by
  cases p <;> simp [writeNode]

/-- Writing through a pointer changes the node that it points to. -/
theorem node_writeNode (q : Ptr) :
    (st.writeNode p write).node q = if p = some q then write (st.node q) else st.node q := by
  cases p with
  | none => simp [writeNode]
  | some r =>
    rw [writeNode, node_setNode]
    by_cases h : q = r
    · subst h; simp
    · simp [h, Ne.symm h]

end WriteNode

/-! ## Linking and unlinking -/

/-- The end of `unlink_and_maybe_erase_from_level`: erase a level that lost its last node. -/
def eraseLevelIfEmpty (st : Store) (side : Side) (ref : LevelRef) : Store :=
  match (st.sideMap ref.side).find? ref.price with
  | none => st
  | some level =>
    if level.head = none then st.setSideMap side ((st.sideMap side).erase level.price) else st

/-- `Book::unlink_and_maybe_erase_level`. -/
def unlinkAndMaybeEraseLevel (st : Store) (p : Ptr) : Store :=
  let n := st.node p
  -- Its neighbours are linked to each other first, then the level's ends are moved.
  let st := st.writeNode n.prev fun prev => { prev with next := n.next }
  let st := st.writeNode n.next fun next => { next with prev := n.prev }
  match n.level with
  | none => st -- excluded by the assertion that a resting order always has a level
  | some ref =>
    let st := st.modifyLevel ref fun level =>
      { level with
        totalQuantity := level.totalQuantity - n.order.quantity
        orderCount := level.orderCount - 1
        head := if level.head = some p then n.next else level.head
        tail := if level.tail = some p then n.prev else level.tail }
    let st := st.setNode p { st.node p with level := none }
    -- The map is chosen by the side of the order, the level by the node's pointer.
    st.eraseLevelIfEmpty n.order.side ref

/-- `Book::get_or_create_level`: link the node in at the back of its price level. -/
def getOrCreateLevel (st : Store) (side : Side) (price : ℤ) (p : Ptr) : Store :=
  let st := st.setSideMap side
    ((st.sideMap side).emplace price { price, head := none, tail := none })
  match (st.sideMap side).find? price with
  | none => st -- the level was just created
  | some level =>
    let ref : LevelRef := { side, price }
    let st :=
      if level.head = none then
        st.modifyLevel ref fun level => { level with head := some p, tail := some p }
      else
        -- The node joins behind the level's last one.
        let st := st.setNode p { st.node p with prev := level.tail }
        let st := st.writeNode level.tail fun tail => { tail with next := some p }
        st.modifyLevel ref fun level => { level with tail := some p }
    let st := st.modifyLevel ref fun level =>
      { level with
        totalQuantity := level.totalQuantity + (st.node p).order.quantity
        orderCount := level.orderCount + 1 }
    -- The pointer back is written last.
    st.setNode p { st.node p with level := some ref }

/-- `Book::reduce_resting`. -/
def reduceResting (st : Store) (p : Ptr) (by' : ℤ) : Store :=
  let st :=
    match (st.node p).level with
    | none => st -- excluded by the assertion that a resting order always has a level
    | some ref =>
      st.modifyLevel ref fun level => { level with totalQuantity := level.totalQuantity - by' }
  st.setNode p
    { st.node p with
      order := { (st.node p).order with quantity := (st.node p).order.quantity - by' } }

/-- `fill.passive_node->order.filled += quantity`. -/
def addFilled (st : Store) (p : Ptr) (quantity : ℤ) : Store :=
  st.setNode p
    { st.node p with
      order := { (st.node p).order with filled := (st.node p).order.filled + quantity } }

/-- `Book::remove_resting`. -/
def removeResting (st : Store) (p : Ptr) : Store :=
  let st := st.unlinkAndMaybeEraseLevel p
  { st with
    idIndex := Function.update st.idIndex (st.node p).order.id none
    nodePool := st.nodePool.release p }

/-- What both resting branches of `add_order_core` do with a node from the pool: store the order,
link it in at its price, and index it. `none` is a full pool. -/
def restOrder (st : Store) (incoming : Order) (price : ℤ) : Option Store :=
  match st.nodePool.acquire with
  | none => none
  | some (p, pool) =>
    let st := { st with nodePool := pool }
    let st := st.setNode p { st.node p with order := incoming }
    let st := st.getOrCreateLevel incoming.side price p
    some { st with idIndex := Function.update st.idIndex incoming.id (some p) }

/-! ## Reading -/

/-- The nodes that a loop from `level.head` along `next` visits. -/
def levelNodes (st : Store) (level : Level) : List Ptr :=
  follow (fun p => (st.node p).next) st.nodePool.capacity level.head

/-- The price of a side's first level. -/
def best (st : Store) (side : Side) : Option ℤ :=
  (st.sideMap side).entries.head?.map Prod.fst

/-- A resting node as `Book::snapshot` lists it, under its level's price. -/
def restingAt (st : Store) (price : ℤ) (p : Ptr) : RestingOrder :=
  let order := (st.node p).order
  { orderId := order.id, ownerId := order.ownerId, price, quantity := order.quantity,
    filled := order.filled }

/-- `collect` of `Book::snapshot`. -/
def collect (st : Store) (side : Side) : List RestingOrder :=
  (st.sideMap side).entries.flatMap fun e => (st.levelNodes e.2).map (st.restingAt e.1)

end Store

end OrderBookEngine
