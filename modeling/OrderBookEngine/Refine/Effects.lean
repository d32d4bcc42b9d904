import OrderBookEngine.Market.Answers
import OrderBookEngine.Refine.Run

/-!
# What the operations do

A cancellation takes an order or a stop out of the book (`Withdraws`), a smaller quantity is set in the order's
place (`Shrinks`), and a stop that is placed or modified is then the dormant stop of its id (`Arms`). Each of them
emits one event, and does nothing else to the orders and the stops.
-/

namespace OrderBookEngine

namespace Book

variable {b b' : Book} {m : Market} {id : OrderId} {requester : OwnerId} {now : ℤ}

/-- A book has emitted one event more, of a kind and about an id. -/
def Reports (b b' : Book) (kind : EventKind) (id : OrderId) : Prop :=
  ∃ e, b'.events = b.events ++ [e] ∧ e.kind = kind ∧ e.orderId = id

/-- An order or a stop has been taken out of the book, with one event. -/
structure Withdraws (b b' : Book) (kind : EventKind) (id : OrderId) : Prop where
  /-- The event is the last. -/
  reports : b.Reports b' kind id
  /-- The id has ended. -/
  ended : b'.finalState id = some .cancelled
  /-- The other orders keep their places. -/
  collect : ∀ side, b'.collect side = (b.collect side).filter fun x => x.orderId ≠ id
  /-- The other stops stay. -/
  dormant : ∀ stop, stop ∈ b'.dormant ↔ stop ∈ b.dormant ∧ stop.id ≠ id

/-- An order has been given a smaller quantity in its place, with one event. -/
structure Shrinks (b b' : Book) (id : OrderId) (quantity : ℤ) : Prop where
  /-- The event is the last. -/
  reports : b.Reports b' .modified id
  /-- All orders keep their places, and the others their quantities. -/
  collect : ∀ side, b'.collect side =
    (b.collect side).map fun x => if x.orderId = id then { x with quantity } else x
  /-- The stops stay. -/
  dormant : ∀ stop, stop ∈ b'.dormant ↔ stop ∈ b.dormant

/-- A stop has been put among the dormant ones, in place of any other of its id, with one event. -/
structure Arms (b b' : Book) (kind : EventKind) (stop : StopOrder) : Prop where
  /-- The event is the last. -/
  reports : b.Reports b' kind stop.id
  /-- The orders stay. -/
  collect : ∀ side, b'.collect side = b.collect side
  /-- The other stops stay. -/
  dormant : ∀ s, s ∈ b'.dormant ↔ s = stop ∨ s ∈ b.dormant ∧ s.id ≠ stop.id

/-! ## Orders -/

/-- An order that the market takes out is taken out of its book. -/
theorem Represents.withdraws (h : b.Represents m) (hwf : m.Wf []) {side : Side} {x : RestingOrder}
    (hx : x ∈ m.queue side)
    (h' : b'.Represents ((m.emit ((x.toOrder side).event .cancelled now)).remove x.orderId)) :
    b.Withdraws b' .cancelled x.orderId where
  reports := by
    refine ⟨((x.toOrder side).event .cancelled now).numbered m.nextSeq, ?_, rfl, rfl⟩
    rw [h'.session, h.session]
    rfl
  ended := by
    show b'.finishedOrders x.orderId = _
    rw [h'.session]
    exact Function.update_self ..
  collect side' := by
    rw [h'.collect_eq, h.collect_eq, Market.queue_remove, Market.queue_emit]
  dormant stop := by
    rw [h'.dormant_perm.mem_iff, h.dormant_perm.mem_iff]
    exact (and_iff_left_of_imp fun hs => hwf.stop_ne_of_mem hx (List.mem_append_right _ hs)).symm

/-- An order that the market reduces is reduced in its book. -/
theorem Represents.shrinks (h : b.Represents m) (hwf : m.Wf []) {side : Side} {x : RestingOrder}
    (hx : x ∈ m.queue side) {quantity : ℤ}
    (h' : b'.Represents ((m.reduce x.orderId (x.quantity - quantity)).emit
      ({ x.toOrder side with quantity }.event .modified now))) :
    b.Shrinks b' x.orderId quantity where
  reports := by
    refine ⟨(({ x.toOrder side with quantity } : Order).event .modified now).numbered m.nextSeq, ?_, rfl, rfl⟩
    rw [h'.session, h.session]
    rfl
  collect side' := by
    rw [h'.collect_eq, h.collect_eq, Market.queue_emit]
    have hreduce : (m.reduce x.orderId (x.quantity - quantity)).queue side' = (m.queue side').map fun y =>
        if y.orderId = x.orderId then { y with quantity := y.quantity - (x.quantity - quantity) } else y := by
      cases side' <;> rfl
    rw [hreduce]
    refine List.map_congr_left fun y hy => ?_
    by_cases hid : y.orderId = x.orderId
    · -- The order of the id is `x` itself.
      obtain rfl := hwf.eq_of_orderId hx hy hid
      rw [if_pos rfl, if_pos rfl, sub_sub_cancel]
    · rw [if_neg hid, if_neg hid]
  dormant stop := by
    rw [h'.dormant_perm.mem_iff, h.dormant_perm.mem_iff]
    rfl

/-- The owner of a resting order can take it out. -/
theorem Refines.cancelOrder_withdraws (h : b.Refines m) (hwf : m.Wf [])
    (howned : b.ownedBy id requester = true) (hresting : (b.idIndex id).isSome) (now : ℤ) :
    (b.cancelOrder id requester now).2 = .none ∧
      b.Withdraws (b.cancelOrder id requester now).1 .cancelled id := by
  obtain ⟨p, hidx⟩ := Option.isSome_iff_exists.mp hresting
  have hfound := h.represents.restingOrder?_eq hidx
  have hrep := (h.represents.emit ((b.node p).order.event .cancelled now)).remove (i := id) (p := p) hidx
  unfold cancelOrder
  rw [howned, hidx]
  refine ⟨rfl, ?_⟩
  obtain ⟨side, x, hx, rfl, horder⟩ := Market.mem_of_restingOrder? hfound
  rw [show ((b.emit ((b.node p).order.event .cancelled now)).node p).order = x.toOrder side from horder,
    horder] at hrep
  have := h.represents.withdraws hwf hx hrep
  rwa [← horder] at this

/-- A change of a resting order that puts no quantity on the market. -/
def Reduces (order : Order) (price quantity : ℤ) : Prop :=
  quantity - order.filled ≤ 0 ∨
    some price = order.price ∧ quantity - order.filled ≤ order.quantity

/-- Such a change takes no priority. -/
theorem fits_modifyOrder {p : Ptr} (howned : b.ownedBy id requester = true) (hidx : b.idIndex id = some p)
    {price quantity : ℤ}
    (hvalid : Session.validateOrderFields { (b.node p).order with price := some price, quantity } = .none)
    (hreduces : Reduces (b.node p).order price quantity) (hfits : b.Fits) :
    (b.modifyOrder id requester price quantity now).1.Fits := by
  unfold modifyOrder
  rw [howned, hidx]
  simp only [Bool.not_true, Bool.false_eq_true, if_false]
  rw [if_neg (not_not.mpr hvalid)]
  split_ifs with hnone hplace
  · exact hfits
  · exact hfits
  all_goals exact absurd hreduces (not_or.mpr ⟨hnone, hplace⟩)

/-- The owner of a resting order can change it to less: to no more than is filled, which takes it out, or to less at
the same price. -/
theorem Refines.modifyOrder_reduces (h : b.Refines m) (hwf : m.Wf []) {p : Ptr}
    (howned : b.ownedBy id requester = true) (hidx : b.idIndex id = some p) {price quantity : ℤ}
    (hvalid : Session.validateOrderFields { (b.node p).order with price := some price, quantity } = .none)
    (hreduces : Reduces (b.node p).order price quantity) (hfits : b.Fits) (now : ℤ) :
    let left := quantity - (b.node p).order.filled
    let r := b.modifyOrder id requester price quantity now
    r.2.rejectReason = .none ∧
      (left ≤ 0 ∧ b.Withdraws r.1 .cancelled id ∨ 0 < left ∧ b.Shrinks r.1 id left) := by
  intro left r
  have hfound := h.represents.restingOrder?_eq hidx
  have howned' : m.ownedBy id requester = true := h.represents.session ▸ howned
  obtain ⟨hanswer, hrep⟩ := modifyOrder_represents h.represents h.drainingStops id requester price quantity now
  have hrep := hrep (fits_modifyOrder howned hidx hvalid hreduces hfits)
  have hcases := Market.modifyOrder_cases hwf h.fifo id requester price quantity now
  rw [show r.2 = _ from hanswer, show left = quantity - (b.node p).order.filled from rfl]
  -- The order of the node is the resting order of the id, which its owner changes to less.
  obtain ⟨side, x, hx, rfl, horder⟩ := Market.mem_of_restingOrder? hfound
  rw [horder] at hvalid hreduces hfound ⊢
  generalize m.modifyOrder x.orderId requester price quantity now = r' at hrep hcases ⊢
  cases hcases with
  | unowned owned => exact absurd (howned'.symm.trans owned) Bool.noConfusion
  | notResting owned found => cases hfound.symm.trans found
  | invalid owned found fields bad =>
    obtain rfl := Option.some.inj (hfound.symm.trans found)
    rw [hvalid] at fields
    rcases bad with rfl | rfl <;> cases fields
  | halted owned found pos change =>
    obtain rfl := Option.some.inj (hfound.symm.trans found)
    exact absurd hreduces (not_or.mpr ⟨not_le.mpr pos, change⟩)
  | withdraw owned found le =>
    obtain rfl := Option.some.inj (hfound.symm.trans found)
    exact ⟨rfl, Or.inl ⟨le, h.represents.withdraws hwf hx hrep⟩⟩
  | reduce owned found pos place =>
    obtain rfl := Option.some.inj (hfound.symm.trans found)
    exact ⟨rfl, Or.inr ⟨pos, h.represents.shrinks hwf hx hrep⟩⟩
  | replace owned found pos change =>
    obtain rfl := Option.some.inj (hfound.symm.trans found)
    exact absurd hreduces (not_or.mpr ⟨not_le.mpr pos, change⟩)

/-! ## Stops -/

/-- A stop that the market puts among its own is put among those of its book. -/
theorem Represents.arms (h : b.Represents m) {m' : Market} (h' : b'.Represents m') {stop : StopOrder}
    {kind : EventKind} (hevents : m'.events = m.events ++ [(stop.event kind now).numbered m.nextSeq])
    (hqueue : ∀ side, m'.queue side = m.queue side)
    (hstops : ∀ s, s ∈ m'.stops ↔ s = stop ∨ s ∈ m.stops ∧ s.id ≠ stop.id) : b.Arms b' kind stop where
  reports := by
    refine ⟨(stop.event kind now).numbered m.nextSeq, ?_, rfl, rfl⟩
    rw [h'.session, h.session]
    exact hevents
  collect side := by rw [h'.collect_eq, h.collect_eq, hqueue]
  dormant s := by rw [h'.dormant_perm.mem_iff, h.dormant_perm.mem_iff, hstops]

/-- A new stop that passes the checks waits among the others. -/
theorem Refines.placeStopOrder_arms (h : b.Refines m) {stop : StopOrder}
    (hvalid : Session.validateStopFields stop = .none) (hfresh : b.idInUse stop.id = false)
    (hahead : b.wouldTriggerNow stop.side stop.stopPrice = false) (hfits : (b.placeStopOrder stop now).1.Fits) :
    (b.placeStopOrder stop now).2 = .none ∧ b.Arms (b.placeStopOrder stop now).1 .stopAccepted stop := by
  obtain ⟨hanswer, hrep⟩ := placeStopOrder_represents h.represents h.fifo stop now
  have hrep := hrep hfits
  rw [h.represents.idInUse] at hfresh
  rw [h.represents.session] at hahead
  have heq : m.placeStopOrder stop now =
      (({ m with
        stops := m.stops ++ [stop]
        stopIdsSeen := Function.update m.stopIdsSeen stop.id true } : Market).emit (stop.event .stopAccepted now),
        .none) := by
    simp [Market.placeStopOrder, hvalid, hfresh, hahead]
  rw [heq] at hanswer hrep
  refine ⟨hanswer, h.represents.arms hrep rfl (fun side => by cases side <;> rfl) fun s => ?_⟩
  have hne : s ∈ m.stops → s.id ≠ stop.id := fun hs hid => by
    refine (Market.notMem_of_idInUse h.fifo hfresh).1 (List.mem_append_right _ ?_)
    exact hid ▸ List.mem_map_of_mem (List.mem_append_right _ hs)
  rw [and_iff_left_of_imp hne]
  exact (List.mem_append.trans (or_congr_right List.mem_singleton)).trans or_comm

/-- The cancellation of a stop takes no priority. -/
theorem fits_cancelStopOrder (hfits : b.Fits) : (b.cancelStopOrder id requester now).1.Fits := by
  unfold cancelStopOrder
  split_ifs
  · exact hfits
  · cases b.stopIndex id with
    | none => exact hfits
    | some location =>
      simp only
      cases (b.stopsFor location.side).find? location.key with
      | none => exact hfits
      | some stop =>
        have hback : (b.eraseStop location).nextBackPriority = b.nextBackPriority := by simp [StopBook.eraseStop]
        have hfront : (b.eraseStop location).nextFrontPriority = b.nextFrontPriority := by
          simp [StopBook.eraseStop]
        exact hfits.imp_right (And.imp (hback.symm ▸ ·) (hfront.symm ▸ ·))

/-- The owner of a dormant stop can take it out. -/
theorem Refines.cancelStopOrder_withdraws (h : b.Refines m) (hwf : m.Wf [])
    (howned : b.ownedBy id requester = true) (hdormant : (b.stopIndex id).isSome) (hfits : b.Fits) (now : ℤ) :
    (b.cancelStopOrder id requester now).2 = .none ∧
      b.Withdraws (b.cancelStopOrder id requester now).1 .stopCancelled id := by
  obtain ⟨hanswer, hrep⟩ := cancelStopOrder_represents h.represents id requester now
  have hrep := hrep (fits_cancelStopOrder hfits)
  rw [h.represents.stopIndex_isSome] at hdormant
  obtain ⟨stop, hfound⟩ := Option.isSome_iff_exists.mp hdormant
  obtain ⟨hs, rfl⟩ := Market.stop?_spec hfound
  have howned' : m.ownedBy stop.id requester = true := h.represents.session ▸ howned
  have heq : m.cancelStopOrder stop.id requester now =
      (({ m with stops := m.stops.filter fun s => s.id ≠ stop.id } : Market).emit
        (stop.event .stopCancelled now), .none) := by
    unfold Market.cancelStopOrder
    rw [howned', hfound]
    rfl
  rw [heq] at hanswer hrep
  refine ⟨hanswer, ⟨(stop.event .stopCancelled now).numbered m.nextSeq, ?_, rfl, rfl⟩, ?_, fun side => ?_,
    fun s => ?_⟩
  · rw [hrep.session, h.represents.session]
    rfl
  · show (b.cancelStopOrder stop.id requester now).1.finishedOrders stop.id = _
    rw [hrep.session]
    exact Function.update_self ..
  · rw [hrep.collect_eq, h.represents.collect_eq, Market.queue_emit]
    -- No resting order has the id of a stop.
    refine Eq.trans (by cases side <;> rfl) (List.filter_eq_self.mpr fun x hx => ?_).symm
    exact decide_eq_true (hwf.stop_ne_of_mem hx (List.mem_append_right _ hs)).symm
  · rw [hrep.dormant_perm.mem_iff, h.represents.dormant_perm.mem_iff]
    show s ∈ m.stops.filter _ ↔ _
    rw [List.mem_filter, decide_eq_true_iff]

/-- The owner of a dormant stop can change it, to what passes the checks. -/
theorem Refines.modifyStopOrder_arms (h : b.Refines m) (hwf : m.Wf []) {stop : StopOrder}
    (howned : b.ownedBy stop.id requester = true) (hdormant : stop ∈ b.dormant) {stopPrice : ℤ}
    {limitPrice : Option ℤ} {quantity : ℤ}
    (hvalid : Session.validateStopFields { stop with stopPrice, limitPrice, quantity } = .none)
    (hahead : b.wouldTriggerNow stop.side stopPrice = false)
    (hfits : (b.modifyStopOrder stop.id requester stopPrice limitPrice quantity now).1.Fits) :
    let r := b.modifyStopOrder stop.id requester stopPrice limitPrice quantity now
    r.2 = .none ∧ b.Arms r.1 .stopModified { stop with stopPrice, limitPrice, quantity } := by
  intro r
  obtain ⟨hanswer, hrep⟩ :=
    modifyStopOrder_represents h.represents stop.id requester stopPrice limitPrice quantity now
  have hrep := hrep hfits
  have hs : stop ∈ m.stops := h.represents.dormant_perm.mem_iff.mp hdormant
  -- The stop of the id is this one, so the market changes it.
  have hfound : m.stop? stop.id = some stop := by
    obtain ⟨stop', hfound⟩ := Option.isSome_iff_exists.mp (Market.stop?_isSome.mpr (List.mem_map_of_mem hs))
    obtain ⟨hs', hid⟩ := Market.stop?_spec hfound
    rw [hfound, Keyed.eq_of_key hwf.nodup_stops hs' hs hid]
  rw [h.represents.session] at howned hahead
  have heq : m.modifyStopOrder stop.id requester stopPrice limitPrice quantity now =
      (({ m with
        stops := Market.replaceStop m.stops stop { stop with stopPrice, limitPrice, quantity } } : Market).emit
          ({ stop with stopPrice, limitPrice, quantity }.event .stopModified now), .none) := by
    simp [Market.modifyStopOrder, howned, hfound, hvalid, hahead]
  rw [heq] at hanswer hrep
  refine ⟨hanswer, h.represents.arms hrep rfl (fun side => by cases side <;> rfl) fun s => ?_⟩
  refine (Market.Wf.replaceStop_perm hwf.nodup_stops hs).mem_iff.trans ?_
  rw [List.mem_cons, List.mem_filter, decide_eq_true_iff]

end Book

end OrderBookEngine
