import OrderBookEngine.Refine.Enter

/-!
# The book computes what the market does

The stops wake and fire alike (`checkAndTriggerStops_represents`), so every public call leads from a
book that represents a market to one that represents the market after the same call
(`call_represents`), as long as the stop priorities fit in their arithmetic. `Refine/Run.lean` goes
from one call to a run of calls: the events are the same list, the queues and the dormant stops are
the same (`run_refines`), and the same orders walk at the same moments (`runEntries_represents`).
-/

namespace OrderBookEngine

namespace Book

variable {b : Book} {m : Market} {incoming : Order} {now : ℤ}

/-! ## Waking and firing stops -/

/-- The stop phase wakes the same stops on both sides. -/
theorem wakeStops_represents (h : b.Represents m) (low high : ℤ) :
    (b.wakeStops low high).Represents (m.wakeStops low high) := by
  rw [wakeStops, Market.wakeStops, h.session]
  split_ifs
  · exact h
  · obtain ⟨L, free, K, h⟩ := h
    obtain ⟨hwoke, hlists⟩ := StopBook.take_eq h.lists low high
    refine ⟨L, free, _, rfl, h.queues.congr (fun side => by cases side <;> rfl) rfl, hlists, ?_, ?_, ?_⟩
    · show m.stops.filter _ = _
      rw [h.stops, List.filter_map]
      rfl
    · show b.triggeredStops ++ List.map Prod.snd _ = m.fifo ++ _
      rw [hwoke, h.fifo, h.stops, List.filter_map]
      rfl
    · refine (List.Perm.nodup_iff ?_).mp h.ids
      refine List.Perm.map _ ?_
      show (m.fifo ++ m.stops).Perm (m.fifo ++ m.stops.filter (Market.touched low high) ++
        m.stops.filter fun s => !Market.touched low high s)
      rw [List.append_assoc]
      exact ((List.filter_append_perm _ _).symm).append_left _

/-- Firing a stop keeps the book in step with the market. -/
theorem fireStop_represents (h : b.Represents m) (stop : StopOrder)
    (hfits : (b.fireStop stop now).Fits) :
    (b.fireStop stop now).Represents (m.fireStop stop now) :=
  (addOrderCoreWith_represents (h.emit _) (fun low high _ _ hrep _ _ =>
    wakeStops_represents hrep low high) false).2 hfits

/-- The two queues of woken stops have the same head, and its removal keeps the representation. -/
theorem Represents.pop (h : b.Represents m) {stop : StopOrder} {rest : List StopOrder}
    (hfifo : m.fifo = stop :: rest) :
    b.triggeredStops = stop :: rest ∧
      ({ b with triggeredStops := rest } : Book).Represents { m with fifo := rest } := by
  obtain ⟨L, free, K, h⟩ := h
  refine ⟨h.fifo.trans hfifo, L, free, K, h.session,
    h.queues.congr (fun side => by cases side <;> rfl) rfl, h.lists, h.stops, rfl, ?_⟩
  have := h.ids
  rw [hfifo] at this
  exact (List.nodup_cons.mp this).2

/-- The priorities that `sendBack` hands out are those of the code, if they fit. -/
theorem Fits.wrap_front {b : Book} (h : b.Fits) {p : ℤ} (hp : b.nextFrontPriority < p)
    (hp' : p < kPriorityMid) : b.cfg.priorities.wrap p = p := by
  rcases h with h | ⟨-, h⟩
  · rw [h]
    rfl
  · cases b.cfg.priorities with
    | exact => rfl
    | uint64 =>
      unfold kPriorityMid at h hp'
      rw [PriorityArith.wrap]
      exact Int.emod_eq_of_lt (by omega) (by omega)

/-- A priority below the back counter of a book that fits does not wrap. -/
theorem Fits.wrap_back {b : Book} (h : b.Fits) {p : ℤ} (hp : kPriorityMid ≤ p)
    (hp' : p < b.nextBackPriority) : b.cfg.priorities.wrap p = p := by
  rcases h with h | ⟨h, -⟩
  · rw [h]
    rfl
  · cases b.cfg.priorities with
    | exact => rfl
    | uint64 =>
      unfold kPriorityMid at h hp
      rw [PriorityArith.wrap]
      exact Int.emod_eq_of_lt (by omega) (by omega)

/-- Every stop sent to the front moves the front counter one down. -/
theorem nextFrontPriority_foldl (arith : PriorityArith) (stops : List StopOrder) (sb : StopBook) :
    (stops.foldl (fun sb s => sb.insertFront arith s) sb).nextFrontPriority =
      sb.nextFrontPriority - stops.length := by
  induction stops generalizing sb with
  | nil => simp
  | cons s stops ih =>
    have hfront : (sb.insertFront arith s).nextFrontPriority = sb.nextFrontPriority - 1 := rfl
    rw [List.foldl_cons, ih, hfront, List.length_cons]
    omega

/-- Sending the woken stops back keeps the book in step with the market. -/
theorem sendBack_represents (h : b.Represents m) (hfits : b.sendBack.Fits) :
    b.sendBack.Represents m.sendBack := by
  obtain ⟨L, free, K, h⟩ := h
  have hnd : ((b.triggeredStops.reverse ++ K.map Prod.snd).map StopOrder.id).Nodup := by
    refine (List.Perm.nodup_iff ?_).mp h.ids
    rw [h.fifo, h.stops]
    exact ((List.reverse_perm _).symm.append_right _).map _
  have hfront : b.sendBack.nextFrontPriority =
      b.nextFrontPriority - b.triggeredStops.reverse.length :=
    nextFrontPriority_foldl _ _ _
  obtain ⟨K', hK', hmap⟩ := StopBook.lists_foldl_insertFront b.triggeredStops.reverse h.lists hnd
    fun p h1 h2 => hfits.wrap_front (by rw [hfront]; exact h1)
      (lt_of_le_of_lt h2 h.lists.front_lt)
  refine ⟨L, free, K', h.session, h.queues.congr (fun side => by cases side <;> rfl) rfl, hK', ?_, rfl, ?_⟩
  · show m.fifo ++ m.stops = _
    rw [hmap, List.reverse_reverse, h.fifo, h.stops]
  · exact h.ids

/-- The queue is drained alike. -/
theorem drainLoop_represents (fuel : ℕ) : ∀ {b : Book} {m : Market}, b.Represents m →
    (drainLoop now fuel b).Fits → (drainLoop now fuel b).Represents (m.drain now fuel) := by
  induction fuel with
  | zero => exact fun h _ => h
  | succ fuel ih =>
    intro b m h hfits
    rw [Market.drain]
    rw [drainLoop] at hfits ⊢
    cases hfifo : m.fifo with
    | nil =>
      obtain ⟨L, free, K, hrep⟩ := h
      rw [hrep.fifo.trans hfifo]
      exact ⟨L, free, K, hrep⟩
    | cons stop rest =>
      obtain ⟨hstops, hpop⟩ := h.pop hfifo
      simp only [hstops, h.halted] at hfits ⊢
      split_ifs at hfits ⊢ with hhalt
      · exact sendBack_represents h hfits
      · exact ih (fireStop_represents hpop stop ((grows_drainLoop now fuel _).fits hfits)) hfits

/-- The number of stops that the fuel counts. -/
theorem Represents.pendingStops (h : b.Represents m) :
    b.pendingStops = m.stops.length + m.fifo.length := by
  obtain ⟨L, free, K, h⟩ := h
  rw [Book.pendingStops, h.lists.length_eq, h.stops, h.fifo, List.length_map]

/-- The draining flag is not part of what a book represents. -/
theorem Represents.withDraining (h : b.Represents m) (draining : Bool) :
    ({ b with drainingStops := draining } : Book).Represents m := by
  obtain ⟨L, free, K, h⟩ := h
  exact ⟨L, free, K, h.session, h.queues, h.lists, h.stops, h.fifo, h.ids⟩

/-- **Triggering.** Outside of a drain, the stops that a sweep reaches are woken and fired alike. -/
theorem checkAndTriggerStops_represents (h : b.Represents m) (hdrain : b.drainingStops = false)
    (low high : ℤ) (hfits : (checkAndTriggerStops low high now b).Fits) :
    (checkAndTriggerStops low high now b).Represents (m.triggerStops low high now) := by
  have hw := wakeStops_represents h low high
  have hwd := (grows_wakeStops low high b).drainingStops.trans hdrain
  rw [Market.triggerStops]
  rw [checkAndTriggerStops] at hfits ⊢
  simp only [h.halted, hwd, Bool.false_eq_true, if_false] at hfits ⊢
  by_cases hh : m.halted = true
  · have hm : m.wakeStops low high = m := by rw [Market.wakeStops, if_pos hh]
    simp only [hm, hh, if_true]
    exact h
  · have hm : (m.wakeStops low high).halted = m.halted := by
      rw [Market.wakeStops, if_neg hh]
    simp only [hm, if_neg hh] at hfits ⊢
    set b' := b.wakeStops low high
    have hw' := hw.withDraining true
    have hpending : ({ b' with drainingStops := true } : Book).pendingStops =
        (m.wakeStops low high).stops.length + (m.wakeStops low high).fifo.length := hw'.pendingStops
    rw [hpending] at hfits ⊢
    exact (drainLoop_represents _ hw' hfits).withDraining false

/-! ## The public calls -/

/-- Two results agree, and the books represent each other if the priorities fit. -/
def Agrees {ρ : Type} (r : Book × ρ) (r' : Market × ρ) : Prop :=
  r.2 = r'.2 ∧ (r.1.Fits → r.1.Represents r'.1)

/-- Outside a drain loop `add_order_core` agrees with the market's entry of an order. -/
theorem addOrderCore_represents (h : b.Represents m) (hdrain : b.drainingStops = false)
    (incoming : Order) (now : ℤ) (reportReject : Bool) :
    Agrees (b.addOrderCore incoming now reportReject) (m.enter incoming now reportReject) :=
  addOrderCoreWith_represents h (fun low high _ _ hrep hd hfits =>
    checkAndTriggerStops_represents hrep (hd.trans hdrain) low high hfits) reportReject

/-- `add_order` agrees with the market's. -/
theorem addOrder_represents (h : b.Represents m) (hdrain : b.drainingStops = false)
    (incoming : Order) (now : ℤ) : Agrees (b.addOrder incoming now) (m.addOrder incoming now) :=
  addOrderCore_represents h hdrain incoming now true

/-- `modify_order` agrees with the market's. -/
theorem modifyOrder_represents (h : b.Represents m) (hdrain : b.drainingStops = false)
    (id : OrderId) (requester : OwnerId) (price qty now : ℤ) :
    Agrees (b.modifyOrder id requester price qty now) (m.modifyOrder id requester price qty now) := by
  have hrefuse : ∀ {b m}, b.Represents m → ∀ result : OrderResult, Agrees (b, result) (m, result) :=
    fun h _ => ⟨rfl, fun _ => h⟩
  have howned : b.ownedBy id requester = m.ownedBy id requester := by rw [h.session]
  have hfinished : b.finishedOrders id = m.finishedOrders id := by rw [h.session]
  rw [modifyOrder, Market.modifyOrder, howned]
  cases m.ownedBy id requester with
  | false => exact hrefuse h _
  | true =>
    rcases h.lookup id with ⟨h1, h2⟩ | ⟨p, h1, h2⟩
    · rw [h1, h2, hfinished]
      exact hrefuse h _
    · rw [h1, h2]
      simp only [Bool.not_true, Bool.false_eq_true, if_false]
      set order := (b.node p).order with horder
      -- The branches of the source, in its order: invalid, no more than filled, in place, and replaced.
      by_cases hbad : Session.validateOrderFields { order with price := some price, quantity := qty } ≠
          RejectReason.none
      · rw [if_pos hbad, if_pos hbad]
        exact hrefuse h _
      rw [if_neg hbad, if_neg hbad]
      by_cases hnone : qty - order.filled ≤ 0
      · rw [if_pos hnone, if_pos hnone]
        have := (h.emit (order.event .cancelled now)).remove (i := id) (p := p) h1
        exact hrefuse this _
      rw [if_neg hnone, if_neg hnone]
      by_cases hsame : some price = order.price ∧ qty - order.filled ≤ order.quantity
      · rw [if_pos hsame, if_pos hsame]
        have hr := h.reduce h1 (order.quantity - (qty - order.filled))
        -- The event is of the order as it is after the change.
        have horder' : ((b.reduceResting p (order.quantity - (qty - order.filled))).node p).order =
            { order with quantity := qty - order.filled } := by
          rw [Store.node_reduceResting, if_pos rfl]
          simp only [← horder]
          congr 1
          omega
        have := hr.emit (({ order with quantity := qty - order.filled } : Order).event .modified now)
        rw [horder']
        exact hrefuse this _
      rw [if_neg hsame, if_neg hsame]
      set replacement : Order := { order with price := some price, quantity := qty - order.filled }
      have hv := h.withSession (m.validateNewOrder replacement now).1
      rw [h.session]
      by_cases hinvalid : (m.validateNewOrder replacement now).2 ≠ RejectReason.none
      · rw [if_pos hinvalid, if_pos hinvalid]
        exact hrefuse hv _
      rw [if_neg hinvalid, if_neg hinvalid]
      -- The old order leaves before the new one enters.
      have := (hv.emit (order.event .replaced now)).remove (i := id) (p := p) h1
      exact addOrderCore_represents this hdrain replacement now false

/-- `cancel_order` agrees with the market's. -/
theorem cancelOrder_represents (h : b.Represents m) (id : OrderId) (requester : OwnerId) (now : ℤ) :
    Agrees (b.cancelOrder id requester now) (m.cancelOrder id requester now) := by
  have howned : b.ownedBy id requester = m.ownedBy id requester := by rw [h.session]
  have hfinished : b.finishedOrders id = m.finishedOrders id := by rw [h.session]
  rw [cancelOrder, Market.cancelOrder, howned]
  cases m.ownedBy id requester with
  | false => exact ⟨rfl, fun _ => h⟩
  | true =>
    rcases h.lookup id with ⟨h1, h2⟩ | ⟨p, h1, h2⟩
    · rw [h1, h2, hfinished]
      exact ⟨rfl, fun _ => h⟩
    · rw [h1, h2]
      have := (h.emit ((b.node p).order.event .cancelled now)).remove (i := id) (p := p) h1
      exact ⟨rfl, fun _ => this⟩

/-- `place_stop_order` agrees with the market's, as long as no stop is woken. -/
theorem placeStopOrder_represents (h : b.Represents m) (hfifo : m.fifo = []) (stop : StopOrder)
    (now : ℤ) : Agrees (b.placeStopOrder stop now) (m.placeStopOrder stop now) := by
  rw [placeStopOrder, Market.placeStopOrder]
  simp only [h.session, h.idInUse]
  -- Both sides make the checks in the same order, and refuse for the same reason.
  set bad := if (decide ((if (decide (Session.validateStopFields stop = RejectReason.none) &&
      m.idInUse stop.id) = true then RejectReason.duplicateOrderId
      else Session.validateStopFields stop) = RejectReason.none) &&
      m.wouldTriggerNow stop.side stop.stopPrice) = true then RejectReason.stopWouldTrigger
    else if (decide (Session.validateStopFields stop = RejectReason.none) && m.idInUse stop.id) = true
      then RejectReason.duplicateOrderId
      else Session.validateStopFields stop with hbad
  by_cases hne : bad ≠ RejectReason.none
  · rw [if_pos hne, if_pos hne]
    exact ⟨rfl, fun _ => h.withSession _⟩
  rw [if_neg hne, if_neg hne]
  have huse : m.idInUse stop.id = false := by
    by_contra huse
    rw [Bool.not_eq_false] at huse
    refine hne ?_
    rw [hbad, huse]
    cases Session.validateStopFields stop <;> simp
  refine ⟨rfl, fun hfits => ?_⟩
  obtain ⟨L, free, K, h⟩ := h
  have hfresh : ∀ e ∈ K, e.2.id ≠ stop.id := by
    have hnone : m.stop? stop.id = none := by
      rw [Market.idInUse] at huse
      simp only [Bool.or_eq_false_iff, Option.isSome_eq_false_iff, Option.isNone_iff_eq_none] at huse
      exact huse.2
    rw [Market.stop?, h.stops, List.find?_eq_none] at hnone
    intro e he
    simpa using hnone e.2 (List.mem_map_of_mem he)
  -- The next priority has not wrapped, so the stop goes to the end of the list.
  have hwrap : m.cfg.priorities.wrap b.nextBackPriority = b.nextBackPriority :=
    hfits.wrap_back h.lists.le_back (by
      show b.nextBackPriority < b.nextBackPriority + 1
      omega)
  have hlists := StopBook.lists_insertBack stop h.lists hfresh hwrap
  have hrep : ({ b with toStopBook := b.insertBack m.cfg.priorities stop } : Book).Represents
      { m with stops := m.stops ++ [stop] } := by
    refine ⟨L, free, _, h.session, h.queues.congr (fun side => by cases side <;> rfl) rfl, hlists, ?_,
      h.fifo, ?_⟩
    · rw [h.stops, List.map_append]
      rfl
    · have hnd := h.ids
      rw [hfifo] at hnd
      rw [hfifo, List.nil_append, List.map_append]
      refine List.nodup_append.mpr ⟨hnd, List.nodup_singleton _, fun a ha c hc => ?_⟩
      rw [List.mem_singleton.mp hc]
      rintro rfl
      obtain ⟨s, hs, hsid⟩ := List.mem_map.mp ha
      rw [h.stops] at hs
      obtain ⟨e, he, rfl⟩ := List.mem_map.mp hs
      exact hfresh e he hsid
  have := hrep.withSession { m.toSession with
    stopIdsSeen := Function.update m.stopIdsSeen stop.id true }
  exact this.emit _

/-- `cancel_stop_order` agrees with the market's. -/
theorem cancelStopOrder_represents (h : b.Represents m) (id : OrderId) (requester : OwnerId)
    (now : ℤ) :
    Agrees (b.cancelStopOrder id requester now) (m.cancelStopOrder id requester now) := by
  rw [cancelStopOrder, Market.cancelStopOrder, h.session]
  cases m.ownedBy id requester with
  | false => exact ⟨rfl, fun _ => h⟩
  | true =>
    obtain ⟨L, free, K, h⟩ := h
    simp only [Bool.not_true, Bool.false_eq_true, if_false, Market.stop?]
    rw [h.stops]
    rcases h.lists.lookup id with ⟨h1, h2⟩ | ⟨e, he, hid, h1, h2⟩
    · rw [h1, h2]
      exact ⟨rfl, fun _ => ⟨L, free, K, h⟩⟩
    · rw [h1, h2]
      simp only [h.lists.find?_eq he]
      subst hid
      refine ⟨rfl, fun _ => ?_⟩
      -- The list of the stops is cut at the one that goes.
      obtain ⟨A, B, rfl, hne⟩ := h.lists.exists_split he
      have hrep : ({ b with
          toStopBook := { b.eraseStop { side := e.2.side, key := (e.2.stopPrice, e.1) } with
            stopIndex := Function.update b.stopIndex e.2.id none } } : Book).Represents
          { m with stops := (A ++ B).map Prod.snd } := by
        refine ⟨L, free, A ++ B, h.session, h.queues.congr (fun side => by cases side <;> rfl) rfl,
          h.lists.erase, rfl, h.fifo, h.ids.sublist ?_⟩
        rw [h.stops]
        exact (List.Sublist.append_left ((List.Sublist.append_left (List.sublist_cons_self e B) A).map
          _) _).map _
      rw [StopBook.filter_split hne]
      have hidx : (b.eraseStop { side := e.2.side, key := (e.2.stopPrice, e.1) }).stopIndex =
          b.stopIndex := by simp [StopBook.eraseStop]
      rw [← hidx] at hrep
      exact (hrep.withSession m.toSession).emit _

/-- `modify_stop_order` agrees with the market's. -/
theorem modifyStopOrder_represents (h : b.Represents m) (id : OrderId) (requester : OwnerId)
    (price : ℤ) (limit : Option ℤ) (qty now : ℤ) :
    Agrees (b.modifyStopOrder id requester price limit qty now)
      (m.modifyStopOrder id requester price limit qty now) := by
  rw [modifyStopOrder, Market.modifyStopOrder, h.session]
  cases m.ownedBy id requester with
  | false => exact ⟨rfl, fun _ => h⟩
  | true =>
    obtain ⟨L, free, K, h⟩ := h
    simp only [Bool.not_true, Bool.false_eq_true, if_false, Market.stop?]
    rw [h.stops]
    rcases h.lists.lookup id with ⟨h1, h2⟩ | ⟨e, he, hid, h1, h2⟩
    · rw [h1, h2]
      exact ⟨rfl, fun _ => ⟨L, free, K, h⟩⟩
    · rw [h1, h2]
      simp only [h.lists.find?_eq he]
      subst hid
      set updated : StopOrder :=
        { e.2 with stopPrice := price, limitPrice := limit, quantity := qty } with hupdated
      by_cases hbad : Session.validateStopFields updated ≠ RejectReason.none
      · rw [if_pos hbad, if_pos hbad]
        exact ⟨rfl, fun _ => ⟨L, free, K, h⟩⟩
      rw [if_neg hbad, if_neg hbad]
      by_cases htrigger : m.wouldTriggerNow updated.side updated.stopPrice = true
      · rw [if_pos htrigger, if_pos htrigger]
        exact ⟨rfl, fun _ => ⟨L, free, K, h⟩⟩
      rw [if_neg htrigger, if_neg htrigger]
      refine ⟨rfl, fun hfits => ?_⟩
      -- The list of the stops is cut at the one that changes.
      obtain ⟨A, B, rfl, hne⟩ := h.lists.exists_split he
      rw [Market.replaceStop]
      have hkeep : (updated.stopPrice = e.2.stopPrice ∧ updated.limitPrice = e.2.limitPrice ∧
          updated.quantity ≤ e.2.quantity) ↔
          price = e.2.stopPrice ∧ limit = e.2.limitPrice ∧ qty ≤ e.2.quantity := Iff.rfl
      by_cases hplace : price = e.2.stopPrice ∧ limit = e.2.limitPrice ∧ qty ≤ e.2.quantity
      · rw [if_pos hplace] at hfits ⊢
        rw [if_pos (hkeep.mpr hplace), StopBook.map_split updated hne]
        -- It keeps its priority, and so its place in the list.
        have hlists := StopBook.lists_rewrite (e := e) h.lists (show updated.id = e.2.id from rfl)
        have hrep : ({ b with
            toStopBook := (b.eraseStop { side := e.2.side, key := (e.2.stopPrice, e.1)
              }).insertDormantStop updated e.1 } : Book).Represents
            { m with stops := (A ++ (e.1, updated) :: B).map Prod.snd } := by
          refine ⟨L, free, _, h.session, h.queues.congr (fun side => by cases side <;> rfl) rfl, hlists,
            rfl, h.fifo, ?_⟩
          have hnd := h.ids
          rw [h.stops] at hnd
          simpa using hnd
        exact (hrep.withSession m.toSession).emit _
      · rw [if_neg hplace] at hfits ⊢
        rw [if_neg (mt hkeep.mp hplace), StopBook.filter_split hne]
        have hback : (b.eraseStop { side := e.2.side, key := (e.2.stopPrice, e.1) }).nextBackPriority =
            b.nextBackPriority := by simp [StopBook.eraseStop]
        -- It takes the next priority, which has not wrapped, and so goes to the end of the list.
        have hwrap : m.cfg.priorities.wrap b.nextBackPriority = b.nextBackPriority :=
          hfits.wrap_back h.lists.le_back (by
            show b.nextBackPriority <
              (b.eraseStop { side := e.2.side, key := (e.2.stopPrice, e.1) }).nextBackPriority + 1
            omega)
        have hlists := StopBook.lists_moveBack (e := e) h.lists (show updated.id = e.2.id from rfl) hwrap
        have hrep : ({ b with
            toStopBook := (b.eraseStop { side := e.2.side, key := (e.2.stopPrice, e.1)
              }).insertBack m.cfg.priorities updated } : Book).Represents
            { m with stops := (A ++ B).map Prod.snd ++ [updated] } := by
          refine ⟨L, free, _, h.session, h.queues.congr (fun side => by cases side <;> rfl) rfl, hlists,
            ?_, h.fifo, ?_⟩
          · exact (@List.map_append _ _ Prod.snd (A ++ B) [(b.nextBackPriority, updated)]).symm
          · refine (List.Perm.nodup_iff ?_).mp h.ids
            rw [h.stops]
            simp only [List.map_append, List.map_cons, List.map_nil]
            exact (List.perm_middle.trans (List.perm_append_singleton e.2.id _).symm).append_left _
        exact (hrep.withSession m.toSession).emit _

/-! ## Runs -/

/-- Between calls the queue of woken stops is empty and no drain is under way. -/
structure Refines (b : Book) (m : Market) : Prop where
  /-- The book represents the market. -/
  represents : b.Represents m
  /-- No stop is woken. -/
  fifo : m.fifo = []
  /-- No drain loop is running. -/
  drainingStops : b.drainingStops = false

/-- One call. -/
theorem call_represents (h : b.Refines m) (c : Call) (hfits : (b.call c).Fits) :
    (b.call c).Represents (m.call c) := by
  obtain ⟨h, hfifo, hdrain⟩ := h
  cases c with
  | addOrder order now => exact (addOrder_represents h hdrain order now).2 hfits
  | modifyOrder id requester price qty now =>
    exact (modifyOrder_represents h hdrain id requester price qty now).2 hfits
  | cancelOrder id requester now => exact (cancelOrder_represents h id requester now).2 hfits
  | placeStopOrder stop now => exact (placeStopOrder_represents h hfifo stop now).2 hfits
  | cancelStopOrder id requester now => exact (cancelStopOrder_represents h id requester now).2 hfits
  | modifyStopOrder id requester price limit qty now =>
    exact (modifyStopOrder_represents h id requester price limit qty now).2 hfits

end Book

end OrderBookEngine
