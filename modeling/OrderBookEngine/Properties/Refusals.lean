import OrderBookEngine.Market.Answers
import OrderBookEngine.Refine.Run

/-!
# A refused operation changes nothing

A refusal leaves the book as it was, but for the `Rejected` event of a new order or stop, and the
lifting of a halt that has run out before an `add_order`.
-/

namespace OrderBookEngine

namespace Session

/-- The session with one more event, and nothing else changed. -/
def record (s : Session) (e : EngineEvent) : Session :=
  { s with nextSeq := s.nextSeq + 1, events := s.events ++ [e.numbered s.nextSeq] }

/-- A halt that has run out is lifted, with its event. -/
def liftHalt (s : Session) (now : ℤ) : Session :=
  if s.halted ∧ s.haltUntil ≤ now then
    { s with halted := false, outsideBandSince := none }.record
      { kind := .resumed, ts := now, orderId := 0, ownerId := 0, side := .buy, price := none,
        quantity := 0 }
  else s

/-- A rejection is one event, with the id, the quantity and the reason. -/
theorem emitRejected_eq (s : Session) (id : OrderId) (owner : OwnerId) (side : Side)
    (price : Option ℤ) (quantity : ℤ) (limitPrice : Option ℤ) (why : RejectReason) (now : ℤ) :
    ∃ e, e.kind = .rejected ∧ e.orderId = id ∧ e.quantity = quantity ∧ e.rejectReason = why ∧
      s.emitRejected id owner side price quantity limitPrice why now = s.record e :=
  ⟨_, rfl, rfl, rfl, rfl, emit_of_quiet s rfl⟩

/-- Validation changes nothing, but that it may lift a halt. -/
theorem validateNewOrder_fst (s : Session) (order : Order) (now : ℤ) :
    (s.validateNewOrder order now).1 = s.liftHalt now := by
  unfold validateNewOrder liftHalt
  by_cases hhalt : s.halted = true
  · by_cases hearly : now < s.haltUntil
    · rw [if_pos hhalt, if_pos hearly, if_neg (by omega)]
    · rw [if_pos hhalt, if_neg hearly, if_pos ⟨hhalt, by omega⟩]
      exact emit_of_quiet _ rfl
  · rw [if_neg hhalt, if_neg (fun h => hhalt h.1)]

end Session

namespace Market

variable {m m' : Market} {order : Order} {now : ℤ}

/-- An admitted order leaves no `Rejected` event. -/
theorem addOrder_not_rejected (hwf : m.Wf []) (hfifo : m.fifo = [])
    (hadm : m.admitted order now = some m') :
    ∃ es, (m.addOrder order now).1.events = m.events ++ es ∧ ∀ e ∈ es, e.kind ≠ .rejected := by
  obtain ⟨before, n, es, hevents, hresumed, hkinds⟩ := addOrder_events hwf hfifo hadm
  refine ⟨_, hevents, fun e he => ?_⟩
  rcases List.mem_append.mp he with he | he
  · simp [hresumed e he]
  · rcases List.mem_cons.mp he with rfl | he
    · simp [Order.event]
    · intro hk
      have := hkinds e he
      simp [hk, EventKind.ofStep] at this

end Market

namespace Book

variable {b : Book} {m : Market}

/-- A refused `modify_order` leaves the book as it was. -/
theorem modifyOrder_refused (h : b.Refines m) (hwf : m.Wf []) (id : OrderId) (requester : OwnerId)
    (price quantity now : ℤ)
    (hnone : (b.modifyOrder id requester price quantity now).2.rejectReason ≠ .none)
    (hself : (b.modifyOrder id requester price quantity now).2.rejectReason ≠ .selfTrade) :
    (b.modifyOrder id requester price quantity now).1 = b := by
  have hagrees := (modifyOrder_represents h.represents h.drainingStops id requester price quantity now).1
  have howned : b.ownedBy id requester = m.ownedBy id requester := by rw [h.represents.session]
  have hcases := Market.modifyOrder_cases hwf h.fifo id requester price quantity now
  rw [hagrees] at hnone hself
  generalize m.modifyOrder id requester price quantity now = r at hcases hnone hself
  -- A refusal is one of the first four answers, and each of them leaves the book as it is.
  cases hcases with
  | unowned owned =>
    rw [modifyOrder, howned, owned]
    rfl
  | notResting owned found =>
    rcases h.represents.lookup id with ⟨hidx, -⟩ | ⟨p, -, hfound⟩
    · rw [modifyOrder, howned, owned, hidx]
      rfl
    · rw [found] at hfound
      cases hfound
  | @invalid order why owned found fields bad =>
    rcases h.represents.lookup id with ⟨-, hfound⟩ | ⟨p, hidx, hfound⟩
    · rw [found] at hfound
      cases hfound
    · obtain rfl := Option.some.inj (found.symm.trans hfound)
      rw [modifyOrder, howned, owned, hidx]
      simp only [Bool.not_true, Bool.false_eq_true, if_false]
      rw [if_pos (by rw [fields]; rcases bad with rfl | rfl <;> simp)]
  | @halted order owned found pos change halted early =>
    rcases h.represents.lookup id with ⟨-, hfound⟩ | ⟨p, hidx, hfound⟩
    · rw [found] at hfound
      cases hfound
    · obtain rfl := Option.some.inj (found.symm.trans hfound)
      rw [modifyOrder, howned, owned, hidx]
      simp only [Bool.not_true, Bool.false_eq_true, if_false]
      rw [← h.represents.halted] at halted
      -- The halt is still in force, so it is not lifted.
      have hstay : ∀ order, b.validateNewOrder order now = (b.toSession, .symbolHalted) := fun order => by
        rw [Session.validateNewOrder, if_pos halted, if_pos (by rw [h.represents.session]; exact early)]
      rw [hstay]
      split_ifs
      · rfl
      · omega
      · rfl
  | withdraw owned found le => exact absurd rfl hnone
  | reduce owned found pos place => exact absurd rfl hnone
  | replace owned found pos change valid resumes halted enter why => exact absurd why (by simp [hnone, hself])

/-- `modify_order` never answers with a reason that would have cost the order. -/
theorem modifyOrder_rejectReason (h : b.Refines m) (hwf : m.Wf []) (id : OrderId)
    (requester : OwnerId) (price quantity now : ℤ) :
    (b.modifyOrder id requester price quantity now).2.rejectReason ∉
      [RejectReason.poolExhausted, .priceBand, .priceCollar, .duplicateOrderId] := by
  rw [(modifyOrder_represents h.represents h.drainingStops id requester price quantity now).1]
  have hcases := Market.modifyOrder_cases hwf h.fifo id requester price quantity now
  generalize m.modifyOrder id requester price quantity now = r at hcases
  cases hcases with
  | notResting owned found => split_ifs <;> simp
  | invalid owned found fields bad => rcases bad with rfl | rfl <;> simp
  | replace owned found pos change valid resumes halted enter why => rcases why with hwhy | hwhy <;> simp [hwhy]
  | _ => simp

/-- A refused `add_order` leaves its `Rejected` event, behind the lifting of a halt. -/
theorem addOrder_refused (h : b.Refines m) (hwf : m.Wf []) (order : Order) (now : ℤ)
    (hfits : (b.call (.addOrder order now)).Fits)
    (hrejected : ∃ e ∈ b.emitted (.addOrder order now), e.kind = .rejected) :
    ∃ e, e.kind = .rejected ∧ e.orderId = order.id ∧ e.quantity = order.quantity ∧
      (b.addOrder order now).1 = { b with toSession := (b.liftHalt now).record e } := by
  rcases admitted_represents h.represents order now with ⟨hadm, -⟩ | ⟨b', m', -, hadm, -⟩
  · obtain ⟨why, -, heq⟩ := addOrderCoreWith_of_refused checkAndTriggerStops hadm true
    obtain ⟨e, hk, hid, hq, -, hrecord⟩ := (b.liftHalt now).emitRejected_eq order.id order.ownerId
      order.side order.price order.quantity none why now
    refine ⟨e, hk, hid, hq, ?_⟩
    rw [addOrder, addOrderCore, heq, Session.validateNewOrder_fst]
    simp only [if_true]
    rw [hrecord]
  · exfalso
    obtain ⟨es, hes, hkinds⟩ := Market.addOrder_not_rejected hwf h.fifo hadm
    have hcall := (h.call (.addOrder order now) hfits).represents.session
    obtain ⟨e, he, hk⟩ := hrejected
    rw [emitted, hcall, h.represents.session] at he
    have hevents : (m.call (.addOrder order now)).events = m.events ++ es := hes
    rw [hevents, List.drop_left] at he
    exact hkinds e he hk

/-- **A refused operation changes nothing.** -/
theorem refused_unchanged (cfg : Config) (calls : List Call)
    (hfits : ((Book.make cfg).run calls).Fits) :
    let b := (Book.make cfg).run calls
    (∀ id requester now, (b.cancelOrder id requester now).2 ≠ .none →
      (b.cancelOrder id requester now).1 = b) ∧
    (∀ id requester now, (b.cancelStopOrder id requester now).2 ≠ .none →
      (b.cancelStopOrder id requester now).1 = b) ∧
    (∀ id requester stopPrice limitPrice quantity now,
      (b.modifyStopOrder id requester stopPrice limitPrice quantity now).2 ≠ .none →
      (b.modifyStopOrder id requester stopPrice limitPrice quantity now).1 = b) ∧
    (∀ stop now, (b.placeStopOrder stop now).2 ≠ .none →
      ∃ e, e.kind = .rejected ∧ e.orderId = stop.id ∧ e.quantity = stop.quantity ∧
        (b.placeStopOrder stop now).1 = { b with toSession := b.record e }) ∧
    (∀ order now, (b.call (.addOrder order now)).Fits →
      (∃ e ∈ b.emitted (.addOrder order now), e.kind = .rejected) →
      ∃ e, e.kind = .rejected ∧ e.orderId = order.id ∧ e.quantity = order.quantity ∧
        (b.addOrder order now).1 = { b with toSession := (b.liftHalt now).record e }) ∧
    (∀ id requester price quantity now,
      (b.modifyOrder id requester price quantity now).2.rejectReason ≠ .none →
      (b.modifyOrder id requester price quantity now).2.rejectReason ≠ .selfTrade →
      (b.modifyOrder id requester price quantity now).1 = b) ∧
    ∀ id requester price quantity now,
      (b.modifyOrder id requester price quantity now).2.rejectReason ∉
        [RejectReason.poolExhausted, .priceBand, .priceCollar, .duplicateOrderId] := by
  intro b
  have h : b.Refines ((Market.make cfg).run calls) := run_refines cfg calls hfits
  have hwf : ((Market.make cfg).run calls).Wf [] := (reachable_run cfg calls).wf
  refine ⟨fun id requester now hne => ?_, fun id requester now hne => ?_,
    fun id requester stopPrice limitPrice quantity now hne => ?_, fun stop now hne => ?_,
    fun order now => addOrder_refused h hwf order now, modifyOrder_refused h hwf,
    modifyOrder_rejectReason h hwf⟩
  · unfold cancelOrder at hne ⊢
    by_cases howned : (!b.ownedBy id requester) = true
    · rw [if_pos howned]
    · rw [if_neg howned] at hne ⊢
      cases hidx : b.idIndex id with
      | none => rfl
      | some p => simp [hidx] at hne
  · unfold cancelStopOrder at hne ⊢
    split_ifs at hne ⊢
    · rfl
    · cases hidx : b.stopIndex id with
      | none => rfl
      | some loc =>
        simp only [hidx] at hne ⊢
        cases hfind : (b.stopsFor loc.side).find? loc.key with
        | none => rfl
        | some stop => simp [hfind] at hne
  · unfold modifyStopOrder at hne ⊢
    split_ifs at hne ⊢
    · rfl
    · cases hidx : b.stopIndex id with
      | none => rfl
      | some loc =>
        simp only [hidx] at hne ⊢
        cases hfind : (b.stopsFor loc.side).find? loc.key with
        | none => rfl
        | some old =>
          simp only [hfind] at hne ⊢
          split_ifs at hne ⊢ <;> first | rfl | exact absurd rfl hne
  · -- Whatever refuses the stop, one event is recorded.
    have hrecord : ∀ why, ∃ e : EngineEvent, e.kind = .rejected ∧ e.orderId = stop.id ∧
        e.quantity = stop.quantity ∧
          ({ b with
            toSession := b.emitRejected stop.id stop.ownerId stop.side (some stop.stopPrice)
              stop.quantity stop.limitPrice why now } : Book) = { b with toSession := b.record e } := by
      intro why
      obtain ⟨e, hk, hid, hq, -, he⟩ := b.emitRejected_eq stop.id stop.ownerId stop.side
        (some stop.stopPrice) stop.quantity stop.limitPrice why now
      exact ⟨e, hk, hid, hq, by rw [he]⟩
    unfold placeStopOrder at hne ⊢
    simp only at hne ⊢
    split_ifs at hne ⊢ <;> first | exact hrecord _ | exact absurd rfl hne

/-- A pool of two nodes, and both are taken. -/
theorem refused_unchanged_when_full :
    let b := (Book.make { poolCapacity := 2 }).run
      [.addOrder { id := 1, ownerId := 1, side := .buy, type := .limit, price := some 100,
                   quantity := 2 } 0,
       .addOrder { id := 2, ownerId := 2, side := .sell, type := .limit, price := some 101,
                   quantity := 2 } 1]
    (∀ order now, (b.call (.addOrder order now)).Fits →
      (∃ e ∈ b.emitted (.addOrder order now), e.kind = .rejected) →
      ∃ e, e.kind = .rejected ∧ e.orderId = order.id ∧ e.quantity = order.quantity ∧
        (b.addOrder order now).1 = { b with toSession := (b.liftHalt now).record e }) ∧
    (∀ id requester price quantity now,
      (b.modifyOrder id requester price quantity now).2.rejectReason ≠ .none →
      (b.modifyOrder id requester price quantity now).2.rejectReason ≠ .selfTrade →
      (b.modifyOrder id requester price quantity now).1 = b) ∧
    ∀ id requester price quantity now,
      (b.modifyOrder id requester price quantity now).2.rejectReason ∉
        [RejectReason.poolExhausted, .priceBand, .priceCollar, .duplicateOrderId] :=
  (refused_unchanged { poolCapacity := 2 } _ (fits_run rfl _)).2.2.2.2

end Book

end OrderBookEngine
