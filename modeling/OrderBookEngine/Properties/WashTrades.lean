import OrderBookEngine.Market.Trades
import OrderBookEngine.Refine.Run

/-!
# No wash trades

A walk stops before the first order of its own owner (`Walk.Meets.owner`), so no trade has one owner
on both sides. A walk that ends in self-trade prevention has eaten whole orders of other owners off
the head of the queue, and nothing else (`walkLoop_selfTrade`).
-/

namespace OrderBookEngine

namespace Market

variable {m : Market} {now : ℤ} {order : Order}

/-! ## Every trade -/

/-- The buyer is not the seller. -/
theorem wash_trades_invariant : CallInvariant (fun _ => True) fun s =>
    True ∧ EachTrade (fun _ e => e.ownerId ≠ e.otherOwner) s.market.events := by
  refine CallInvariant.each_trade ⟨fun _ _ _ _ => trivial, fun _ _ _ _ _ => trivial,
    fun _ _ _ => trivial⟩ fun {w x xs now outside breach} _ _ hmeets _ => ?_
  show (w.nextTrade now x).buyOwner ≠ (w.nextTrade now x).sellOwner
  unfold Walk.nextTrade Session.mkTrade
  cases hside : w.incoming.side with
  | buy => simpa [hside] using Ne.symm hmeets.owner
  | sell => simpa [hside] using hmeets.owner

/-! ## A walk that ends in self-trade prevention -/

/-- What a walk of self-trade prevention has eaten off a queue. -/
structure SelfTraded (owner : OwnerId) (before after eaten : List RestingOrder) : Prop where
  /-- They were at its head. -/
  split : before = eaten ++ after
  /-- They were of other owners. -/
  others : ∀ x ∈ eaten, x.ownerId ≠ owner
  /-- The order behind them is of the same owner. -/
  head : ∃ x xs, after = x :: xs ∧ x.ownerId = owner

/-- The walk stops at an order of its owner. -/
theorem walkLoop_selfTrade (xs : List RestingOrder) {w : Walk}
    (hqueue : w.incoming.quantity = 0 ∨ w.market.queue w.incoming.side.opposite = xs)
    (hend : (walkLoop now xs w).2 = .selfTrade) :
    0 < (walkLoop now xs w).1.incoming.quantity ∧
      (∃ eaten, SelfTraded w.incoming.ownerId xs
        ((walkLoop now xs w).1.market.queue w.incoming.side.opposite) eaten) ∧
      (walkLoop now xs w).1.market.queue w.incoming.side = w.market.queue w.incoming.side := by
  induction xs generalizing w with
  | nil => cases hend
  | cons x xs ih =>
    rw [walkLoop] at hend ⊢
    split_ifs at hend ⊢ with hquantity hcrosses hcollar howner
    · -- The walk is here with a quantity left, so the queue is what it walks down.
      have hpos : 0 < w.incoming.quantity := by omega
      have hxs := hqueue.resolve_left (by omega)
      exact ⟨hpos, ⟨[], hxs.symm, by simp, x, xs, hxs, howner⟩, rfl⟩
    · cases hband : w.market.bandDecision now w.breachLevel x.price with
      | halt => simp [hband] at hend
      | limit => simp [hband] at hend
      | print outside breach =>
        simp only [hband] at hend ⊢
        obtain ⟨hpos, ⟨eaten, heaten⟩, hside⟩ :=
          ih (w := w.trade now x xs outside breach) (w.queue_trade now x xs outside breach) hend
        -- The first order is eaten before those that the rest of the walk eats.
        refine ⟨hpos, ⟨x :: eaten, ?_, ?_, heaten.head⟩, hside.trans (w.queue_trade_side ..)⟩
        · rw [List.cons_append]
          exact congrArg _ heaten.split
        · intro y hy
          rcases List.mem_cons.mp hy with rfl | hy
          · exact howner
          · exact heaten.others y hy

/-- Only self-trade prevention answers `SelfTrade`. -/
theorem settle_selfTrade {w : Walk} {ending : WalkEnd}
    (h : (settle w ending now).2.rejectReason = .selfTrade) : ending = .selfTrade := by
  -- No other ending gives this answer, wherever the rest goes.
  have hedge : ∀ (m : Market) (order : Order) (trades : List Trade) (why : RejectReason),
      why ≠ .selfTrade → (m.restAtBandEdge order trades why now).2.rejectReason ≠ .selfTrade := by
    intro m order trades why hwhy
    unfold restAtBandEdge
    simp only
    split_ifs
    · cases m.restOrder (m.atBandEdge order) now with
      | none => exact hwhy
      | some m' => simp
    all_goals exact hwhy
  have hrunOut : ∀ (m : Market) (order : Order) (trades : List Trade) (why : RejectReason),
      why ≠ .selfTrade → (m.runOut order trades why now).2.rejectReason ≠ .selfTrade := by
    intro m order trades why hwhy
    unfold runOut
    split_ifs
    · cases m.restOrder order now with
      | none => simp [expire]
      | some m' => simp
    all_goals exact hwhy
  cases ending with
  | selfTrade => rfl
  | halted => exact absurd h (hedge _ _ _ _ (by simp))
  | bandLimited => exact absurd h (hedge _ _ _ _ (by simp))
  | exhausted => exact absurd h (hrunOut _ _ _ _ (by simp))
  | collar =>
    refine absurd h (hrunOut _ _ _ _ ?_)
    split_ifs <;> simp

/-- **Self-trade prevention.** The remainder expires. -/
theorem walk_selfTrade (h : (m.walk order now).2.rejectReason = .selfTrade) :
    (∃ eaten, SelfTraded order.ownerId (m.queue order.side.opposite)
      ((m.walk order now).1.queue order.side.opposite) eaten) ∧
    (m.walk order now).1.queue order.side = m.queue order.side ∧
    0 < (m.walk order now).2.unacceptedQuantity ∧
    ∃ e, (m.walk order now).1.events.getLast? = some e ∧ e.kind = .expired ∧ e.orderId = order.id ∧
      e.quantity = (m.walk order now).2.unacceptedQuantity := by
  unfold walk at h ⊢
  simp only at h ⊢
  -- Only a walk that ends at an order of its owner gives this answer.
  have hend := settle_selfTrade h
  obtain ⟨hpos, heaten, hside⟩ := walkLoop_selfTrade (m.queue order.side.opposite)
    (w := { market := m, incoming := order }) (Or.inr rfl) hend
  obtain ⟨quantity, filled, hincoming⟩ :=
    walkLoop_incoming now (m.queue order.side.opposite) { market := m, incoming := order }
  set r := walkLoop now (m.queue order.side.opposite) { market := m, incoming := order }
  rw [hend, settle, markIfFilled_of_pos hpos, expire]
  simp only [queue_emit]
  refine ⟨heaten, hside, hpos, (r.1.incoming.event .expired now).numbered r.1.market.nextSeq, ?_, rfl,
    ?_, rfl⟩
  · rw [events_emit, List.getLast?_append]
    rfl
  · show r.1.incoming.id = order.id
    rw [hincoming]

end Market

namespace Book

/-- What an order's own walk has done when it ends in self-trade prevention, before any stop fires. The
other side has lost whole orders of other owners off its head, its best order is now one of the same
owner, and the remainder of the incoming order has expired. -/
structure SelfTradePrevented (e : Entry Book) (b : Book) (result : OrderResult) : Prop where
  /-- The other side has lost what the walk has eaten. -/
  opposite : ∃ eaten, Market.SelfTraded e.order.ownerId (e.state.collect e.order.side.opposite)
    (b.collect e.order.side.opposite) eaten
  /-- The own side is as it was. -/
  ownSide : b.collect e.order.side = e.state.collect e.order.side
  /-- The order does not rest. -/
  notResting : b.idIndex e.order.id = none
  /-- A quantity remains. -/
  remainder : 0 < result.unacceptedQuantity
  /-- The remainder has expired, with the last event. -/
  expired : ∃ event, b.events.getLast? = some event ∧ event.kind = .expired ∧
    event.orderId = e.order.id ∧ event.quantity = result.unacceptedQuantity

/-- An order that is on neither side is not in the index. -/
theorem Represents.idIndex_eq_none {b : Book} {m : Market} (h : b.Represents m) {id : OrderId}
    (hid : ∀ side, ∀ x ∈ m.queue side, x.orderId ≠ id) : b.idIndex id = none := by
  rcases h.lookup id with ⟨hnone, -⟩ | ⟨p, -, hfound⟩
  · exact hnone
  · obtain ⟨side, x, hx, hxid, -⟩ := Market.mem_of_restingOrder? hfound
    exact absurd hxid (hid side x hx)

/-- The walk of an entry that ends in self-trade prevention. -/
theorem SameEntry.selfTrade {e : Entry Book} {e' : Entry Market} (h : SameEntry e e')
    (hwf : Market.Stage.Wf e'.start)
    (hself : (e.state.walk e.order e.now).2.rejectReason = .selfTrade) :
    SelfTradePrevented e (e.state.walk e.order e.now).1 (e.state.walk e.order e.now).2 := by
  obtain ⟨hrep, hresult⟩ := h.walk
  have hstart := h.represents
  rw [hresult] at hself ⊢
  obtain ⟨hopposite, hside, hpos, event, hlast, hk, hid, hquantity⟩ := Market.walk_selfTrade hself
  have hout : ∀ side, ∀ x ∈ e'.state.queue side, x.orderId ≠ e'.order.id := fun side x hx =>
    hwf.1.queue_ne (List.mem_singleton_self _) hx
  refine ⟨?_, ?_, hrep.idIndex_eq_none fun side x hx => ?_, hpos, event, ?_, hk, ?_, hquantity⟩
  · rw [hstart.collect_eq, hrep.collect_eq, h.order]
    exact hopposite
  · rw [hrep.collect_eq, hstart.collect_eq, h.order]
    exact hside
  · rw [h.order]
    by_cases hs : side = e'.order.side
    · rw [hs, hside] at hx
      exact hout _ x hx
    · -- What is left on the other side was there before.
      have hs' : side = e'.order.side.opposite := by
        cases side <;> cases hside' : e'.order.side <;> simp [hside', Side.opposite] at hs ⊢
      obtain ⟨eaten, heaten⟩ := hopposite
      refine hout e'.order.side.opposite x ?_
      rw [heaten.split]
      exact List.mem_append_right _ (hs' ▸ hx)
  · rw [hrep.session]
    exact hlast
  · rw [h.order]
    exact hid

/-- **No wash trades.** No trade has one owner on both sides. Whenever an order's own walk ends in
self-trade prevention, the orders of its owner on the other side are untouched, the best of what is
left there is one of them, and the remainder expires. -/
theorem no_wash_trades (cfg : Config) (calls : List Call)
    (hfits : ((Book.make cfg).run calls).Fits) :
    (∀ e ∈ ((Book.make cfg).run calls).events, e.kind = .trade → e.ownerId ≠ e.otherOwner) ∧
    ∀ e ∈ (Book.make cfg).runEntries calls,
      (e.state.walk e.order e.now).2.rejectReason = .selfTrade →
        SelfTradePrevented e (e.state.walk e.order e.now).1 (e.state.walk e.order e.now).2 := by
  have h := run_refines cfg calls hfits
  refine ⟨fun e he hk => ?_, fun e he hself => ?_⟩
  · rw [h.represents.session] at he
    obtain ⟨before, after, hsplit⟩ := List.append_of_mem he
    exact (Market.wash_trades_invariant.run_trades trivial calls) before e after hsplit hk
  · obtain ⟨e', hsame, hreach⟩ := exists_entry cfg calls hfits he
    exact hsame.selfTrade hreach.wf hself

/-- An owner buys from another owner and stops at its own order, which stays first in its queue. -/
theorem no_wash_trades_two :
    let b := Book.make { poolCapacity := 4 }
    let calls : List Call :=
      [.addOrder { id := 1, ownerId := 1, side := .sell, type := .limit, price := some 100,
                   quantity := 1 } 0,
       .addOrder { id := 2, ownerId := 2, side := .sell, type := .limit, price := some 101,
                   quantity := 1 } 0,
       .addOrder { id := 3, ownerId := 2, side := .buy, type := .limit, price := some 101,
                   quantity := 5 } 0]
    (∀ e ∈ (b.run calls).events, e.kind = .trade → e.ownerId ≠ e.otherOwner) ∧
    ∀ e ∈ b.runEntries calls, (e.state.walk e.order e.now).2.rejectReason = .selfTrade →
      SelfTradePrevented e (e.state.walk e.order e.now).1 (e.state.walk e.order e.now).2 :=
  no_wash_trades { poolCapacity := 4 } _ (fits_run rfl _)

end Book

end OrderBookEngine
