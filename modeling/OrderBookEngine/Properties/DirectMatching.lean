import OrderBookEngine.Refine.Run

/-!
# Planning first is matching one at a time

`directLoop` is matching without a plan: every pass reads the head of the best level of the other side
from the book as it stands, and stops or trades with it. `add_order_core` plans all its fills before it
carries out the first, with node pointers into a book that the fills change and free. The two are the
same (`plan_is_direct`): they leave the same book and the same trades, and the first condition that
stops the direct loop is the one that is reported.
-/

namespace OrderBookEngine

namespace Book

open Market (WalkEnd)

/-! ## The direct loop -/

/-- The price of the best level of a side, and the node at its head. -/
def bestHead (b : Book) (side : Side) : Option (ℤ × Ptr) :=
  (b.sideMap side).entries.head?.bind fun e => e.2.head.map fun node => (e.1, node)

/-- Matching one order at a time, with the reason for which it stops. It needs one pass more than there
are orders on the other side. -/
def directLoop (now : ℤ) : ℕ → FillLoop → FillLoop × WalkEnd
  | 0, l => (l, .exhausted)
  | fuel + 1, l =>
    if l.incoming.quantity ≤ 0 then (l, .exhausted)
    else
      match l.book.bestHead l.incoming.side.opposite with
      | none => (l, .exhausted)
      | some (price, node) =>
        let head := (l.book.node node).order
        if !l.incoming.crosses price then (l, .exhausted)
        else if !l.book.insideCollar l.incoming price then (l, .collar)
        else if head.ownerId = l.incoming.ownerId then (l, .selfTrade)
        else
          let l := fillStep now l
            { passiveNode := node, fillPrice := price,
              fillQuantity := min l.incoming.quantity head.quantity }
          if l.haltedByBand then (l, .halted)
          else if l.bandLimited then (l, .bandLimited)
          else directLoop now fuel l

/-- The reason that is reported for a remainder. -/
def whyStopped : WalkEnd → RejectReason
  | .halted => .symbolHalted
  | .bandLimited => .priceBand
  | .selfTrade => .selfTrade
  | .collar => .priceCollar
  | .exhausted => .none

/-- What becomes of the remainder, by the first condition that stopped the loop. -/
def settleDirect (l : FillLoop) (ending : WalkEnd) (now : ℤ) : Book × OrderResult :=
  let incoming := l.incoming
  let b :=
    if incoming.quantity = 0 then { l.book with toSession := l.book.markFilled incoming.id }
    else l.book
  let why := whyStopped ending
  match ending with
  | .halted => b.restAtBandEdge incoming l.trades why now
  | .bandLimited => b.restAtBandEdge incoming l.trades why now
  | .selfTrade => b.expire incoming l.trades why now
  | .collar => b.expire incoming l.trades why now
  | .exhausted =>
    if incoming.quantity > 0 ∧ incoming.type = .limit then
      match b.restOrder incoming now with
      | none => b.expire incoming l.trades .poolExhausted now
      | some b => (b, { trades := l.trades, unacceptedQuantity := 0, rejectReason := .none })
    else if incoming.quantity > 0 then b.expire incoming l.trades why now
    else (b, { trades := l.trades, unacceptedQuantity := incoming.quantity, rejectReason := why })

/-! ## Carrying out the plan is the direct loop -/

variable {b : Book} {L : Layout} {free : List Ptr} {K : List (ℤ × StopOrder)} {now : ℤ}

/-- The head of the best level is the head of the side's queue. -/
theorem bestHead_eq (h : b.toStore.Shape L free) (side : Side) :
    b.bestHead side =
      (L.ptrs side).head?.map fun p => ((b.node p).order.resting.price, p) := by
  unfold bestHead
  rw [h.entries side]
  cases hL : L side with
  | nil => simp [Layout.ptrs, hL]
  | cons l levels =>
    have hmem : l ∈ L side := by simp [hL]
    obtain ⟨p, ps, hl⟩ := List.exists_cons_of_ne_nil (h.nonempty side l hmem)
    have hprice : (b.node p).order.resting.price = l.1 := by
      have hrests := h.rests side l hmem p (by simp [hl])
      simp [Order.resting, hrests.price]
    simp [Layout.ptrs, hL, hl, Store.levelOf, hprice]

/-- The direct loop has stopped before an order that is filled. -/
theorem directLoop_of_filled {l : FillLoop} (h : l.incoming.quantity ≤ 0) (fuel : ℕ) :
    directLoop now fuel l = (l, .exhausted) := by
  cases fuel with
  | zero => rfl
  | succ fuel => rw [directLoop, if_pos h]

/-- **The direct loop.** Carrying out what is planned from here is matching from here one order at a
time, and both stop where the market's walk does. -/
theorem directLoop_eq (now : ℤ) (ps : List Ptr) : ∀ {l : FillLoop} {w : Market.Walk} {L : Layout}
    {free : List Ptr}, LoopRep l w L free K → L.ptrs w.incoming.side.opposite = ps →
    ∀ xs, xs = w.market.queue w.incoming.side.opposite → ∀ fuel, ps.length < fuel →
      directLoop now fuel l =
        (fillLoop now (l.book.planQueue w.incoming ps w.incoming.quantity).fills l,
          (Market.walkLoop now xs w).2) := by
  induction ps with
  | nil =>
    rintro l w L free h hptrs xs rfl fuel hfuel
    obtain ⟨fuel, rfl⟩ : ∃ n, fuel = n + 1 := ⟨fuel - 1, by simp at hfuel; omega⟩
    have hq : w.market.queue w.incoming.side.opposite = [] := by
      rw [h.rep.queues.queue, hptrs]
      rfl
    have hhead : l.book.bestHead l.incoming.side.opposite = none := by
      rw [bestHead_eq h.rep.queues.shape, h.incoming, hptrs]
      rfl
    rw [hq, directLoop, hhead]
    split_ifs <;> rfl
  | cons p ps ih =>
    rintro l w L free h hptrs xs hxs fuel hfuel
    obtain ⟨fuel, rfl⟩ : ∃ n, fuel = n + 1 := ⟨fuel - 1, by simp at hfuel; omega⟩
    have hsession := h.rep.session
    have hqueue := h.rep.queues.queue w.incoming.side.opposite
    rw [hptrs, List.map_cons] at hqueue
    set x := (l.book.node p).order.resting with hx
    rw [hqueue] at hxs
    subst hxs
    have hhead : l.book.bestHead w.incoming.side.opposite = some (x.price, p) := by
      rw [bestHead_eq h.rep.queues.shape, hptrs]
      rfl
    have howner : (l.book.node p).order.ownerId = x.ownerId := rfl
    have hquantity : (l.book.node p).order.quantity = x.quantity := rfl
    rw [directLoop, planQueue, Market.walkLoop]
    simp only [h.incoming, hhead, hsession, ← hx, howner, hquantity]
    -- The two loops make the same tests in the same order.
    by_cases hr : w.incoming.quantity ≤ 0
    · rw [if_pos hr, if_pos hr, if_pos hr]
      rfl
    rw [if_neg hr, if_neg hr, if_neg hr]
    by_cases hcross : (!w.incoming.crosses x.price) = true
    · rw [if_pos hcross, if_pos hcross, if_pos hcross]
      rfl
    rw [if_neg hcross, if_neg hcross, if_neg hcross]
    by_cases hinside : (!w.market.insideCollar w.incoming x.price) = true
    · rw [if_pos hinside, if_pos hinside, if_pos hinside]
      rfl
    rw [if_neg hinside, if_neg hinside, if_neg hinside]
    by_cases hself : x.ownerId = w.incoming.ownerId
    · rw [if_pos hself, if_pos hself, if_pos hself]
      rfl
    rw [if_neg hself, if_neg hself, if_neg hself]
    have hfills : (planAfter [fillOf w.incoming p x] (l.book.planQueue w.incoming ps
          (w.incoming.quantity - min w.incoming.quantity x.quantity))).fills =
        fillOf w.incoming p x :: (l.book.planQueue w.incoming ps
          (w.incoming.quantity - min w.incoming.quantity x.quantity)).fills := rfl
    rw [fillOf] at hfills
    rw [hfills, fillLoop, ← fillOf]
    cases hband : w.market.bandDecision now w.breachLevel x.price with
    | halt =>
      have hflag : (fillStep now l (fillOf w.incoming p x)).haltedByBand = true := by
        rw [fillStep, fillOf, h.breachLevel, hsession, hband]
      simp [hflag]
    | limit =>
      have hflags : (fillStep now l (fillOf w.incoming p x)).haltedByBand = false ∧
          (fillStep now l (fillOf w.incoming p x)).bandLimited = true := by
        rw [fillStep, fillOf, h.breachLevel, hsession, hband]
        exact ⟨h.haltedByBand, rfl⟩
      simp [hflags.1, hflags.2]
    | print outside breach =>
      obtain ⟨L', free', hloop, horder, hrest⟩ := fillStep_print h hptrs hqueue hband
      set l' := fillStep now l (fillOf w.incoming p x)
      set w' := w.trade now x (ps.map fun p => (l.book.node p).order.resting) outside breach
      simp only [hloop.haltedByBand, hloop.bandLimited, Bool.or_self, Bool.false_eq_true, if_false]
      have hsame := planQueue_trade hsession hloop horder
      rw [hsame]
      rcases hrest with hptrs' | hfilled
      · have hqueue' : (ps.map fun p => (l.book.node p).order.resting) =
            w'.market.queue w'.incoming.side.opposite := by
          have hq := hloop.rep.queues.queue w.incoming.side.opposite
          rw [hptrs'] at hq
          exact (List.map_congr_left fun q hq => by rw [horder q hq]).trans hq.symm
        exact ih hloop hptrs' _ hqueue' fuel (by simp at hfuel; omega)
      · rw [planQueue_of_filled _ _ hfilled, (walkLoop_of_filled now hfilled _).1]
        exact directLoop_of_filled (by rw [hloop.incoming]; exact hfilled) fuel

/-! ## The remainder -/

/-- The collar stops market orders only, and only while something is left of them. -/
theorem directLoop_collar (now : ℤ) (fuel : ℕ) (l : FillLoop)
    (h : (directLoop now fuel l).2 = .collar) :
    0 < (directLoop now fuel l).1.incoming.quantity ∧
      (directLoop now fuel l).1.incoming.type = .market := by
  induction fuel generalizing l with
  | zero => simp [directLoop] at h
  | succ fuel ih =>
    unfold directLoop at h ⊢
    by_cases hr : l.incoming.quantity ≤ 0
    · simp [hr] at h
    rw [if_neg hr] at h ⊢
    cases hhead : l.book.bestHead l.incoming.side.opposite with
    | none => simp [hhead] at h
    | some head =>
      obtain ⟨price, node⟩ := head
      simp only [hhead] at h ⊢
      by_cases hinside : (!l.book.insideCollar l.incoming price) = true
      · split_ifs at h ⊢ with hcross
        · -- A limit order has no collar.
          have htype : l.incoming.type = .market := by
            cases ht : l.incoming.type with
            | limit => simp [Session.insideCollar, ht] at hinside
            | market => rfl
          exact ⟨Int.not_le.mp hr, htype⟩
      · split_ifs at h ⊢
        exact ih _ h

/-- The remainder is settled by the condition that stopped the walk. -/
theorem settle_eq_settleDirect {l : FillLoop} {plan : MatchPlan} {w : Market.Walk}
    {ending : WalkEnd} (h : SameEnd l plan w ending K) (now : ℤ)
    (hcollared : ending = .collar → 0 < l.incoming.quantity ∧ l.incoming.type = .market) :
    settle l plan now = settleDirect l ending now := by
  obtain ⟨-, -, -, hhalted, hlimited, hself, hcollar⟩ := h
  unfold settle settleDirect
  cases ending with
  | halted => simp [hhalted, hlimited, whyStopped]
  | bandLimited => simp [hhalted, hlimited, whyStopped]
  | selfTrade =>
    have hs : plan.haltedBySelfTrade = true := hself (by simp) (by simp)
    simp [hhalted, hlimited, hs, whyStopped]
  | collar =>
    have hs : plan.haltedBySelfTrade = false := hself (by simp) (by simp)
    have hc : plan.stoppedByCollar = true := hcollar (by simp) (by simp)
    obtain ⟨hleft, hmarket⟩ := hcollared rfl
    simp [hhalted, hlimited, hs, hc, hleft, hmarket, whyStopped]
  | exhausted =>
    have hs : plan.haltedBySelfTrade = false := hself (by simp) (by simp)
    have hc : plan.stoppedByCollar = false := hcollar (by simp) (by simp)
    -- Without a flag the reason is none, and the rest depends on what is left.
    by_cases hleft : 0 < l.incoming.quantity
    · cases htype : l.incoming.type with
      | limit =>
        simp only [hhalted, hlimited, hs, hc, hleft, htype, whyStopped]
        rfl
      | market => simp [hhalted, hlimited, hs, hc, hleft, htype, whyStopped]
    · simp [hhalted, hlimited, hs, hc, hleft, whyStopped]

/-- **Planning first is matching one at a time.** Whatever an order of a run is matched with, the fill
loop over its plan leaves the state that the direct loop leaves, and what is reported follows the first
condition that stops the direct loop. -/
theorem plan_is_direct (cfg : Config) (calls : List Call)
    (hfits : ((Book.make cfg).run calls).Fits) :
    ∀ e ∈ (Book.make cfg).runEntries calls, ∀ fuel,
      (e.state.collect e.order.side.opposite).length < fuel →
        (directLoop e.now fuel e.loop).1 = fillLoop e.now e.plan.fills e.loop ∧
        e.state.walk e.order e.now =
          settleDirect (directLoop e.now fuel e.loop).1 (directLoop e.now fuel e.loop).2 e.now := by
  rintro e he fuel hfuel
  obtain ⟨⟨m, _, _⟩, hsame, -⟩ := exists_entry cfg calls hfits he
  obtain ⟨b, order, now⟩ := e
  obtain ⟨⟨L, free, K, hrep⟩, rfl, rfl, -, -⟩ := hsame
  simp only at hrep hfuel ⊢
  have hloop : LoopRep { book := b, incoming := order } { market := m, incoming := order } L free K :=
    ⟨hrep, rfl, rfl, rfl, rfl, rfl⟩
  have hlength : (L.ptrs order.side.opposite).length < fuel := by
    rw [hrep.queues.shape.collect_eq, List.length_map] at hfuel
    exact hfuel
  -- The direct loop and the planned one both end as the market's walk does.
  have hplan := planMatch_eq hrep.queues.shape order
  have hdirect := directLoop_eq now _ hloop rfl _ rfl fuel hlength
  have hend := (fillLoop_walk now _ hloop rfl (b.planMatch order) hplan _ rfl).1
  have hcollar := directLoop_collar now fuel { book := b, incoming := order }
  unfold Entry.loop Entry.plan
  simp only
  rw [hplan]
  rw [hdirect] at hcollar ⊢
  refine ⟨rfl, ?_⟩
  rw [walk, settle_eq_settleDirect hend now (fun hc => by rw [hplan]; exact hcollar hc), hplan]

/-- A bid that meets two asks of one level, and then one of its own owner's. -/
theorem plan_is_direct_of_three :
    let b := Book.make { poolCapacity := 4 }
    ∀ e ∈ b.runEntries
        [.addOrder { id := 1, ownerId := 1, side := .sell, type := .limit, price := some 100,
                     quantity := 2 } 0,
         .addOrder { id := 2, ownerId := 2, side := .sell, type := .limit, price := some 100,
                     quantity := 3 } 0,
         .addOrder { id := 3, ownerId := 3, side := .sell, type := .limit, price := some 101,
                     quantity := 4 } 0,
         .addOrder { id := 4, ownerId := 3, side := .buy, type := .limit, price := some 105,
                     quantity := 9 } 0],
      ∀ fuel, (e.state.collect e.order.side.opposite).length < fuel →
        (directLoop e.now fuel e.loop).1 = fillLoop e.now e.plan.fills e.loop ∧
        e.state.walk e.order e.now =
          settleDirect (directLoop e.now fuel e.loop).1 (directLoop e.now fuel e.loop).2 e.now :=
  plan_is_direct { poolCapacity := 4 } _ (fits_run rfl _)

end Book

end OrderBookEngine
