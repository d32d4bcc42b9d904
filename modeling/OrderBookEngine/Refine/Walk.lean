import OrderBookEngine.Refine.Queues
import OrderBookEngine.Refine.StopBook
import OrderBookEngine.Market.Run

/-!
# Planning and filling is walking

`planMatch` reads the other side's levels before anything is changed, and the fill loop then changes
the book under the plan. `planMatch_eq` flattens the levels: the plan is made from one queue of
nodes. `fillLoop_walk` shows that carrying the plan out is the market's walk, which looks at the head
of the queue only when it gets there: the fills already carried out leave the rest of the queue, and
so the rest of the plan, as they were.
-/

namespace OrderBookEngine

/-- A book represents a market, with a layout of its store and its dormant stops by priority. -/
structure Book.Rep (b : Book) (m : Market) (L : Layout) (free : List Ptr)
    (K : List (ℤ × StopOrder)) : Prop where
  /-- The sessions are equal. -/
  session : b.toSession = m.toSession
  /-- The store holds the market's queues. -/
  queues : b.toStore.Queues m L free
  /-- The stop book holds the listed stops. -/
  lists : b.toStopBook.Lists K
  /-- They are the market's dormant stops. -/
  stops : m.stops = K.map Prod.snd
  /-- The queues of woken stops are equal. -/
  fifo : b.triggeredStops = m.fifo
  /-- No id is woken or dormant twice. -/
  ids : ((m.fifo ++ m.stops).map StopOrder.id).Nodup

namespace Book

variable {b : Book} {m : Market} {L : Layout} {free : List Ptr} {K : List (ℤ × StopOrder)}
  {incoming : Order} {now : ℤ}

/-! ## The plan as one queue -/

/-- A plan behind fills already made. -/
def planAfter (fills : List ProposedFill) (plan : MatchPlan) : MatchPlan :=
  { plan with fills := fills ++ plan.fills }

/-- The plan of an order over a queue of nodes. -/
def planQueue (b : Book) (incoming : Order) : List Ptr → ℤ → MatchPlan
  | [], _ => {}
  | node :: nodes, remaining =>
    let x := (b.node node).order.resting
    if remaining ≤ 0 then {}
    else if !incoming.crosses x.price then {}
    else if !b.insideCollar incoming x.price then { stoppedByCollar := true }
    else if x.ownerId = incoming.ownerId then { haltedBySelfTrade := true }
    else
      let fillQty := min remaining x.quantity
      planAfter [{ passiveNode := node, fillPrice := x.price, fillQuantity := fillQty }]
        (planQueue b incoming nodes (remaining - fillQty))

/-- Two plans after one another are the plan after both. -/
theorem planAfter_planAfter (fills fills' : List ProposedFill) (plan : MatchPlan) :
    planAfter fills (planAfter fills' plan) = planAfter (fills ++ fills') plan := by
  simp [planAfter]

/-- Nothing is planned for an order that is filled. -/
theorem planQueue_of_filled (b : Book) (nodes : List Ptr) {remaining : ℤ} (h : remaining ≤ 0) :
    b.planQueue incoming nodes remaining = {} := by
  cases nodes with
  | nil => rfl
  | cons node nodes => simp [planQueue, h]

/-- One level of the plan: its nodes come first, and the rest is planned with what they leave. -/
theorem planAfter_planQueue_append {price : ℤ} (hcross : incoming.crosses price = true)
    (hinside : b.insideCollar incoming price = true) (rest : List Ptr) :
    ∀ (nodes : List Ptr), (∀ p ∈ nodes, (b.node p).order.resting.price = price) →
      ∀ (remaining : ℤ) (plan : MatchPlan), plan.haltedBySelfTrade = false →
        plan.stoppedByCollar = false →
        ∃ remaining' plan', b.planNodes incoming price nodes remaining plan = (remaining', plan') ∧
          plan'.stoppedByCollar = false ∧
          planAfter plan.fills (b.planQueue incoming (nodes ++ rest) remaining) =
            if plan'.haltedBySelfTrade then plan'
            else planAfter plan'.fills (b.planQueue incoming rest remaining')
  | [], _, remaining, plan, hself, hcollar => ⟨remaining, plan, rfl, hcollar, by simp [hself]⟩
  | node :: nodes, hprice, remaining, plan, hself, hcollar => by
    have hnode : (b.node node).order.resting.price = price := hprice node List.mem_cons_self
    -- Filled before this node: both plans stop, with nothing added.
    by_cases hr : remaining ≤ 0
    · refine ⟨remaining, plan, by simp [planNodes, hr], hcollar, ?_⟩
      rw [planQueue_of_filled _ _ hr, planQueue_of_filled _ _ hr, hself]
      rfl
    · by_cases ho : (b.node node).order.ownerId = incoming.ownerId
      · refine ⟨remaining, { plan with haltedBySelfTrade := true }, by simp [planNodes, hr, ho],
          hcollar, ?_⟩
        have howner : (b.node node).order.resting.ownerId = incoming.ownerId := ho
        -- The flag that the level sets is the one that the queue sets.
        rw [List.cons_append, planQueue]
        simp [hr, hnode, hcross, hinside, howner, planAfter, hcollar]
      · obtain ⟨r', plan', heq, hcollar', hrec⟩ := planAfter_planQueue_append hcross hinside rest nodes
          (fun p hp => hprice p (List.mem_cons_of_mem _ hp))
          (remaining - min remaining (b.node node).order.quantity)
          { plan with
            fills := plan.fills ++ [{
              passiveNode := node
              fillPrice := price
              fillQuantity := min remaining (b.node node).order.quantity }] } hself hcollar
        refine ⟨r', plan', by simp [planNodes, hr, ho, heq], hcollar', ?_⟩
        rw [← hrec, List.cons_append, planQueue]
        simp only [hr, hnode, hcross, hinside, if_false, Bool.not_true, Bool.false_eq_true]
        rw [if_neg (by simpa [Order.resting] using ho), planAfter_planAfter]
        rfl

/-- The levels of a layout, planned one by one, are its nodes planned in one queue. -/
theorem walkSide_eq (incoming : Order) (levels : List (ℤ × List Ptr)) (hne : ∀ l ∈ levels, l.2 ≠ [])
    (hnodes : ∀ l ∈ levels, b.levelNodes (b.levelOf l) = l.2)
    (hprice : ∀ l ∈ levels, ∀ p ∈ l.2, (b.node p).order.resting.price = l.1) (remaining : ℤ)
    (plan : MatchPlan) (hself : plan.haltedBySelfTrade = false)
    (hcollar : plan.stoppedByCollar = false) :
    b.walkSide incoming (levels.map fun l => (l.1, b.levelOf l)) remaining plan =
      planAfter plan.fills (b.planQueue incoming (levels.flatMap Prod.snd) remaining) := by
  induction levels generalizing remaining plan with
  | nil =>
    cases plan
    simp_all [walkSide, planQueue, planAfter]
  | cons l levels ih =>
    -- A level is not empty, so its price is that of its first node.
    obtain ⟨p, ps, hl⟩ := List.exists_cons_of_ne_nil (hne l List.mem_cons_self)
    have hp : (b.node p).order.resting.price = l.1 := hprice l List.mem_cons_self p (by simp [hl])
    have hplan : planAfter plan.fills {} = plan := by
      cases plan
      simp_all [planAfter]
    rw [List.map_cons, walkSide, List.flatMap_cons]
    by_cases hr : remaining ≤ 0
    · rw [if_pos hr, planQueue_of_filled _ _ hr, hplan]
    rw [if_neg hr]
    by_cases hcross : incoming.crosses l.1 = true
    swap
    · rw [if_pos (by simpa using hcross), hl, List.cons_append, planQueue, if_neg hr, hp,
        if_pos (by simpa using hcross), hplan]
    rw [if_neg (by simp [hcross])]
    by_cases hinside : b.insideCollar incoming l.1 = true
    swap
    · rw [if_pos (by simpa using hinside), hl, List.cons_append, planQueue, if_neg hr, hp,
        if_neg (by simp [hcross]), if_pos (by simpa using hinside)]
      cases plan
      simp_all [planAfter]
    rw [if_neg (by simp [hinside])]
    -- The level is in reach: the two plans agree over its nodes, and by induction over the rest.
    obtain ⟨r', plan', heq, hcollar', hrec⟩ := planAfter_planQueue_append hcross hinside
      (levels.flatMap Prod.snd) l.2 (hprice l List.mem_cons_self) remaining plan hself hcollar
    rw [hnodes l List.mem_cons_self, heq, hrec]
    simp only
    split_ifs with hs
    · rfl
    · exact ih (fun l hl => hne l (List.mem_cons_of_mem _ hl))
        (fun l hl => hnodes l (List.mem_cons_of_mem _ hl))
        (fun l hl => hprice l (List.mem_cons_of_mem _ hl)) r' plan' (by simpa using hs) hcollar'

/-- The plan is made from the other side's queue. -/
theorem planMatch_eq (h : b.toStore.Shape L free) (incoming : Order) :
    b.planMatch incoming =
      b.planQueue incoming (L.ptrs incoming.side.opposite) incoming.quantity := by
  have hside := walkSide_eq incoming (L incoming.side.opposite)
    (h.nonempty _) (fun l hl => h.levelNodes_levelOf hl)
    (fun l hl p hp => by simp [Order.resting, (h.rests _ l hl p hp).price]) incoming.quantity {} rfl rfl
  rw [planMatch, h.entries, hside]
  simp [planAfter, Layout.ptrs]

/-- The plan reads the orders of its queue and the session's price band. -/
theorem planQueue_congr {b' : Book} {nodes : List Ptr} {incoming' : Order} {remaining : ℤ}
    (horder : ∀ p ∈ nodes, (b'.node p).order = (b.node p).order)
    (hcross : incoming'.crosses = incoming.crosses)
    (hinside : b'.insideCollar incoming' = b.insideCollar incoming)
    (howner : incoming'.ownerId = incoming.ownerId) :
    b'.planQueue incoming' nodes remaining = b.planQueue incoming nodes remaining := by
  induction nodes generalizing remaining with
  | nil => rfl
  | cons node nodes ih =>
    have ih : ∀ remaining, b'.planQueue incoming' nodes remaining =
        b.planQueue incoming nodes remaining :=
      fun remaining => ih fun p hp => horder p (List.mem_cons_of_mem _ hp)
    simp only [planQueue, horder node List.mem_cons_self, hcross, hinside, howner, ih]

/-! ## Carrying the plan out -/

/-- The fill loop and the walk are at the same point. -/
structure LoopRep (l : FillLoop) (w : Market.Walk) (L : Layout) (free : List Ptr)
    (K : List (ℤ × StopOrder)) : Prop where
  /-- The book represents the market. -/
  rep : l.book.Rep w.market L free K
  /-- The incoming order is the same. -/
  incoming : l.incoming = w.incoming
  /-- The trades are the same. -/
  trades : l.trades = w.trades
  /-- The breach level is the same. -/
  breachLevel : l.breachLevel = w.breachLevel
  /-- The band has not halted the walk. -/
  haltedByBand : l.haltedByBand = false
  /-- The walk is not limited by the band. -/
  bandLimited : l.bandLimited = false

/-- The same session may be put into both. -/
theorem Rep.withSession (h : b.Rep m L free K) (s : Session) :
    ({ b with toSession := s } : Book).Rep { m with toSession := s } L free K :=
  ⟨rfl, h.queues.congr (fun side => by cases side <;> rfl) rfl, h.lists, h.stops, h.fifo, h.ids⟩

/-- The price and the quantity at which a walk would trade with a node. -/
def fillOf (incoming : Order) (p : Ptr) (x : RestingOrder) : ProposedFill :=
  { passiveNode := p, fillPrice := x.price, fillQuantity := min incoming.quantity x.quantity }

/-- **One fill.** A printed fill is a trade with the head of the queue. If the head is filled, the rest
of the queue moves up; otherwise the incoming order is. -/
theorem fillStep_print {l : FillLoop} {w : Market.Walk} (h : LoopRep l w L free K) {p : Ptr}
    {ps : List Ptr} {x : RestingOrder} {xs : List RestingOrder}
    (hptrs : L.ptrs w.incoming.side.opposite = p :: ps)
    (hqueue : w.market.queue w.incoming.side.opposite = x :: xs) {outside breach : Option ℤ}
    (hband : w.market.bandDecision now w.breachLevel x.price = .print outside breach) :
    ∃ L' free', LoopRep (fillStep now l (fillOf w.incoming p x)) (w.trade now x xs outside breach)
        L' free' K ∧
      (∀ q ∈ ps, ((fillStep now l (fillOf w.incoming p x)).book.node q).order = (l.book.node q).order) ∧
      (L'.ptrs w.incoming.side.opposite = ps ∨
        (w.trade now x xs outside breach).incoming.quantity ≤ 0) := by
  obtain ⟨b, incoming, trades, _, _, breachLevel⟩ := l
  obtain ⟨m, _, _, _⟩ := w
  obtain ⟨hrep, rfl, rfl, rfl, rfl, rfl⟩ := h
  simp only at hrep hptrs hqueue hband ⊢
  obtain ⟨hx, hxs⟩ : x = (b.node p).order.resting ∧ xs = ps.map fun q => (b.node q).order.resting := by
    have := hrep.queues.queue incoming.side.opposite
    rw [hqueue, hptrs, List.map_cons] at this
    exact List.cons.inj this
  -- The step fills off the front of the queue: its store, trade and session, named for both sides.
  set quantity := min incoming.quantity x.quantity with hquantity
  set st := (b.toStore.addFilled p quantity).reduceResting p quantity with hst
  have horder : (st.node p).order = { (b.node p).order with
      quantity := x.quantity - quantity, filled := x.filled + quantity } := by
    rw [hst, Store.order_fill, if_pos rfl, hx]
    rfl
  set trade := m.mkTrade incoming x.orderId x.ownerId x.price quantity now with htrade
  set s := ({ m.toSession with outsideBandSince := outside } : Session).printTrade trade with hs
  -- The other nodes of the queue are not touched.
  have hpass : ∀ q ∈ ps, q ≠ p := by
    have hnd := hrep.queues.shape.ptrs_nodup incoming.side.opposite
    rw [hptrs] at hnd
    rintro q hq rfl
    exact (List.nodup_cons.mp hnd).1 hq
  have hband' : b.bandDecision now breachLevel x.price = .print outside breach := by
    rw [hrep.session]
    exact hband
  have htrade' : Session.mkTrade { b.toSession with outsideBandSince := outside } incoming
      (b.node p).order.id (b.node p).order.ownerId x.price quantity now = trade := by
    rw [htrade, hx, ← hrep.session]
    rfl
  -- The passive order is used up and leaves its level, or stays in front with what is left.
  by_cases hfull : x.quantity = quantity
  · obtain ⟨L', hqueues, hL', hother⟩ := hrep.queues.fillOff hptrs hqueue quantity
    have hstep : fillStep now { book := b, incoming, trades, breachLevel } (fillOf incoming p x) =
        { book :=
            { b with toSession := s.markFilled x.orderId, toStore := st.removeResting p }
          incoming :=
            { incoming with
              quantity := incoming.quantity - quantity, filled := incoming.filled + quantity }
          trades := trades ++ [trade]
          breachLevel := breach } := by
      have hfilled : (st.node p).order.isFullyFilled = true := by
        simp [horder, Order.isFullyFilled, hfull]
      have hid : (st.node p).order.id = x.orderId := by rw [horder, hx]; rfl
      simp only [fillStep, fillOf, hband', htrade', ← hquantity, ← hst, hfilled, hid, if_true]
      rw [hrep.session]
    have hwalk : Market.Walk.trade { market := m, incoming, trades, breachLevel } now x xs outside
        breach =
        { market :=
            { ({ m with toSession := s.markFilled x.orderId } : Market).setQueue
                incoming.side.opposite xs with freeNodes := m.freeNodes + 1 }
          incoming :=
            { incoming with
              quantity := incoming.quantity - quantity, filled := incoming.filled + quantity }
          trades := trades ++ [trade]
          breachLevel := breach } := by
      rw [Market.Walk.trade]
      simp only [← hquantity, if_pos hfull]
      cases incoming.side <;> rfl
    rw [hstep, hwalk]
    refine ⟨L', p :: free, ⟨⟨?_, ?_, hrep.lists, ?_, ?_, ?_⟩, rfl, rfl, rfl, rfl, rfl⟩,
      fun q hq => ?_, ?_⟩
    · cases incoming.side <;> rfl
    · exact hqueues.congr (fun side => by cases incoming.side <;> cases side <;> rfl)
        (by cases incoming.side <;> rfl)
    · rw [← hrep.stops]
      cases incoming.side <;> rfl
    · show b.triggeredStops = _
      rw [hrep.fifo]
      cases incoming.side <;> rfl
    · simpa using hrep.ids
    · exact hother q (hpass q hq)
    · exact Or.inl hL'
  · have hqueues := hrep.queues.fill hptrs hqueue quantity
    have hstep : fillStep now { book := b, incoming, trades, breachLevel } (fillOf incoming p x) =
        { book := { b with toSession := s, toStore := st }
          incoming :=
            { incoming with
              quantity := incoming.quantity - quantity, filled := incoming.filled + quantity }
          trades := trades ++ [trade]
          breachLevel := breach } := by
      have hfilled : (st.node p).order.isFullyFilled = false := by
        simp [horder, Order.isFullyFilled]
        omega
      simp only [fillStep, fillOf, hband', htrade', ← hquantity, ← hst, hfilled]
      rw [hrep.session]
      rfl
    have hwalk : Market.Walk.trade { market := m, incoming, trades, breachLevel } now x xs outside
        breach =
        { market := ({ m with toSession := s } : Market).setQueue incoming.side.opposite
            ({ x with quantity := x.quantity - quantity, filled := x.filled + quantity } :: xs)
          incoming :=
            { incoming with
              quantity := incoming.quantity - quantity, filled := incoming.filled + quantity }
          trades := trades ++ [trade]
          breachLevel := breach } := by
      rw [Market.Walk.trade]
      simp only [← hquantity, if_neg hfull]
      cases incoming.side <;> rfl
    rw [hstep, hwalk]
    refine ⟨L, free, ⟨⟨?_, ?_, hrep.lists, ?_, ?_, ?_⟩, rfl, rfl, rfl, rfl, rfl⟩,
      fun q hq => ?_, ?_⟩
    · cases incoming.side <;> rfl
    · exact hqueues.congr (fun side => by cases incoming.side <;> cases side <;> rfl)
        (by cases incoming.side <;> rfl)
    · rw [← hrep.stops]
      cases incoming.side <;> rfl
    · show b.triggeredStops = _
      rw [hrep.fifo]
      cases incoming.side <;> rfl
    · simpa using hrep.ids
    · show (st.node q).order = _
      rw [hst, Store.order_fill, if_neg (hpass q hq)]
    · -- What the passive order does not use up, uses up the incoming one.
      right
      show incoming.quantity - quantity ≤ 0
      omega

/-- A filled order ends the walk at once. -/
theorem walkLoop_of_filled (now : ℤ) {w : Market.Walk} (h : w.incoming.quantity ≤ 0)
    (xs : List RestingOrder) :
    Market.walkLoop now xs w = (w, .exhausted) ∧ Market.traded now xs w = [] := by
  cases xs with
  | nil => exact ⟨rfl, rfl⟩
  | cons x xs => simp [Market.walkLoop, Market.traded, h]

/-- A trade leaves what the collar reads as it was. -/
theorem insideCollar_trade (w : Market.Walk) (x : RestingOrder) (xs : List RestingOrder)
    (outside breach : Option ℤ) :
    (w.trade now x xs outside breach).market.insideCollar (w.trade now x xs outside breach).incoming =
      w.market.insideCollar w.incoming := by
  rw [Market.Walk.toSession_trade]
  simp only
  split_ifs <;> rfl

/-- After a trade, what is left of the plan is the plan that would be made now. -/
theorem planQueue_trade {l l' : FillLoop} {w : Market.Walk} {x : RestingOrder}
    {xs : List RestingOrder} {outside breach : Option ℤ} {ps : List Ptr}
    (hsession : l.book.toSession = w.market.toSession)
    (hloop : LoopRep l' (w.trade now x xs outside breach) L free K)
    (horder : ∀ q ∈ ps, (l'.book.node q).order = (l.book.node q).order) :
    l.book.planQueue w.incoming ps (w.incoming.quantity - min w.incoming.quantity x.quantity) =
      l'.book.planQueue (w.trade now x xs outside breach).incoming ps
        (w.trade now x xs outside breach).incoming.quantity := by
  show _ = l'.book.planQueue (w.trade now x xs outside breach).incoming ps
    (w.incoming.quantity - min w.incoming.quantity x.quantity)
  have hcrosses : (w.trade now x xs outside breach).incoming.crosses = w.incoming.crosses := rfl
  have howner : (w.trade now x xs outside breach).incoming.ownerId = w.incoming.ownerId := rfl
  refine (planQueue_congr horder hcrosses ?_ howner).symm
  rw [hloop.rep.session, hsession]
  exact insideCollar_trade w x xs outside breach

/-- A printed fill and a trade are the same moment. -/
def Moment (K : List (ℤ × StopOrder)) (a : FillLoop × ProposedFill)
    (c : Market.Walk × RestingOrder) : Prop :=
  ∃ L free p ps, LoopRep a.1 c.1 L free K ∧ L.ptrs c.1.incoming.side.opposite = p :: ps ∧
    a.2 = fillOf c.1.incoming p c.2 ∧ c.2 = (a.1.book.node p).order.resting

/-- The loop over a plan ended where the walk did, and for the same reason. -/
structure SameEnd (l : FillLoop) (plan : MatchPlan) (w : Market.Walk) (ending : Market.WalkEnd)
    (K : List (ℤ × StopOrder)) : Prop where
  /-- The book represents the market. -/
  rep : ∃ L free, l.book.Rep w.market L free K
  /-- The incoming order is the same. -/
  incoming : l.incoming = w.incoming
  /-- The trades are the same. -/
  trades : l.trades = w.trades
  /-- The band halted the one walk exactly if it halted the other. -/
  haltedByBand : l.haltedByBand = decide (ending = .halted)
  /-- So with the limit of the band. -/
  bandLimited : l.bandLimited = decide (ending = .bandLimited)
  /-- Unless the band ended it, a self-trade ended the loop exactly if it ended the walk. -/
  haltedBySelfTrade : ending ≠ .halted → ending ≠ .bandLimited →
    plan.haltedBySelfTrade = decide (ending = .selfTrade)
  /-- Unless the band ended it, the collar ended the loop exactly if it ended the walk. -/
  stoppedByCollar : ending ≠ .halted → ending ≠ .bandLimited →
    plan.stoppedByCollar = decide (ending = .collar)

/-- With nothing planned, the loop stays where it is. -/
theorem LoopRep.sameEnd {l : FillLoop} {w : Market.Walk} (h : LoopRep l w L free K) (plan : MatchPlan)
    (ending : Market.WalkEnd) (hh : ending ≠ .halted) (hl : ending ≠ .bandLimited)
    (hself : plan.haltedBySelfTrade = decide (ending = .selfTrade))
    (hcollar : plan.stoppedByCollar = decide (ending = .collar)) : SameEnd l plan w ending K :=
  ⟨⟨L, free, h.rep⟩, h.incoming, h.trades, by simp [h.haltedByBand, hh], by simp [h.bandLimited, hl],
    fun _ _ => hself, fun _ _ => hcollar⟩

/-- **Carrying the plan out is walking.** The fill loop over what is planned from here ends where the
walk ends, trades at the same moments, and stops for the same reason. -/
theorem fillLoop_walk (now : ℤ) (ps : List Ptr) : ∀ {l : FillLoop} {w : Market.Walk} {L : Layout}
    {free : List Ptr}, LoopRep l w L free K → L.ptrs w.incoming.side.opposite = ps →
    ∀ plan, plan = l.book.planQueue w.incoming ps w.incoming.quantity →
    ∀ xs, xs = w.market.queue w.incoming.side.opposite →
      SameEnd (fillLoop now plan.fills l) plan (Market.walkLoop now xs w).1
        (Market.walkLoop now xs w).2 K ∧
      List.Forall₂ (Moment K) (executed now plan.fills l) (Market.traded now xs w) := by
  induction ps with
  | nil =>
    rintro l w L free h hptrs plan rfl xs rfl
    have hq : w.market.queue w.incoming.side.opposite = [] := by
      rw [h.rep.queues.queue, hptrs]
      rfl
    rw [hq]
    exact ⟨h.sameEnd _ .exhausted (by simp) (by simp) rfl rfl, List.Forall₂.nil⟩
  | cons p ps ih =>
    rintro l w L free h hptrs plan hplan xs hxs
    have hsession := h.rep.session
    have hqueue := h.rep.queues.queue w.incoming.side.opposite
    rw [hptrs, List.map_cons] at hqueue
    set x := (l.book.node p).order.resting with hx
    rw [hqueue] at hxs
    subst hxs
    rw [planQueue] at hplan
    simp only [← hx, hsession] at hplan
    rw [Market.walkLoop, Market.traded]
    -- The planner and the walk ask the same questions of the first order, in the same sequence.
    by_cases hr : w.incoming.quantity ≤ 0
    · rw [if_pos hr] at hplan
      rw [if_pos hr, if_pos hr, hplan]
      exact ⟨h.sameEnd _ .exhausted (by simp) (by simp) rfl rfl, List.Forall₂.nil⟩
    rw [if_neg hr] at hplan
    rw [if_neg hr, if_neg hr]
    by_cases hcross : (!w.incoming.crosses x.price) = true
    · rw [if_pos hcross] at hplan
      rw [if_pos hcross, if_pos hcross, hplan]
      exact ⟨h.sameEnd _ .exhausted (by simp) (by simp) rfl rfl, List.Forall₂.nil⟩
    rw [if_neg hcross] at hplan
    rw [if_neg hcross, if_neg hcross]
    by_cases hinside : (!w.market.insideCollar w.incoming x.price) = true
    · rw [if_pos hinside] at hplan
      rw [if_pos hinside, if_pos hinside, hplan]
      exact ⟨h.sameEnd _ .collar (by simp) (by simp) rfl rfl, List.Forall₂.nil⟩
    rw [if_neg hinside] at hplan
    rw [if_neg hinside, if_neg hinside]
    by_cases howner : x.ownerId = w.incoming.ownerId
    · rw [if_pos howner] at hplan
      rw [if_pos howner, if_pos howner, hplan]
      exact ⟨h.sameEnd _ .selfTrade (by simp) (by simp) rfl rfl, List.Forall₂.nil⟩
    rw [if_neg howner] at hplan
    rw [if_neg howner, if_neg howner]
    -- No question ends the plan here, so its first fill is of this order.
    have hfills : plan.fills = fillOf w.incoming p x ::
        (l.book.planQueue w.incoming ps (w.incoming.quantity - min w.incoming.quantity x.quantity)).fills := by
      rw [hplan]
      rfl
    rw [hfills, fillLoop, executed]
    cases hband : w.market.bandDecision now w.breachLevel x.price with
    | halt =>
      have hstep : fillStep now l (fillOf w.incoming p x) =
          { l with
            haltedByBand := true
            book := { l.book with toSession := l.book.halt l.incoming x.price now } } := by
        rw [fillStep, fillOf, h.breachLevel, hsession, hband, ← hsession]
      rw [hstep]
      refine ⟨⟨⟨L, free, ?_⟩, h.incoming, h.trades, rfl, h.bandLimited, ?_, ?_⟩, by simp⟩
      · have := h.rep.withSession (w.market.halt w.incoming x.price now)
        rw [hsession, h.incoming]
        exact this
      · simp
      · simp
    | limit =>
      have hstep : fillStep now l (fillOf w.incoming p x) = { l with bandLimited := true } := by
        rw [fillStep, fillOf, h.breachLevel, hsession, hband]
      rw [hstep]
      simp only [Bool.or_true, if_true]
      refine ⟨⟨⟨L, free, h.rep⟩, h.incoming, h.trades, h.haltedByBand, rfl, ?_, ?_⟩, by simp⟩
      · simp
      · simp
    | print outside breach =>
      obtain ⟨L', free', hloop, horder, hrest⟩ := fillStep_print h hptrs hqueue hband
      have hmoment : Moment K (l, fillOf w.incoming p x) (w, x) :=
        ⟨L, free, p, ps, h, hptrs, rfl, rfl⟩
      set l' := fillStep now l (fillOf w.incoming p x)
      set w' := w.trade now x (ps.map fun p => (l.book.node p).order.resting) outside breach
      have hgo : ¬ (l'.haltedByBand || l'.bandLimited) = true := by
        simp [hloop.haltedByBand, hloop.bandLimited]
      rw [if_neg hgo, if_neg hgo]
      -- The flags of the plan are those of the plan for what is left of it.
      have hflags : plan.haltedBySelfTrade = (l.book.planQueue w.incoming ps
            (w.incoming.quantity - min w.incoming.quantity x.quantity)).haltedBySelfTrade ∧
          plan.stoppedByCollar = (l.book.planQueue w.incoming ps
            (w.incoming.quantity - min w.incoming.quantity x.quantity)).stoppedByCollar := by
        rw [hplan]
        exact ⟨rfl, rfl⟩
      -- The fill does not change the plan for the orders behind.
      have hsame := planQueue_trade hsession hloop horder
      rw [hsame] at hflags ⊢
      -- Either the order has left the queue and the loop goes on, or nothing is left of the incoming one.
      rcases hrest with hptrs' | hfilled
      · have hqueue' : (ps.map fun p => (l.book.node p).order.resting) =
            w'.market.queue w'.incoming.side.opposite := by
          have := hloop.rep.queues.queue w.incoming.side.opposite
          rw [hptrs'] at this
          exact (List.map_congr_left fun q hq => by rw [horder q hq]).trans this.symm
        obtain ⟨hend, hmoments⟩ := ih hloop hptrs' _ rfl _ hqueue'
        exact ⟨⟨hend.rep, hend.incoming, hend.trades, hend.haltedByBand, hend.bandLimited,
          fun h1 h2 => hflags.1.trans (hend.haltedBySelfTrade h1 h2),
          fun h1 h2 => hflags.2.trans (hend.stoppedByCollar h1 h2)⟩,
          List.Forall₂.cons hmoment hmoments⟩
      · rw [planQueue_of_filled _ _ hfilled] at hflags ⊢
        obtain ⟨hwalk, htraded⟩ := walkLoop_of_filled now hfilled
          (ps.map fun p => (l.book.node p).order.resting)
        simp only
        rw [hwalk, htraded]
        exact ⟨hloop.sameEnd _ .exhausted (by simp) (by simp) hflags.1 hflags.2,
          List.Forall₂.cons hmoment List.Forall₂.nil⟩

end Book

end OrderBookEngine
