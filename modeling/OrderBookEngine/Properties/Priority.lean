import OrderBookEngine.Market.Answers
import OrderBookEngine.Market.Trades
import OrderBookEngine.Refine.Run

/-!
# Price-time priority

A queue is in price order (`SideWf`), and in time order at every price: of two orders at one price, the
one in front has the earlier last `Rested` event (`Ranked`). An order that comes to rest joins its
queue behind every order that is at least as good; nothing else moves an order within its queue. A
walk trades with the head of the other queue, so with the first order in price and time.
-/

namespace OrderBookEngine

/-- The number of an order's last `Rested` event. -/
def lastRested (events : List EngineEvent) (id : OrderId) : Option ℕ :=
  (events.filter fun e => e.kind = .rested ∧ e.orderId = id).getLast?.map EngineEvent.sequenceNumber

/-- An order has come to rest before another one. -/
def Earlier (events : List EngineEvent) (id id' : OrderId) : Prop :=
  ∃ n n', lastRested events id = some n ∧ lastRested events id' = some n' ∧ n < n'

/-- A change that keeps the price of a resting order and does not raise its quantity. -/
def InPlace (xs : List RestingOrder) (id : OrderId) (price quantity : ℤ) : Prop :=
  ∃ x ∈ xs, x.orderId = id ∧ price = x.price ∧ 0 < quantity - x.filled ∧
    quantity - x.filled ≤ x.quantity

/-- Events that do not rest an id leave where it last rested. -/
theorem lastRested_append {events es : List EngineEvent} {id : OrderId}
    (h : ∀ e ∈ es, ¬(e.kind = .rested ∧ e.orderId = id)) :
    lastRested (events ++ es) id = lastRested events id := by
  have hnil : es.filter (fun e => e.kind = .rested ∧ e.orderId = id) = [] :=
    List.filter_eq_nil_iff.mpr fun e he => by simpa using h e he
  unfold lastRested
  rw [List.filter_append, hnil, List.append_nil]

/-- An order that rests last rested there. -/
theorem lastRested_concat {events : List EngineEvent} {e : EngineEvent} (he : e.kind = .rested) :
    lastRested (events ++ [e]) e.orderId = some e.sequenceNumber := by
  unfold lastRested
  rw [List.filter_append, List.filter_singleton]
  simp [he]

namespace Market

variable {m m' : Market} {now : ℤ} {order : Order}

/-- Every queue is in time order at every price. -/
structure Ranked (m : Market) : Prop where
  /-- Of two orders at one price the first has rested earlier. -/
  inTurn : ∀ side, (m.queue side).Pairwise fun x y =>
    x.price = y.price → Earlier m.events x.orderId y.orderId
  /-- Every resting order has rested at an event so far. -/
  rested : ∀ side, ∀ x ∈ m.queue side, ∃ n < m.nextSeq, lastRested m.events x.orderId = some n

/-! ## Orders keep their places -/

/-- Orders leave their queues, or change in place, and none comes to rest. -/
theorem Ranked.keep (h : m.Ranked) (es : List EngineEvent) (hevents : m'.events = m.events ++ es)
    (hes : ∀ e ∈ es, e.kind ≠ .rested) (hseq : m.nextSeq ≤ m'.nextSeq)
    (hqueue : ∀ side, ((m'.queue side).map RestingOrder.place).Sublist
      ((m.queue side).map RestingOrder.place)) : m'.Ranked := by
  have hlast : ∀ id, lastRested m'.events id = lastRested m.events id := fun id => by
    rw [hevents]
    exact lastRested_append fun e he hk => hes e he hk.1
  refine ⟨fun side => ?_, fun side x hx => ?_⟩
  · have hturn : ((m.queue side).map RestingOrder.place).Pairwise fun p q =>
        p.2 = q.2 → Earlier m.events p.1 q.1 := List.pairwise_map.mpr (h.inTurn side)
    refine (List.pairwise_map.mp (hturn.sublist (hqueue side))).imp fun {x y} hxy hprice => ?_
    obtain ⟨n, n', hn, hn', hlt⟩ := hxy hprice
    exact ⟨n, n', (hlast _).trans hn, (hlast _).trans hn', hlt⟩
  · obtain ⟨y, hy, hxy⟩ := List.mem_map.mp ((hqueue side).subset (List.mem_map_of_mem hx))
    obtain ⟨n, hn, hrested⟩ := h.rested side y hy
    have hid : y.orderId = x.orderId := congrArg Prod.fst hxy
    exact ⟨n, by omega, by rw [hlast, ← hid, hrested]⟩

/-- The queues stay as they are. -/
theorem Ranked.note (h : m.Ranked) (es : List EngineEvent) (hevents : m'.events = m.events ++ es)
    (hes : ∀ e ∈ es, e.kind ≠ .rested) (hseq : m.nextSeq ≤ m'.nextSeq)
    (hqueue : ∀ side, m'.queue side = m.queue side) : m'.Ranked :=
  h.keep es hevents hes hseq fun side => by rw [hqueue side]

/-- An order comes to rest behind every order at its price. -/
theorem Ranked.rest (h : m.Ranked) (hwf : m.Wf [order.id])
    (hr : m.restOrder order now = some m') : m'.Ranked := by
  have hevents := events_restOrder hr
  obtain ⟨-, rfl⟩ := restOrder_eq_some hr
  set m' : Market := { m.setQueue order.side (join order.side order.resting (m.queue order.side)) with
    toSession := m.toSession, freeNodes := m.freeNodes - 1 }.emit (order.event .rested now) with hm'
  have hseq : m'.nextSeq = m.nextSeq + 1 := rfl
  -- The numbers of the other orders are the old ones.
  have hold : ∀ side, ∀ y ∈ m.queue side,
      lastRested m'.events y.orderId = lastRested m.events y.orderId := by
    intro side y hy
    have hne := hwf.queue_ne (List.mem_singleton_self _) hy
    rw [hevents]
    refine lastRested_append fun e he hk => hne ?_
    rw [← hk.2, List.mem_singleton.mp he]
    rfl
  have hnew : lastRested m'.events order.id = some m.nextSeq := by
    rw [hevents]
    exact lastRested_concat (e := (order.event .rested now).numbered m.nextSeq) rfl
  have hearlier : ∀ side, ∀ x ∈ m.queue side, ∀ y ∈ m.queue side,
      Earlier m.events x.orderId y.orderId → Earlier m'.events x.orderId y.orderId := by
    rintro side x hx y hy ⟨n, n', hn, hn', hlt⟩
    exact ⟨n, n', (hold side x hx).trans hn, (hold side y hy).trans hn', hlt⟩
  have hturn : ∀ side, (m.queue side).Pairwise fun x y =>
      x.price = y.price → Earlier m'.events x.orderId y.orderId := fun side =>
    (h.inTurn side).imp_of_mem fun {x y} hx hy hxy hprice => hearlier side x hx y hy (hxy hprice)
  have hself : m'.queue order.side = join order.side order.resting (m.queue order.side) := by
    rw [hm']
    cases order.side <;> rfl
  have hother : ∀ side, side ≠ order.side → m'.queue side = m.queue side := by
    intro side hside
    rw [← queue_setQueue_of_ne m (join order.side order.resting (m.queue order.side)) hside]
    cases side <;> rfl
  refine ⟨fun side => ?_, fun side x hx => ?_⟩
  · by_cases hside : side = order.side
    · subst hside
      obtain ⟨before, after, hsplit, hjoin, -, hafter⟩ :=
        exists_join order.resting (hwf.side order.side).sorted
      have hpairs := hturn order.side
      rw [hsplit] at hpairs
      obtain ⟨hbefore, hbehind, hcross⟩ := List.pairwise_append.mp hpairs
      rw [hself, hjoin]
      refine List.pairwise_append.mpr ⟨hbefore, List.pairwise_cons.mpr ⟨fun y hy hprice => ?_, hbehind⟩,
        fun x hx y hy => ?_⟩
      · have hbetter := hafter y hy
        rw [hprice] at hbetter
        exact absurd hbetter hbetter.asymm
      · rcases List.mem_cons.mp hy with rfl | hy
        · intro _
          have hx : x ∈ m.queue order.side := by
            rw [hsplit]
            exact List.mem_append_left _ hx
          obtain ⟨n, hn, hrested⟩ := h.rested _ x hx
          exact ⟨n, m.nextSeq, (hold _ x hx).trans hrested, hnew, hn⟩
        · exact hcross x hx y hy
    · rw [hother side hside]
      exact hturn side
  · rcases mem_queue_restOrder hr hx with hx | ⟨-, rfl⟩
    · obtain ⟨n, hn, hrested⟩ := h.rested side x hx
      exact ⟨n, by omega, (hold side x hx).trans hrested⟩
    · exact ⟨m.nextSeq, by omega, hnew⟩

/-! ## Steps and calls -/

/-- Event numbers only grow. -/
theorem Emits.nextSeq_le {s s' : Session} (h : Emits s s') : s.nextSeq ≤ s'.nextSeq := by
  obtain ⟨es, hlog⟩ := h
  rw [hlog.nextSeq]
  clear hlog
  induction es generalizing s with
  | nil => exact le_rfl
  | cons e es ih => exact (Nat.le_succ s.nextSeq).trans (ih (s := s.emit e))

/-- One step keeps the queues in time order. -/
theorem Ranked.step {s s' : Stage} (hstep : Step now s s') (hwf : s.Wf) (h : s.market.Ranked) :
    s'.market.Ranked := by
  have hseq := hstep.emits.nextSeq_le
  cases hstep with
  | reenter => exact h.note [_] rfl (by simp [Order.event]) hseq fun side => queue_emit ..
  | @trade w x xs outside breach meets band =>
    exact h.keep [_] (w.events_trade now x xs outside breach) (by simp [tradeEvent]) hseq
      (w.places_trade now outside breach meets.queue)
  | halt meets band =>
    exact h.note [_] rfl (by simp [Order.event]) hseq fun side => queue_withSession ..
  | limit meets band => exact h
  | filled quantity =>
    exact h.note [] (List.append_nil _).symm (by simp) hseq fun side => queue_withSession ..
  | rest quantity type runOut room => exact Ranked.rest h hwf.1 room
  | expire quantity => exact h.note [_] rfl (by simp [Order.event]) hseq fun side => queue_emit ..
  | @restAtBandEdge w _ type valid room =>
    have hwf : w.market.Wf [(w.market.atBandEdge w.incoming).id] := hwf.1
    exact Ranked.rest h hwf room
  | expireStopped => exact h.note [_] rfl (by simp [Order.event]) hseq fun side => queue_emit ..
  | finish => exact h
  | @absorb m trades _ last last_eq =>
    have hevents : (m.absorb trades last).events = m.events ++ [] := by
      rw [events_absorb, List.append_nil]
    exact Ranked.note h [] hevents (by simp) hseq fun side => queue_absorb ..
  | fire fifo halted =>
    exact h.note [_] rfl (by simp [StopOrder.event]) hseq fun side => by cases side <;> rfl
  | sendBack halted =>
    exact Ranked.note h [] (List.append_nil _).symm (by simp) hseq fun side => by cases side <;> rfl

/-- So does the begin of a call. -/
theorem Ranked.act {c : Call} {s : Stage} (hact : Acts m c s) (h : m.Ranked) : s.market.Ranked := by
  have hseq := hact.emits.nextSeq_le
  cases hact with
  | refuse kind => exact h
  | reject => exact h.note [_] rfl (by simp) hseq fun side => queue_withSession ..
  | submit fresh halted valid =>
    exact h.note [_] rfl (by simp [Order.event]) hseq fun side => queue_emit ..
  | cancel found => exact h.keep [_] rfl (by simp [Order.event]) hseq (places_remove m _ _)
  | withdraw found => exact h.keep [_] rfl (by simp [Order.event]) hseq (places_remove m _ _)
  | @reduce _ _ order _ quantity _ found pos le =>
    refine h.keep [_] rfl (by simp [Order.event]) hseq fun side => ?_
    show (((Market.emit _ _).queue side).map RestingOrder.place).Sublist _
    rw [queue_emit, places_reduce]
  | replace halted found change valid =>
    exact h.keep [_] rfl (by simp [Order.event]) hseq (places_remove m _ _)
  | rejectStop => exact h.note [_] rfl (by simp) hseq fun side => queue_withSession ..
  | placeStop fresh valid ahead =>
    exact h.note [_] rfl (by simp [StopOrder.event]) hseq fun side => by cases side <;> rfl
  | cancelStop found =>
    exact h.note [_] rfl (by simp [StopOrder.event]) hseq fun side => by cases side <;> rfl
  | modifyStop found valid ahead =>
    exact h.note [_] rfl (by simp [StopOrder.event]) hseq fun side => by cases side <;> rfl

/-- In every stage of a run the queues are in time order. -/
theorem ranked_invariant (cfg : Config) :
    Invariant cfg fun s => s.Wf ∧ s.market.Ranked where
  start := by
    refine ⟨wf_make cfg, fun side => ?_, fun side x hx => ?_⟩
    · cases side <;> exact List.Pairwise.nil
    · cases side <;> cases hx
  resume {m now} _ h :=
    ⟨Wf.resume h.1 now, h.2.note [_] rfl (by simp) (Nat.le_succ _) fun side => by cases side <;> rfl⟩
  act hfifo hact h := ⟨Wf.act h.1 hfifo hact, Ranked.act hact h.2⟩
  step hstep h := ⟨h.1.step hstep, h.2.step hstep h.1⟩

/-! ## What a walk trades with -/

/-- A walk meets the first order in price and time. -/
theorem Ranked.meets {w : Walk} {x : RestingOrder} {xs : List RestingOrder}
    (h : w.market.Ranked) (hwf : w.market.Wf [w.incoming.id]) (hmeets : w.Meets x xs) :
    (∀ y ∈ w.market.queue w.incoming.side.opposite,
      ¬ w.incoming.side.opposite.Better y.price x.price) ∧
    ∀ y ∈ w.market.queue w.incoming.side.opposite, y.price = x.price → y.orderId ≠ x.orderId →
      Earlier w.market.events x.orderId y.orderId := by
  have hsorted := (hwf.side w.incoming.side.opposite).sorted
  have hturn := h.inTurn w.incoming.side.opposite
  rw [hmeets.queue] at hsorted hturn ⊢
  refine ⟨fun y hy => ?_, fun y hy hprice hne => ?_⟩
  · rcases List.mem_cons.mp hy with rfl | hy
    · exact fun hbetter => hbetter.asymm hbetter
    · exact (List.pairwise_cons.mp hsorted).1 y hy
  · rcases List.mem_cons.mp hy with rfl | hy
    · exact absurd rfl hne
    · exact (List.pairwise_cons.mp hturn).1 y hy hprice.symm

/-! ## Where an order comes to rest -/

/-- A walk leaves the aggressor's own side alone. -/
theorem walkLoop_ownSide (now : ℤ) (xs : List RestingOrder) (w : Walk) :
    (walkLoop now xs w).1.market.queue w.incoming.side = w.market.queue w.incoming.side := by
  induction xs generalizing w with
  | nil => rfl
  | cons x xs ih =>
    rw [walkLoop]
    split_ifs
    · rfl
    · rfl
    · rfl
    · rfl
    · cases w.market.bandDecision now w.breachLevel x.price with
      | halt => exact queue_withSession ..
      | limit => rfl
      | print outside breach =>
        exact (ih (w.trade now x xs outside breach)).trans (w.queue_trade_side ..)

/-- An order has joined a queue, or the queue is as it was. -/
def Joins (side : Side) (id : OrderId) (before after : List RestingOrder) : Prop :=
  after = before ∨ ∃ x : RestingOrder, x.orderId = id ∧ after = join side x before

/-- An order that comes to rest joins the queue of its side. -/
theorem restOrder_joins (h : m.restOrder order now = some m') :
    Joins order.side order.id (m.queue order.side) (m'.queue order.side) := by
  obtain ⟨-, rfl⟩ := restOrder_eq_some h
  refine Or.inr ⟨order.resting, rfl, ?_⟩
  cases order.side <;> rfl

/-- The remainder of a walk joins the queue of its side, or does not rest. -/
theorem settle_joins (w : Walk) (ending : WalkEnd) (now : ℤ) :
    Joins w.incoming.side w.incoming.id (w.market.queue w.incoming.side)
      ((settle w ending now).1.queue w.incoming.side) := by
  have hmark : (w.market.markIfFilled w.incoming).queue w.incoming.side =
      w.market.queue w.incoming.side := by
    unfold markIfFilled
    split_ifs
    · exact queue_withSession ..
    · rfl
  rw [← hmark]
  set m := w.market.markIfFilled w.incoming
  -- A remainder joins the queue in one of two ways: at the edge of the band, or at its own price.
  have hedge : ∀ why, Joins w.incoming.side w.incoming.id (m.queue w.incoming.side)
      ((m.restAtBandEdge w.incoming w.trades why now).1.queue w.incoming.side) := by
    intro why
    unfold restAtBandEdge
    simp only
    split_ifs
    · cases hr : m.restOrder (m.atBandEdge w.incoming) now with
      | none => exact Or.inl (queue_emit ..)
      | some m' =>
        have hjoins := restOrder_joins hr
        exact hjoins
    · exact Or.inl (queue_emit ..)
    · exact Or.inl (queue_emit ..)
    · exact Or.inl rfl
  have hrunOut : ∀ why, Joins w.incoming.side w.incoming.id (m.queue w.incoming.side)
      ((m.runOut w.incoming w.trades why now).1.queue w.incoming.side) := by
    intro why
    unfold runOut
    split_ifs
    · cases hr : m.restOrder w.incoming now with
      | none => exact Or.inl (queue_emit ..)
      | some m' => exact restOrder_joins hr
    · exact Or.inl (queue_emit ..)
    · exact Or.inl rfl
  unfold settle
  cases ending with
  | halted => exact hedge _
  | bandLimited => exact hedge _
  | selfTrade => exact Or.inl (queue_emit ..)
  | collar => exact hrunOut _
  | exhausted => exact hrunOut _

/-- A walk leaves the order's own side alone, up to the order itself. -/
theorem walk_joins (m : Market) (order : Order) (now : ℤ) :
    Joins order.side order.id (m.queue order.side) ((m.walk order now).1.queue order.side) := by
  obtain ⟨quantity, filled, hincoming⟩ :=
    walkLoop_incoming now (m.queue order.side.opposite) { market := m, incoming := order }
  have hown := walkLoop_ownSide now (m.queue order.side.opposite) { market := m, incoming := order }
  unfold walk
  simp only
  set r := walkLoop now (m.queue order.side.opposite) { market := m, incoming := order }
  have hsettle := settle_joins r.1 r.2 now
  rw [hincoming] at hsettle
  simp only at hsettle hown
  rw [hown] at hsettle
  exact hsettle

/-! ## Changes in place -/

/-- A change in place moves no order, and brings none to rest. -/
theorem modifyOrder_inPlace (hwf : m.Wf []) (hfifo : m.fifo = []) {side : Side} {id : OrderId}
    {price quantity : ℤ} (h : InPlace (m.queue side) id price quantity) (requester : OwnerId) (now : ℤ) :
    (∀ side, ((m.modifyOrder id requester price quantity now).1.queue side).map RestingOrder.place =
      (m.queue side).map RestingOrder.place) ∧
    ∀ i, lastRested (m.modifyOrder id requester price quantity now).1.events i =
      lastRested m.events i := by
  obtain ⟨x, hx, rfl, rfl, hpos, hle⟩ := h
  -- The order of the id is the one in this place.
  have hfound : ∀ {order : Order}, m.restingOrder? x.orderId = some order →
      order = x.toOrder side := by
    intro order hfound
    obtain ⟨side', y, hy, hid, rfl⟩ := mem_of_restingOrder? hfound
    obtain rfl := hwf.eq_of_orderId hx hy hid
    by_cases hside : side' = side
    · rw [hside]
    · exact absurd rfl (hwf.queue_ne_of_side hx hy hside)
  have hcases := modifyOrder_cases hwf hfifo x.orderId requester x.price quantity now
  revert hcases
  generalize m.modifyOrder x.orderId requester x.price quantity now = r
  intro hcases
  cases hcases with
  | unowned owned => exact ⟨fun _ => rfl, fun _ => rfl⟩
  | notResting owned found => exact ⟨fun _ => rfl, fun _ => rfl⟩
  | invalid owned found fields bad => exact ⟨fun _ => rfl, fun _ => rfl⟩
  | halted owned found pos change halted early => exact ⟨fun _ => rfl, fun _ => rfl⟩
  | withdraw owned found le =>
    rw [hfound found] at le
    exact absurd hpos (not_lt.mpr le)
  | replace owned found pos change valid resumes halted enter why =>
    rw [hfound found] at change
    exact absurd ⟨rfl, hle⟩ change
  | @reduce order owned found pos place =>
    refine ⟨fun side => ?_, fun i => ?_⟩
    · show ((Market.emit _ _).queue side).map RestingOrder.place = _
      rw [queue_emit, places_reduce]
    · show lastRested (m.events ++ [_]) i = _
      exact lastRested_append fun e he hk => by
        rw [List.mem_singleton.mp he] at hk
        exact absurd hk.1 (by simp [Order.event])

end Market

namespace Book

/-- A fill takes the first order of its side in price and time, at its price. -/
structure TakesFirst (b : Book) (side : Side) (fill : ProposedFill) (x : Order) : Prop where
  /-- It is the order of the node. -/
  node : x = (b.node fill.passiveNode).order
  /-- It rests on the side. -/
  resting : x.resting ∈ b.collect side
  /-- The fill is at its price. -/
  price : x.price = some fill.fillPrice
  /-- No order of the side has a better price. -/
  best : ∀ y ∈ b.collect side, ¬ side.Better y.price fill.fillPrice
  /-- Every other order at the price has come to rest later. -/
  first : ∀ y ∈ b.collect side, y.price = fill.fillPrice → y.orderId ≠ x.id →
    Earlier b.events x.id y.orderId

/-- An order is not on its side, or is behind every order that was already at its price. -/
def RestsBehind (e : Entry Book) (b : Book) : Prop :=
  b.collect e.order.side = e.state.collect e.order.side ∨
    ∃ x ahead behind, x.orderId = e.order.id ∧
      e.state.collect e.order.side = ahead ++ behind ∧
      b.collect e.order.side = ahead ++ x :: behind ∧
      ∀ y ∈ behind, e.order.side.Better x.price y.price

/-- No order moves within its queue, and none comes to rest. -/
structure SamePlaces (b b' : Book) : Prop where
  /-- The orders keep their places. -/
  places : ∀ side, (b'.collect side).map RestingOrder.place = (b.collect side).map RestingOrder.place
  /-- They last rested where they did. -/
  lastRested : ∀ id, lastRested b'.events id = lastRested b.events id

/-- Price and time priority, over a run of calls. -/
structure KeepsPriority (b : Book) (calls : List Call) : Prop where
  /-- Every trade is a fill of the first order. -/
  trades : ∀ before e after, (b.run calls).events = before ++ e :: after → e.kind = .trade →
    ∃ entry ∈ b.runEntries calls, ∃ l fill x, (l, fill) ∈ entry.executed ∧ l.book.events = before ∧
      e.side = entry.order.side ∧ e.passiveId = x.id ∧ e.price = x.price ∧
      l.book.TakesFirst e.side.opposite fill x
  /-- Between calls, the orders at a price are in the order in which they came to rest. -/
  queues : ∀ side, ((b.run calls).collect side).Pairwise fun x y =>
    x.price = y.price → Earlier (b.run calls).events x.orderId y.orderId
  /-- New, replaced, and fired orders rest behind the orders at their price. -/
  rests : ∀ e ∈ b.runEntries calls, RestsBehind e (e.state.walk e.order e.now).1
  /-- A change in place leaves every order where it is. -/
  inPlace : ∀ before id requester price quantity now after,
    calls = before ++ .modifyOrder id requester price quantity now :: after →
    ∀ side, InPlace ((b.run before).collect side) id price quantity →
      SamePlaces (b.run before) (b.run (before ++ [.modifyOrder id requester price quantity now]))

/-- The book of a walk that is under way. -/
theorem Moment.book {K : List (ℤ × StopOrder)} {l : FillLoop} {fill : ProposedFill}
    {w : Market.Walk} {x : RestingOrder} (h : Moment K (l, fill) (w, x)) :
    l.book.Represents w.market ∧ x = (l.book.node fill.passiveNode).order.resting ∧
      (l.book.node fill.passiveNode).order.price = some x.price ∧ fill.fillPrice = x.price := by
  obtain ⟨L, free, p, ps, hloop, hptrs, hfill, hx⟩ := h
  simp only at hloop hptrs hfill hx
  have hp : p ∈ L.ptrs w.incoming.side.opposite := by
    rw [hptrs]
    exact List.mem_cons_self
  subst hfill
  refine ⟨⟨L, free, K, hloop.rep⟩, hx, ?_, rfl⟩
  show (l.book.node p).order.price = some x.price
  rw [hx]
  exact hloop.rep.queues.shape.price_eq hp

/-- A fill takes the first order in price and time. -/
theorem takesFirst_of_moment {K : List (ℤ × StopOrder)} {l : FillLoop} {fill : ProposedFill}
    {w : Market.Walk} {x : RestingOrder} {xs : List RestingOrder} (h : Moment K (l, fill) (w, x))
    (hranked : w.market.Ranked) (hwf : w.market.Wf [w.incoming.id]) (hmeets : w.Meets x xs) :
    l.book.TakesFirst w.incoming.side.opposite fill (l.book.node fill.passiveNode).order := by
  obtain ⟨hrep, hx, hprice, hfill⟩ := h.book
  obtain ⟨hbest, hfirst⟩ := hranked.meets hwf hmeets
  have hid : (l.book.node fill.passiveNode).order.id = x.orderId := by
    rw [hx]
    rfl
  refine ⟨rfl, ?_, by rw [hprice, hfill], fun y hy => ?_, fun y hy hy' hne => ?_⟩
  · rw [hrep.collect_eq, ← hx, hmeets.queue]
    exact List.mem_cons_self
  · rw [hrep.collect_eq] at hy
    rw [hfill]
    exact hbest y hy
  · rw [hrep.collect_eq] at hy
    rw [hfill] at hy'
    rw [hid] at hne ⊢
    rw [hrep.session]
    exact hfirst y hy hy' hne

/-- The walk of an entry leaves its order behind every order at its price. -/
theorem SameEntry.restsBehind {e : Entry Book} {e' : Entry Market} (h : SameEntry e e')
    (hwf : Market.Stage.Wf e'.start) : RestsBehind e (e.state.walk e.order e.now).1 := by
  have hwalk := h.walk.1
  have hstart := h.represents
  have hjoins := Market.walk_joins e'.state e'.order e'.now
  unfold RestsBehind
  rw [hwalk.collect_eq, hstart.collect_eq, h.order]
  rcases hjoins with hsame | ⟨x, hid, hjoin⟩
  · exact Or.inl hsame
  · obtain ⟨ahead, behind, hsplit, hplace, -, hworse⟩ :=
      Market.exists_join x (hwf.1.side e'.order.side).sorted
    exact Or.inr ⟨x, ahead, behind, hid, hsplit, hjoin.trans hplace, hworse⟩

/-- **Price-time priority.** Every trade of a run takes, at its price, the order that is first in
price and, at that price, was the first to come to rest. -/
theorem price_time_priority (cfg : Config) (calls : List Call)
    (hfits : ((Book.make cfg).run calls).Fits) : KeepsPriority (Book.make cfg) calls := by
  have h := run_refines cfg calls hfits
  have hranked := fun {s} (hs : Market.Reachable cfg s) => hs.invariant (Market.ranked_invariant cfg)
  refine ⟨fun before e after hevents hk => ?_, fun side => ?_, fun e he => ?_, ?_⟩
  · -- The trade is one of the market's, so one of the fills of the same entry.
    have htrades : Market.EachTrade (Market.TradeOf ((Market.make cfg).runEntries calls))
        ((Market.make cfg).run calls).events :=
      Market.run_trades calls (Market.wf_make cfg) rfl (fun e he => he) History.each_nil
    rw [h.represents.session] at hevents
    obtain ⟨entry', hentry', w, x, hp, rfl, rfl⟩ := htrades before e after hevents hk
    -- The market's fill has its counterpart in the book, at the same moment of the same entry.
    obtain ⟨entry, hentry, hsame⟩ := exists_of_forall₂
      (runEntries_represents (refines_make cfg) calls hfits).flip hentry'
    obtain ⟨K, hmoments⟩ := hsame.moments
    obtain ⟨⟨l, fill⟩, hfill, hmoment⟩ := exists_of_forall₂ hmoments.flip hp
    have hstart := Market.Reachable.start.runEntries rfl hentry'
    obtain ⟨hreach, xs, hmeets⟩ := hstart.traded hp
    obtain ⟨hwf, hturn⟩ := hranked hreach
    obtain ⟨hrep, hx, hprice, -⟩ := Moment.book hmoment
    have hside : w.incoming.side = entry.order.side := by
      obtain ⟨quantity, filled, hincoming⟩ := Market.traded_incoming _ _ hp
      rw [hincoming, hsame.order]
      rfl
    refine ⟨entry, hentry, l, fill, _, hfill, ?_, hside, ?_, hprice.symm,
      takesFirst_of_moment hmoment hturn hwf.1 hmeets⟩
    · rw [hrep.session]
    · show x.orderId = _
      rw [hx]
      rfl
  · rw [h.represents.collect_eq, h.represents.session]
    exact (hranked (reachable_run cfg calls)).2.inTurn side
  · obtain ⟨e', hsame, hreach⟩ := exists_entry cfg calls hfits he
    exact hsame.restsBehind hreach.wf
  · -- A change in place, between two books of the run.
    rintro before id requester price quantity now after rfl side hplace
    have hcall : ((Book.make cfg).run
        (before ++ [.modifyOrder id requester price quantity now])).Fits := by
      rw [List.append_cons, run_append] at hfits
      exact (grows_run _ after).fits hfits
    have hbefore : ((Book.make cfg).run before).Fits := by
      rw [run_append] at hcall
      exact (grows_run _ _).fits hcall
    have h₀ := run_refines cfg before hbefore
    have h₁ := h₀.call (.modifyOrder id requester price quantity now) (by rwa [run_append] at hcall)
    rw [h₀.represents.collect_eq] at hplace
    obtain ⟨hplaces, hlast⟩ := Market.modifyOrder_inPlace (reachable_run cfg before).wf h₀.fifo
      hplace requester now
    rw [run_append]
    refine ⟨fun side => ?_, fun i => ?_⟩
    · rw [run_cons, run_nil, h₁.represents.collect_eq, h₀.represents.collect_eq]
      exact hplaces side
    · rw [run_cons, run_nil, h₁.represents.session, h₀.represents.session]
      exact hlast i

/-- Of two asks at one price, the first is hit first, then what is left of it. A replaced ask goes
behind. -/
theorem price_time_priority_two : KeepsPriority (Book.make { poolCapacity := 4 })
    [.addOrder { id := 1, ownerId := 1, side := .sell, type := .limit, price := some 100,
                 quantity := 3 } 0,
     .addOrder { id := 2, ownerId := 1, side := .sell, type := .limit, price := some 100,
                 quantity := 3 } 0,
     .modifyOrder 1 1 100 2 0,
     .addOrder { id := 3, ownerId := 2, side := .buy, type := .limit, price := some 100,
                 quantity := 1 } 0,
     .modifyOrder 1 1 100 9 0,
     .addOrder { id := 4, ownerId := 2, side := .buy, type := .market, price := none,
                 quantity := 4 } 0] :=
  price_time_priority { poolCapacity := 4 } _ (fits_run rfl _)

end Book

end OrderBookEngine
