import OrderBookEngine.Market.Chain

/-!
# The events of a step

Which events each step appends to the stream, and what the steps leave alone. The events of a trade
are those of its record, `tradeEvent`.
-/

namespace OrderBookEngine

/-- An event with its sequence number. -/
def EngineEvent.numbered (e : EngineEvent) (n : ℕ) : EngineEvent := { e with sequenceNumber := n }

section Numbered

variable (e : EngineEvent) (n : ℕ)

/-- A number does not change the kind. -/
@[simp] theorem EngineEvent.kind_numbered : (e.numbered n).kind = e.kind := rfl

/-- A number does not change the order. -/
@[simp] theorem EngineEvent.orderId_numbered : (e.numbered n).orderId = e.orderId := rfl

/-- A number does not change the passive order. -/
@[simp] theorem EngineEvent.passiveId_numbered : (e.numbered n).passiveId = e.passiveId := rfl

/-- A number does not change the price. -/
@[simp] theorem EngineEvent.price_numbered : (e.numbered n).price = e.price := rfl

/-- A number does not change the quantity. -/
@[simp] theorem EngineEvent.quantity_numbered : (e.numbered n).quantity = e.quantity := rfl

/-- A numbered event has its number. -/
@[simp] theorem EngineEvent.seq_numbered : (e.numbered n).sequenceNumber = n := rfl

end Numbered

/-- The kinds of event that the engine's steps append; the others are those of calls. -/
def EventKind.ofStep : EventKind → Bool
  | .accepted | .trade | .halted | .rested | .expired | .stopTriggered => true
  | _ => false

/-- What the place of an order in its queue depends on. -/
def RestingOrder.place (x : RestingOrder) : OrderId × ℤ := (x.orderId, x.price)

namespace Market

variable {m : Market} {order : Order} {now : ℤ}

/-- The event that publishes a trade. -/
def tradeEvent (trade : Trade) : EngineEvent :=
  { kind := .trade, ts := trade.ts, orderId := trade.aggressorId, passiveId := trade.passiveId
    ownerId := trade.buyOwner, otherOwner := trade.sellOwner, side := trade.aggressorSide
    price := some trade.price, quantity := trade.quantity }

/-- An event is recorded behind the others, with the next number. -/
theorem events_emit (m : Market) (e : EngineEvent) :
    (m.emit e).events = m.events ++ [e.numbered m.nextSeq] := rfl

/-- A rejection is one event, with the id and the quantity of what is refused. -/
theorem events_emitRejected (s : Session) (id : OrderId) (owner : OwnerId) (side : Side)
    (price : Option ℤ) (quantity : ℤ) (limitPrice : Option ℤ) (why : RejectReason) (now : ℤ) :
    ∃ e, (s.emitRejected id owner side price quantity limitPrice why now).events = s.events ++ [e] ∧
      e.kind = .rejected ∧ e.orderId = id ∧ e.quantity = quantity :=
  ⟨_, rfl, rfl, rfl, rfl⟩

/-- An id that has no owner after an event had none before it. -/
theorem ownerOf_emit_eq_none {s : Session} {e : EngineEvent} {id : OrderId}
    (h : (s.emit e).ownerOf id = none) : s.ownerOf id = none := by
  by_cases hk : e.kind = .accepted ∨ e.kind = .stopAccepted
  · cases hs : s.ownerOf e.orderId with
    | none =>
      rw [s.ownerOf_emit_of_unowned hk hs, Function.update_apply] at h
      split_ifs at h
      exact h
    | some who => rwa [s.ownerOf_emit_of_owned hk hs] at h
  · rwa [s.ownerOf_emit_of_ne hk] at h

/-- A halt that is lifted leaves one event. -/
theorem Resumes.events {m m₀ : Market} (h : Resumes now m m₀) :
    ∃ before, m₀.events = m.events ++ before ∧ ∀ e ∈ before, e.kind = .resumed := by
  rcases h with rfl | ⟨-, -, rfl⟩
  · exact ⟨[], by simp, by simp⟩
  · exact ⟨_, rfl, fun e he => by rw [List.mem_singleton.mp he]⟩

/-- A trade is one event. -/
theorem Walk.events_trade (w : Walk) (now : ℤ) (x : RestingOrder) (xs : List RestingOrder)
    (outside breach : Option ℤ) :
    (w.trade now x xs outside breach).market.events =
      w.market.events ++ [(tradeEvent (w.nextTrade now x)).numbered w.market.nextSeq] := by
  rw [Walk.toSession_trade]
  simp only
  split_ifs <;> rfl

/-- A trade that takes all of the passive order finishes it as filled. -/
theorem Walk.finishedOrders_trade (w : Walk) (now : ℤ) (x : RestingOrder) (xs : List RestingOrder)
    (outside breach : Option ℤ) :
    (w.trade now x xs outside breach).market.finishedOrders =
      if x.quantity = min w.incoming.quantity x.quantity then
        Function.update w.market.finishedOrders x.orderId (some .filled)
      else w.market.finishedOrders := by
  rw [Walk.toSession_trade]
  simp only
  split_ifs <;> rfl

/-- A trade gives no id an owner. -/
theorem Walk.ownerOf_trade (w : Walk) (now : ℤ) (x : RestingOrder) (xs : List RestingOrder)
    (outside breach : Option ℤ) :
    (w.trade now x xs outside breach).market.ownerOf = w.market.ownerOf := by
  rw [Walk.toSession_trade]
  simp only
  split_ifs <;> rfl

/-- A halt is one event. -/
theorem Walk.events_halt (w : Walk) (x : RestingOrder) (now : ℤ) :
    ∃ e, e.kind = .halted ∧ (w.halt x now).market.events = w.market.events ++ [e] :=
  ⟨_, rfl, rfl⟩

/-- An order comes to rest with one event. -/
theorem events_restOrder {m' : Market} (h : m.restOrder order now = some m') :
    m'.events = m.events ++ [(order.event .rested now).numbered m.nextSeq] := by
  obtain ⟨-, rfl⟩ := restOrder_eq_some h
  rfl

/-- An order that comes to rest leaves the halt alone. -/
theorem halted_restOrder {m' : Market} (h : m.restOrder order now = some m') :
    m'.halted = m.halted := by
  obtain ⟨-, rfl⟩ := restOrder_eq_some h
  rfl

/-- An order that comes to rest leaves the last trade price alone. -/
theorem lastTradePrice_restOrder {m' : Market} (h : m.restOrder order now = some m') :
    m'.lastTradePrice = m.lastTradePrice := by
  obtain ⟨-, rfl⟩ := restOrder_eq_some h
  rfl

/-- The last trade price waits for the end of the walk. -/
theorem Walk.lastTradePrice_trade (w : Walk) (now : ℤ) (x : RestingOrder) (xs : List RestingOrder)
    (outside breach : Option ℤ) :
    (w.trade now x xs outside breach).market.lastTradePrice = w.market.lastTradePrice := by
  rw [Walk.toSession_trade]
  simp only
  split_ifs <;> rfl

/-- The session after a walk's trades are absorbed. -/
theorem toSession_absorb (m : Market) (trades : List Trade) (last : Trade) :
    (m.absorb trades last).toSession = m.moveReference last := by
  rw [absorb, wakeStops]
  split_ifs <;> rfl

/-- The effect of a walk's trades is without an event. -/
theorem events_absorb (m : Market) (trades : List Trade) (last : Trade) :
    (m.absorb trades last).events = m.events := by
  rw [toSession_absorb]
  rfl

/-- Waking stops keeps them. -/
theorem wakeStops_perm (m : Market) (low high : ℤ) :
    ((m.wakeStops low high).fifo ++ (m.wakeStops low high).stops).Perm (m.fifo ++ m.stops) := by
  rw [wakeStops]
  split_ifs
  · exact List.Perm.refl _
  · rw [List.append_assoc]
    exact (List.filter_append_perm _ _).append_left _

/-- The effect of a walk's trades is not on the queues. -/
theorem queue_absorb (m : Market) (trades : List Trade) (last : Trade) (side : Side) :
    (m.absorb trades last).queue side = m.queue side := by
  rw [absorb, wakeStops]
  split_ifs <;> cases side <;> rfl

/-- A trade takes the head off the other queue, or leaves it in its place. -/
theorem Walk.places_trade (w : Walk) (now : ℤ) {x : RestingOrder} {xs : List RestingOrder}
    (outside breach : Option ℤ) (hqueue : w.market.queue w.incoming.side.opposite = x :: xs)
    (side : Side) :
    (((w.trade now x xs outside breach).market.queue side).map RestingOrder.place).Sublist
      ((w.market.queue side).map RestingOrder.place) := by
  obtain rfl | rfl : side = w.incoming.side.opposite ∨ side = w.incoming.side := by
    cases side <;> cases w.incoming.side <;> simp [Side.opposite]
  · rw [Walk.queue_trade_opposite, hqueue]
    simp only
    split_ifs
    · exact List.sublist_cons_self _ _
    · exact List.Sublist.refl _
  · rw [Walk.queue_trade_side]

/-- An order that is taken off the book leaves the others in their places. -/
theorem places_remove (m : Market) (e : EngineEvent) (id : OrderId) (side : Side) :
    ((((m.emit e).remove id).queue side).map RestingOrder.place).Sublist
      ((m.queue side).map RestingOrder.place) := by
  rw [queue_remove, queue_emit]
  exact List.filter_sublist.map _

/-- An order that is reduced stays in its place. -/
theorem places_reduce (m : Market) (id : OrderId) (by' : ℤ) (side : Side) :
    ((m.reduce id by').queue side).map RestingOrder.place =
      (m.queue side).map RestingOrder.place := by
  have hmap : (m.reduce id by').queue side = (m.queue side).map fun x =>
      if x.orderId = id then { x with quantity := x.quantity - by' } else x := by cases side <;> rfl
  rw [hmap, List.map_map]
  refine List.map_congr_left fun x _ => ?_
  show RestingOrder.place (if x.orderId = id then _ else x) = x.place
  split_ifs <;> rfl

/-- Absorbing a walk's trades keeps the stops. -/
theorem mem_stops_absorb {trades : List Trade} {last : Trade} {stop : StopOrder} :
    stop ∈ (m.absorb trades last).fifo ++ (m.absorb trades last).stops ↔ stop ∈ m.fifo ++ m.stops :=
  (wakeStops_perm { m with toSession := m.moveReference last } _ _).mem_iff

/-- The stops that stay dormant when a walk's trades are absorbed. -/
theorem stops_absorb (trades : List Trade) (last : Trade) (h : m.halted = false) :
    (m.absorb trades last).stops =
      m.stops.filter fun s => !touched (lowPrice trades last) (highPrice trades last) s := by
  rw [absorb, wakeStops, if_neg]
  show ¬ m.halted = true
  simp [h]

/-- An order that comes to rest leaves the configuration alone. -/
theorem cfg_restOrder {m' : Market} (h : m.restOrder order now = some m') : m'.cfg = m.cfg := by
  obtain ⟨-, rfl⟩ := restOrder_eq_some h
  rfl

/-- A trade leaves the configuration alone. -/
theorem Walk.cfg_trade (w : Walk) (now : ℤ) (x : RestingOrder) (xs : List RestingOrder)
    (outside breach : Option ℤ) : (w.trade now x xs outside breach).market.cfg = w.market.cfg := by
  rw [Walk.toSession_trade]
  simp only
  split_ifs <;> rfl

/-- The effect of a walk's trades is not on the configuration. -/
theorem cfg_absorb (m : Market) (trades : List Trade) (last : Trade) :
    (m.absorb trades last).cfg = m.cfg := by
  rw [toSession_absorb]
  rfl

/-- The configuration never changes. -/
theorem cfg_invariant (cfg : Config) : Invariant cfg fun s => s.market.cfg = cfg where
  start := rfl
  resume _ h := h
  act _ hact h := by cases hact <;> exact h
  step hstep h := by
    cases hstep with
    | trade meets band => exact (Walk.cfg_trade ..).trans h
    | rest quantity type runOut room => exact (cfg_restOrder room).trans h
    | restAtBandEdge type valid room => exact (cfg_restOrder room).trans h
    | absorb last_eq => exact (cfg_absorb ..).trans h
    | _ => exact h

/-- The trades that a stage has not yet absorbed. -/
def Stage.trades : Stage → List Trade
  | .idle _ | .entering _ _ => []
  | .walking w | .stopped w => w.trades
  | .settled _ trades _ => trades

/-! ## What a step appends -/

/-- A step appends at most one event, at the time of the call. -/
theorem Step.appended {s s' : Stage} (h : Step now s s') :
    s'.market.events = s.market.events ∨
      ∃ e, s'.market.events = s.market.events ++ [e] ∧ e.kind.ofStep = true ∧ e.ts = now := by
  cases h with
  | reenter => exact Or.inr ⟨_, rfl, rfl, rfl⟩
  | @trade w x xs outside breach meets band =>
    exact Or.inr ⟨_, w.events_trade now x xs outside breach, rfl, rfl⟩
  | halt meets band => exact Or.inr ⟨_, rfl, rfl, rfl⟩
  | limit meets band => exact Or.inl rfl
  | filled quantity => exact Or.inl rfl
  | rest quantity type runOut room => exact Or.inr ⟨_, events_restOrder room, rfl, rfl⟩
  | expire quantity => exact Or.inr ⟨_, rfl, rfl, rfl⟩
  | restAtBandEdge type valid room => exact Or.inr ⟨_, events_restOrder room, rfl, rfl⟩
  | expireStopped => exact Or.inr ⟨_, rfl, rfl, rfl⟩
  | finish => exact Or.inl rfl
  | @absorb m trades _ last last_eq => exact Or.inl (events_absorb m trades last)
  | fire fifo halted => exact Or.inr ⟨_, rfl, rfl, rfl⟩
  | sendBack halted => exact Or.inl rfl

/-- What a call does appends at most one event, at its time. -/
theorem Acts.appended {c : Call} {s : Stage} (h : Acts m c s) :
    s.market.events = m.events ∨ ∃ e, s.market.events = m.events ++ [e] ∧ e.ts = c.now := by
  cases h with
  | refuse kind => exact Or.inl rfl
  | _ => exact Or.inr ⟨_, rfl, rfl⟩

/-- The events of a call happen at its time. -/
theorem call_stamped (c : Call) (hwf : m.Wf []) (hfifo : m.fifo = []) :
    ∃ es, (m.call c).events = m.events ++ es ∧ ∀ e ∈ es, e.ts = c.now := by
  obtain ⟨m₀, s, hresumes, hact, hsteps, -⟩ := call_steps c hwf hfifo
  have hone : ∀ {events es : List EngineEvent} {e : EngineEvent}, events = m.events ++ es →
      (∀ e ∈ es, e.ts = c.now) → e.ts = c.now →
        ∃ es', events ++ [e] = m.events ++ es' ∧ ∀ e ∈ es', e.ts = c.now := by
    rintro events es e rfl hes he
    refine ⟨es ++ [e], List.append_assoc _ _ _, fun e' he' => ?_⟩
    rcases List.mem_append.mp he' with he' | he'
    · exact hes e' he'
    · rw [List.mem_singleton.mp he', he]
  -- The stretch of events grows from the lifting of a halt to the last step.
  have hstart : ∃ es, m₀.events = m.events ++ es ∧ ∀ e ∈ es, e.ts = c.now := by
    rcases hresumes with rfl | ⟨-, -, rfl⟩
    · exact ⟨[], (List.append_nil _).symm, by simp⟩
    · exact ⟨_, rfl, fun e he => by rw [List.mem_singleton.mp he]⟩
  have hacted : ∃ es, s.market.events = m.events ++ es ∧ ∀ e ∈ es, e.ts = c.now := by
    obtain ⟨es, hes, hts⟩ := hstart
    rcases hact.appended with hsame | ⟨e, hevents, he⟩
    · exact ⟨es, hsame.trans hes, hts⟩
    · rw [hevents]
      exact hone hes hts he
  refine hsteps.invariant (I := fun s => ∃ es, s.market.events = m.events ++ es ∧ ∀ e ∈ es, e.ts = c.now)
    (fun hstep h => ?_) hacted
  obtain ⟨es, hes, hts⟩ := h
  rcases hstep.appended with hsame | ⟨e, hevents, -, he⟩
  · exact ⟨es, hsame.trans hes, hts⟩
  · rw [hevents]
    exact hone hes hts he

/-! ## What the stream determines -/

/-- Two sessions agree on the stream, its numbering, and the owners. -/
structure SameLog (s s' : Session) : Prop where
  /-- The same events. -/
  events : s'.events = s.events
  /-- The same next number. -/
  nextSeq : s'.nextSeq = s.nextSeq
  /-- The same owners. -/
  ownerOf : s'.ownerOf = s.ownerOf

/-- A session agrees with itself. -/
theorem SameLog.refl (s : Session) : SameLog s s := ⟨rfl, rfl, rfl⟩

/-- A session has emitted some events, and otherwise kept its stream. -/
def Emits (s s' : Session) : Prop := ∃ es : List EngineEvent, SameLog (es.foldl Session.emit s) s'

/-- Nothing is emitted. -/
theorem emits_of_same {s s' : Session} (h : SameLog s s') : Emits s s' := ⟨[], h⟩

/-- One event is emitted. -/
theorem emits_one {s s' : Session} {e : EngineEvent} (h : SameLog (s.emit e) s') : Emits s s' :=
  ⟨[e], h⟩

/-- An order comes to rest with an event. -/
theorem emits_restOrder {m' : Market} (h : m.restOrder order now = some m') :
    Emits m.toSession m'.toSession := by
  obtain ⟨-, rfl⟩ := restOrder_eq_some h
  exact emits_one (e := order.event .rested now) (.refl _)

/-- Every step only adds to the stream. -/
theorem Step.emits {s s' : Stage} (h : Step now s s') :
    Emits s.market.toSession s'.market.toSession := by
  cases h with
  | reenter => exact emits_one (.refl _)
  | @trade w x xs outside breach meets band =>
    refine emits_one (e := tradeEvent (w.nextTrade now x)) ?_
    show SameLog _ (w.trade now x xs outside breach).market.toSession
    rw [Walk.toSession_trade]
    simp only
    split_ifs <;> exact ⟨rfl, rfl, rfl⟩
  | halt meets band => exact emits_one ⟨rfl, rfl, rfl⟩
  | limit meets band => exact emits_of_same (.refl _)
  | filled quantity => exact emits_of_same ⟨rfl, rfl, rfl⟩
  | rest quantity type runOut room => exact emits_restOrder room
  | expire quantity => exact emits_one (.refl _)
  | restAtBandEdge type valid room => exact emits_restOrder room
  | expireStopped => exact emits_one (.refl _)
  | finish => exact emits_of_same (.refl _)
  | @absorb m trades _ last last_eq =>
    refine emits_of_same ?_
    show SameLog m.toSession (m.absorb trades last).toSession
    rw [toSession_absorb]
    exact ⟨rfl, rfl, rfl⟩
  | fire fifo halted => exact emits_one (.refl _)
  | sendBack halted => exact emits_of_same (.refl _)

/-- The action of a call emits what it does. -/
theorem Acts.emits {c : Call} {s : Stage} (h : Acts m c s) :
    Emits m.toSession s.market.toSession := by
  cases h with
  | refuse kind => exact emits_of_same (.refl _)
  | reject => exact emits_one (.refl _)
  | submit fresh halted valid => exact emits_one (.refl _)
  | cancel found => exact emits_one (.refl _)
  | withdraw found => exact emits_one (.refl _)
  | reduce found pos le => exact emits_one (.refl _)
  | replace halted found change valid => exact emits_one (.refl _)
  | rejectStop => exact emits_one (.refl _)
  | placeStop fresh valid ahead => exact emits_one ⟨rfl, rfl, rfl⟩
  | cancelStop found => exact emits_one (.refl _)
  | modifyStop found valid ahead => exact emits_one (.refl _)

/-- What every emission keeps, every reachable stage has. -/
theorem Reachable.logged {cfg : Config} {Q : Session → Prop} {s : Stage} (h : Reachable cfg s)
    (hsame : ∀ s s', SameLog s s' → Q s → Q s') (hemit : ∀ s e, Q s → Q (s.emit e))
    (hstart : Q (Market.make cfg).toSession) : Q s.market.toSession := by
  have hemits : ∀ {s s'}, Emits s s' → Q s → Q s' := by
    rintro s s' ⟨es, hlog⟩ hs
    refine hsame _ _ hlog ?_
    clear hlog
    induction es generalizing s with
    | nil => exact hs
    | cons e es ih => exact ih (hemit s e hs)
  exact h.invariant (I := fun s => Q s.market.toSession)
    ⟨hstart, fun {m now} _ h => hemit _ _ (hsame m.toSession _ ⟨rfl, rfl, rfl⟩ h),
      fun _ hact h => hemits hact.emits h,
      fun hstep h => hemits hstep.emits h⟩

/-- An event that accepts an order or a stop. -/
def Accepts (id : OrderId) (e : EngineEvent) : Prop :=
  (e.kind = .accepted ∨ e.kind = .stopAccepted) ∧ e.orderId = id

/-- The owners are those of the ids that the stream has accepted. -/
theorem Reachable.ownerOf {cfg : Config} {s : Stage} (h : Reachable cfg s) (id : OrderId) :
    (s.market.ownerOf id).isSome ↔ ∃ e ∈ s.market.events, Accepts id e := by
  refine h.logged (Q := fun s => (s.ownerOf id).isSome ↔ ∃ e ∈ s.events, Accepts id e)
    (fun s s' hs h => by rw [hs.ownerOf, hs.events]; exact h) (fun s e h => ?_) (by simp [make])
  have hmem : (∃ e' ∈ (s.emit e).events, Accepts id e') ↔
      (∃ e' ∈ s.events, Accepts id e') ∨ Accepts id e := by
    simp only [Session.emit, List.mem_append, List.mem_singleton, or_and_right, exists_or,
      exists_eq_left]
    rfl
  rw [hmem, ← h]
  -- Only the two kinds that accept an id write an owner, and only for an id without one.
  by_cases hk : e.kind = .accepted ∨ e.kind = .stopAccepted
  · cases hs : s.ownerOf e.orderId with
    | none =>
      rw [s.ownerOf_emit_of_unowned hk hs]
      simp only [Function.update_apply, Accepts, hk, true_and]
      by_cases hid : id = e.orderId
      · simp [hid]
      · simp [hid, Ne.symm hid]
    | some who =>
      rw [s.ownerOf_emit_of_owned hk hs]
      simp only [Accepts, hk, true_and]
      refine ⟨Or.inl, fun h => h.elim (fun h => h) fun hid => ?_⟩
      rw [← hid, hs]
      rfl
  · rw [s.ownerOf_emit_of_ne hk]
    simp [Accepts, hk]

/-- An id keeps its first owner. -/
theorem ownerOf_emit_of_owned {s : Session} {e : EngineEvent} (h : s.ownerOf e.orderId ≠ none) :
    (s.emit e).ownerOf = s.ownerOf := by
  obtain ⟨who, hwho⟩ := Option.ne_none_iff_exists'.mp h
  unfold Session.emit
  simp only [hwho, ite_self]

/-- The engine's steps give no id an owner. -/
theorem Step.ownerOf {s s' : Stage} (h : Step now s s') (hwf : s.Wf) :
    s'.market.ownerOf = s.market.ownerOf := by
  cases h with
  | reenter => exact ownerOf_emit_of_owned (hwf.1.owned (List.mem_append_left _ List.mem_cons_self))
  | trade meets band => exact Walk.ownerOf_trade ..
  | rest quantity type runOut room =>
    obtain ⟨-, rfl⟩ := restOrder_eq_some room
    rfl
  | restAtBandEdge type valid room =>
    obtain ⟨-, rfl⟩ := restOrder_eq_some room
    rfl
  | @absorb m trades _ last last_eq =>
    show (m.absorb trades last).ownerOf = m.ownerOf
    rw [toSession_absorb]
    rfl
  | _ => rfl

/-- The ids with an owner are those of orders submitted and stops placed. -/
theorem created_invariant (P : OrderId → Prop) :
    CallInvariant (fun c => c.creates = true → P c.id) fun s =>
      ∀ id, (s.market.ownerOf id).isSome → P id where
  resume _ _ _ h := h
  act {m c s} hc hwf hfifo hact h id hid := by
    -- An event gives an owner to its own id only.
    have hnew : ∀ (s : Session) (e : EngineEvent), s.ownerOf = m.ownerOf →
        (e.orderId = c.id ∧ c.creates = true) → ((s.emit e).ownerOf id).isSome → P id := by
      rintro s e hs ⟨he, hcreates⟩ hown
      by_cases hide : id = c.id
      · exact hide ▸ hc hcreates
      · refine h id (Option.isSome_iff_ne_none.mpr fun hnone => ?_)
        have hnone : s.ownerOf id = none := hs ▸ hnone
        refine absurd ?_ (Option.isSome_iff_ne_none.mp hown)
        unfold Session.emit
        simp only
        split_ifs
        · cases s.ownerOf e.orderId with
          | none =>
            simp only
            rw [Function.update_of_ne (he ▸ hide)]
            exact hnone
          | some who => exact hnone
        · exact hnone
    cases hact with
    | submit fresh halted valid => exact hnew _ _ rfl ⟨rfl, rfl⟩ hid
    | placeStop fresh valid ahead => exact hnew _ _ rfl ⟨rfl, rfl⟩ hid
    | _ => exact h id hid
  step hwf hstep h id hid := h id (by rwa [hstep.ownerOf hwf] at hid)

/-- The stream is numbered from 1 without a gap. -/
theorem Reachable.numbered {cfg : Config} {s : Stage} (h : Reachable cfg s) :
    s.market.events.map EngineEvent.sequenceNumber = List.range' 1 s.market.events.length ∧
      s.market.nextSeq = s.market.events.length + 1 := by
  refine h.logged (Q := fun s => s.events.map EngineEvent.sequenceNumber =
      List.range' 1 s.events.length ∧ s.nextSeq = s.events.length + 1)
    (fun s s' hs h => by rw [hs.events, hs.nextSeq]; exact h) (fun s e h => ?_) ⟨rfl, rfl⟩
  obtain ⟨h1, h2⟩ := h
  have hevents : (s.emit e).events = s.events ++ [e.numbered s.nextSeq] := rfl
  have hnext : (s.emit e).nextSeq = s.nextSeq + 1 := rfl
  rw [hevents, hnext, List.length_append, List.map_append, h1, h2]
  refine ⟨?_, rfl⟩
  rw [List.length_singleton, List.range'_concat]
  simp [Nat.add_comm]

end Market

end OrderBookEngine
