import OrderBookEngine.Market.Events

/-!
# Ledgers

A ledger keeps an account of every id, computed from the event stream alone: `after` says what an
event does to an account. It also states what a resting order, a dormant stop, an order in flight and
a finished id have to do with their accounts. `Ledger.Rules` are the conditions on these statements,
one for each event that the engine emits about an order; each is about one id. `Ledger.run` proves
that with these rules the statements hold after every run: that every other id is left alone at every
step is proved here, once for all ledgers.
-/

namespace OrderBookEngine

/-- An event that bears on the account of an id. -/
def Names (id : OrderId) (e : EngineEvent) : Prop :=
  match e.kind with
  | .trade => e.orderId = id ∨ e.passiveId = id
  | .halted | .resumed | .rejected => False
  | _ => e.orderId = id

/-- Accounts of ids, and what they say of orders and stops. -/
structure Ledger (α : Type) where
  /-- The account of an id that has not been named. -/
  init : α
  /-- The account of an id after an event. -/
  after : OrderId → α → EngineEvent → α
  /-- What an account says of an order that rests. -/
  Resting : Side → RestingOrder → α → Prop
  /-- What an account says of a dormant stop. -/
  Dormant : StopOrder → α → Prop
  /-- An order that has left the book or the FIFO, and is about to be accepted again. -/
  Flying : Order → α → Prop
  /-- An accepted order, while it walks. -/
  Walking : Order → α → Prop
  /-- What an account says of an id that is over. -/
  Closed : FinalState → α → Prop

variable {α : Type}

/-- The account of an id after a stream of events. -/
def Ledger.account (l : Ledger α) (id : OrderId) (events : List EngineEvent) : α :=
  events.foldl (l.after id) l.init

/-- One more event on the account. -/
theorem Ledger.account_append (l : Ledger α) (id : OrderId) (events : List EngineEvent)
    (e : EngineEvent) : l.account id (events ++ [e]) = l.after id (l.account id events) e := by
  unfold Ledger.account
  rw [List.foldl_append]
  rfl

/-- What has to be shown of a ledger, for runs of calls with a property `C`. -/
structure Ledger.Rules (l : Ledger α) (C : Call → Prop) : Prop where
  /-- An event that does not name an id leaves its account alone. -/
  quiet : ∀ {id : OrderId} {a : α} {e : EngineEvent}, ¬ Names id e → l.after id a e = a
  /-- A new order is accepted. -/
  submit : ∀ {order : Order} {now : ℤ} {n : ℕ}, C (.addOrder order now) →
    Session.validateOrderFields order = .none →
    l.Walking order (l.after order.id l.init ((order.event .accepted now).numbered n))
  /-- An order in flight is accepted. -/
  reenter : ∀ {order : Order} {a : α} {now : ℤ} {n : ℕ}, l.Flying order a →
    Session.validateOrderFields order = .none →
    l.Walking order (l.after order.id a ((order.event .accepted now).numbered n))
  /-- An order trades as the aggressor. -/
  aggressor : ∀ {w : Market.Walk} {x : RestingOrder} {xs : List RestingOrder} {a : α} {now : ℤ}
    {n : ℕ} {outside breach : Option ℤ}, w.Meets x xs → x.orderId ≠ w.incoming.id →
    l.Walking w.incoming a →
    l.Walking (w.trade now x xs outside breach).incoming
      (l.after w.incoming.id a ((Market.tradeEvent (w.nextTrade now x)).numbered n))
  /-- An order trades as the passive one, and something is left of it. -/
  passive : ∀ {w : Market.Walk} {x : RestingOrder} {xs : List RestingOrder} {a : α} {now : ℤ} {n : ℕ},
    w.Meets x xs → x.orderId ≠ w.incoming.id → l.Resting w.incoming.side.opposite x a →
    x.quantity ≠ min w.incoming.quantity x.quantity →
    l.Resting w.incoming.side.opposite
      { x with quantity := x.quantity - min w.incoming.quantity x.quantity,
               filled := x.filled + min w.incoming.quantity x.quantity }
      (l.after x.orderId a ((Market.tradeEvent (w.nextTrade now x)).numbered n))
  /-- An order trades as the passive one, and nothing is left of it. -/
  exhaust : ∀ {w : Market.Walk} {x : RestingOrder} {xs : List RestingOrder} {a : α} {now : ℤ} {n : ℕ},
    w.Meets x xs → x.orderId ≠ w.incoming.id → l.Resting w.incoming.side.opposite x a →
    x.quantity = min w.incoming.quantity x.quantity →
    l.Closed .filled (l.after x.orderId a ((Market.tradeEvent (w.nextTrade now x)).numbered n))
  /-- Nothing is left of the aggressor. -/
  filled : ∀ {order : Order} {a : α}, l.Walking order a → order.quantity = 0 → l.Closed .filled a
  /-- An order expires. -/
  expire : ∀ {order : Order} {a : α} {price : Option ℤ} {now : ℤ} {n : ℕ}, l.Walking order a →
    l.Closed .cancelled (l.after order.id a (({ order with price }.event .expired now).numbered n))
  /-- An order comes to rest. -/
  rest : ∀ {order : Order} {a : α} {now : ℤ} {n : ℕ}, l.Walking order a → order.type = .limit →
    Market.Priced order → 0 < order.quantity →
    l.Resting order.side order.resting (l.after order.id a ((order.event .rested now).numbered n))
  /-- The remainder of a walk that the price band has cut short. -/
  restAtBandEdge : ∀ {s : Session} {order : Order} {a : α} {now : ℤ} {n : ℕ}, l.Walking order a →
    order.type = .limit → Market.Priced order → 0 < order.quantity →
    l.Resting order.side (s.atBandEdge order).resting
      (l.after order.id a (((s.atBandEdge order).event .rested now).numbered n))
  /-- A stop fires. -/
  fire : ∀ {stop : StopOrder} {a : α} {now : ℤ} {n : ℕ}, l.Dormant stop a →
    l.Flying stop.firedOrder (l.after stop.id a ((stop.event .stopTriggered now).numbered n))
  /-- A resting order is taken off. -/
  cancel : ∀ {side : Side} {x : RestingOrder} {a : α} {now : ℤ} {n : ℕ}, l.Resting side x a →
    l.Closed .cancelled (l.after x.orderId a (((x.toOrder side).event .cancelled now).numbered n))
  /-- A resting order is reduced in its place. -/
  reduce : ∀ {side : Side} {x : RestingOrder} {a : α} {quantity now : ℤ} {n : ℕ},
    l.Resting side x a → 0 < quantity → quantity ≤ x.quantity →
    l.Resting side { x with quantity }
      (l.after x.orderId a (({ x.toOrder side with quantity }.event .modified now).numbered n))
  /-- A resting order is replaced. -/
  replace : ∀ {side : Side} {x : RestingOrder} {a : α} {price quantity now : ℤ} {n : ℕ},
    l.Resting side x a → 0 < quantity →
    l.Flying { x.toOrder side with price := some price, quantity }
      (l.after x.orderId a (((x.toOrder side).event .replaced now).numbered n))
  /-- A stop is placed. -/
  placeStop : ∀ {stop : StopOrder} {now : ℤ} {n : ℕ}, Session.validateStopFields stop = .none →
    l.Dormant stop (l.after stop.id l.init ((stop.event .stopAccepted now).numbered n))
  /-- A stop is taken off. -/
  cancelStop : ∀ {stop : StopOrder} {a : α} {now : ℤ} {n : ℕ}, l.Dormant stop a →
    l.Closed .cancelled (l.after stop.id a ((stop.event .stopCancelled now).numbered n))
  /-- A stop is changed. -/
  modifyStop : ∀ {stop updated : StopOrder} {a : α} {now : ℤ} {n : ℕ}, l.Dormant stop a →
    updated.id = stop.id → updated.ownerId = stop.ownerId → updated.side = stop.side →
    Session.validateStopFields updated = .none →
    l.Dormant updated (l.after stop.id a ((updated.event .stopModified now).numbered n))

namespace Ledger

variable {l : Ledger α} {C : Call → Prop} {m m' : Market} {now : ℤ} {s s' : Market.Stage}

/-- The statements of a ledger about a market. -/
structure Holds (l : Ledger α) (m : Market) : Prop where
  /-- The resting orders are as their accounts say. -/
  resting : ∀ side, ∀ x ∈ m.queue side, l.Resting side x (l.account x.orderId m.events)
  /-- The dormant and the woken stops are as their accounts say. -/
  dormant : ∀ stop ∈ m.fifo ++ m.stops, l.Dormant stop (l.account stop.id m.events)
  /-- The ids that are over are as their accounts say. -/
  closed : ∀ id how, m.finishedOrders id = some how → l.Closed how (l.account id m.events)
  /-- An id without an owner has not been named. -/
  unknown : ∀ id, m.ownerOf id = none → l.account id m.events = l.init

/-- The statements of a ledger at a stage. -/
def At (l : Ledger α) : Market.Stage → Prop
  | .entering m order => l.Holds m ∧ l.Flying order (l.account order.id m.events)
  | .walking w | .stopped w =>
    l.Holds w.market ∧ l.Walking w.incoming (l.account w.incoming.id w.market.events)
  | .idle m | .settled m _ _ => l.Holds m

/-- Every id is unknown, resting, dormant, or finished, so its account has a property that these
have. -/
theorem Holds.account_of {P : α → Prop} (h : l.Holds m) (hwf : m.Wf []) (init : P l.init)
    (resting : ∀ side x a, l.Resting side x a → P a) (dormant : ∀ stop a, l.Dormant stop a → P a)
    (closed : ∀ how a, l.Closed how a → P a) (id : OrderId) : P (l.account id m.events) := by
  cases howner : m.ownerOf id with
  | none => exact h.unknown id howner ▸ init
  | some owner =>
    have howned := (hwf.ids.owned id).mp (by simp [howner])
    rw [List.nil_append, Market.liveIds] at howned
    rcases howned with hlive | hfin
    · rcases List.mem_append.mp hlive with hqueue | hstop
      · rcases List.mem_append.mp hqueue with hbid | hask
        · obtain ⟨x, hx, rfl⟩ := List.mem_map.mp hbid
          exact resting .buy x _ (h.resting .buy x hx)
        · obtain ⟨x, hx, rfl⟩ := List.mem_map.mp hask
          exact resting .sell x _ (h.resting .sell x hx)
      · obtain ⟨stop, hs, rfl⟩ := List.mem_map.mp hstop
        exact dormant stop _ (h.dormant stop hs)
    · obtain ⟨how, hhow⟩ := Option.isSome_iff_exists.mp hfin
      exact closed how _ (h.closed id how hhow)

/-! ## Other ids are left alone -/

/-- Ids without a property `T` are left alone; the others are looked at one by one. -/
theorem Holds.update (h : l.Holds m) (hl : l.Rules C) (T : OrderId → Prop) (e : EngineEvent)
    (hevents : m'.events = m.events ++ [e]) (ht : ∀ id, Names id e → T id)
    (hresting : ∀ side, ∀ x ∈ m'.queue side, (¬ T x.orderId ∧ x ∈ m.queue side) ∨
      l.Resting side x (l.account x.orderId m'.events))
    (hdormant : ∀ stop ∈ m'.fifo ++ m'.stops, (¬ T stop.id ∧ stop ∈ m.fifo ++ m.stops) ∨
      l.Dormant stop (l.account stop.id m'.events))
    (hclosed : ∀ id how, m'.finishedOrders id = some how →
      (¬ T id ∧ m.finishedOrders id = some how) ∨ l.Closed how (l.account id m'.events))
    (hunknown : ∀ id, m'.ownerOf id = none → ¬ T id ∧ m.ownerOf id = none) : l.Holds m' := by
  -- An id that the event does not name keeps its account.
  have hkeep : ∀ id, ¬ T id → l.account id m'.events = l.account id m.events := fun id hT => by
    rw [hevents, l.account_append]
    exact hl.quiet (mt (ht id) hT)
  refine ⟨fun side x hx => ?_, fun stop hs => ?_, fun id how hf => ?_, fun id hn => ?_⟩
  · rcases hresting side x hx with ⟨hT, hx⟩ | hx
    · rw [hkeep _ hT]
      exact h.resting side x hx
    · exact hx
  · rcases hdormant stop hs with ⟨hT, hs⟩ | hs
    · rw [hkeep _ hT]
      exact h.dormant stop hs
    · exact hs
  · rcases hclosed id how hf with ⟨hT, hf⟩ | hf
    · rw [hkeep _ hT]
      exact h.closed id how hf
    · exact hf
  · obtain ⟨hT, hn⟩ := hunknown id hn
    exact (hkeep id hT).trans (h.unknown id hn)

/-- An event about nobody. -/
theorem Holds.note (h : l.Holds m) (hl : l.Rules C) (e : EngineEvent) (ht : ∀ id, ¬ Names id e)
    (hevents : m'.events = m.events ++ [e]) (hqueue : ∀ side, m'.queue side = m.queue side)
    (hstops : ∀ stop ∈ m'.fifo ++ m'.stops, stop ∈ m.fifo ++ m.stops)
    (hfinished : m'.finishedOrders = m.finishedOrders) (hunknown : m'.ownerOf = m.ownerOf) :
    l.Holds m' :=
  h.update hl (fun _ => False) e hevents (fun id hn => ht id hn)
    (fun side _ hx => Or.inl ⟨not_false, hqueue side ▸ hx⟩)
    (fun stop hs => Or.inl ⟨not_false, hstops stop hs⟩)
    (fun _ _ hf => Or.inl ⟨not_false, hfinished ▸ hf⟩) fun _ hn => ⟨not_false, hunknown ▸ hn⟩

/-- A change without an event. -/
theorem Holds.silent (h : l.Holds m) (hevents : m'.events = m.events)
    (hqueue : ∀ side, ∀ x ∈ m'.queue side, x ∈ m.queue side)
    (hstops : ∀ stop ∈ m'.fifo ++ m'.stops, stop ∈ m.fifo ++ m.stops)
    (hfinished : m'.finishedOrders = m.finishedOrders) (hunknown : m'.ownerOf = m.ownerOf) :
    l.Holds m' :=
  ⟨fun side x hx => by rw [hevents]; exact h.resting side x (hqueue side x hx),
    fun stop hs => by rw [hevents]; exact h.dormant stop (hstops stop hs),
    fun id how hf => by rw [hevents]; exact h.closed id how (hfinished ▸ hf),
    fun id hn => by rw [hevents]; exact h.unknown id (hunknown ▸ hn)⟩

/-- The only id that an event other than a trade is about. -/
theorem eq_of_names {id : OrderId} {e : EngineEvent} (hk : e.kind ≠ .trade) (h : Names id e) :
    id = e.orderId := by
  rw [Names] at h
  cases hkind : e.kind <;> simp only [hkind] at h hk <;> first | exact h.symm | exact absurd rfl hk

/-- An order that is accepted. -/
theorem Holds.accept {order : Order} (h : l.Holds m) (hl : l.Rules C)
    (hwf : (m.accept order now).market.Wf [order.id])
    (hwalking : ∀ n, l.Walking order
      (l.after order.id (l.account order.id m.events) ((order.event .accepted now).numbered n))) :
    l.At (.walking (m.accept order now)) := by
  have hid : order.id ∈ [order.id] := List.mem_singleton_self _
  refine ⟨h.update hl (fun id => id = order.id) _ (Market.events_emit _ _)
    (fun id ht => eq_of_names (by simp [Order.event]) ht)
    (fun side x hx => Or.inl ⟨hwf.queue_ne hid hx, ?_⟩)
    (fun stop hs => Or.inl ⟨hwf.stop_ne hid hs, hs⟩)
    (fun id how hf => Or.inl ⟨hwf.finished_ne hid hf, hf⟩)
    (fun id hn => ⟨?_, Market.ownerOf_emit_eq_none hn⟩), ?_⟩
  · rwa [Market.accept, Market.queue_emit] at hx
  · rintro rfl
    exact hwf.owned (List.mem_append_left _ hid) hn
  · rw [Market.accept, Market.events_emit, l.account_append]
    exact hwalking _

/-- An order or a stop that is closed without a fill. -/
theorem Holds.close (h : l.Holds m) (hl : l.Rules C) {e : EngineEvent} {flying : List OrderId}
    (hwf : m.Wf (e.orderId :: flying))
    (hk : e.kind = .cancelled ∨ e.kind = .stopCancelled ∨ e.kind = .expired)
    (hclosed : ∀ n, l.Closed .cancelled
      (l.after e.orderId (l.account e.orderId m.events) (e.numbered n))) : l.Holds (m.emit e) := by
  have hid : e.orderId ∈ e.orderId :: flying := List.mem_cons_self
  have hfin : (m.emit e).finishedOrders =
      Function.update m.finishedOrders e.orderId (some .cancelled) := if_pos hk
  refine h.update hl (fun id => id = e.orderId) _ (Market.events_emit _ _)
    (fun id ht => eq_of_names ?_ ht) (fun side x hx => Or.inl ⟨?_, ?_⟩)
    (fun stop hs => Or.inl ⟨hwf.stop_ne hid hs, hs⟩) (fun id how hf => ?_)
    (fun id hn => ⟨?_, Market.ownerOf_emit_eq_none hn⟩)
  · rcases hk with hk | hk | hk <;> simp [hk]
  · rw [Market.queue_emit] at hx
    exact hwf.queue_ne hid hx
  · rwa [Market.queue_emit] at hx
  -- The event finishes its own id, and only that one.
  · by_cases hne : id = e.orderId
    · rw [hfin, hne, Function.update_self] at hf
      rw [hne, ← Option.some.inj hf, Market.events_emit, l.account_append]
      exact Or.inr (hclosed _)
    · rw [hfin, Function.update_of_ne hne] at hf
      exact Or.inl ⟨hne, hf⟩
  · rintro rfl
    exact hwf.owned (List.mem_append_left _ hid) (Market.ownerOf_emit_eq_none hn)

/-- A resting order that leaves the book. -/
theorem Holds.remove (h : l.Holds m) (id : OrderId) : l.Holds (m.remove id) :=
  h.silent rfl (fun side x hx => by
    rw [Market.queue_remove] at hx
    exact List.mem_of_mem_filter hx) (fun _ hs => hs) rfl rfl

/-- An order in flight that comes to rest. -/
theorem Holds.rest {order : Order} (h : l.Holds m) (hl : l.Rules C) (hwf : m.Wf [order.id])
    (hr : m.restOrder order now = some m')
    (hresting : ∀ n, l.Resting order.side order.resting
      (l.after order.id (l.account order.id m.events) ((order.event .rested now).numbered n))) :
    l.Holds m' := by
  have hid : order.id ∈ [order.id] := List.mem_singleton_self _
  have hevents := Market.events_restOrder hr
  obtain ⟨hstops, hfifo⟩ := Market.restOrder_stops hr
  -- The event names the order alone, which is not among those that the ledger holds.
  refine h.update hl (fun id => id = order.id) _ hevents
    (fun id ht => eq_of_names (by simp [Order.event]) ht) (fun side x hx => ?_) (fun stop hs => ?_)
    (fun id how hf => Or.inl ?_) (fun id hn => ?_)
  · rcases Market.mem_queue_restOrder hr hx with hx | ⟨rfl, rfl⟩
    · exact Or.inl ⟨hwf.queue_ne hid hx, hx⟩
    · rw [hevents, l.account_append]
      exact Or.inr (hresting _)
  · rw [hstops, hfifo] at hs
    exact Or.inl ⟨hwf.stop_ne hid hs, hs⟩
  · obtain ⟨-, rfl⟩ := Market.restOrder_eq_some hr
    exact ⟨hwf.finished_ne hid hf, hf⟩
  · obtain ⟨-, rfl⟩ := Market.restOrder_eq_some hr
    refine ⟨?_, Market.ownerOf_emit_eq_none hn⟩
    rintro rfl
    exact hwf.owned (List.mem_append_left _ hid) (Market.ownerOf_emit_eq_none hn)

/-- A trade, between two ids. -/
theorem Holds.trade {w : Market.Walk} {x : RestingOrder} {xs : List RestingOrder}
    {outside breach : Option ℤ} (h : l.Holds w.market) (hl : l.Rules C)
    (hwf : w.market.Wf [w.incoming.id]) (hmeets : w.Meets x xs)
    (hwalking : l.Walking w.incoming (l.account w.incoming.id w.market.events)) :
    l.At (.walking (w.trade now x xs outside breach)) := by
  have hqueue := hmeets.queue
  have hx : x ∈ w.market.queue w.incoming.side.opposite := by
    rw [hqueue]
    exact List.mem_cons_self
  have hid : w.incoming.id ∈ [w.incoming.id] := List.mem_singleton_self _
  have hne := hwf.queue_ne hid hx
  have hwf' : (w.trade now x xs outside breach).market.Wf [w.incoming.id] := hwf.trade hqueue
  have hevents := w.events_trade now x xs outside breach
  have hfin := w.finishedOrders_trade now x xs outside breach
  have hown := w.ownerOf_trade now x xs outside breach
  obtain ⟨hstops, hfifo⟩ := w.stops_trade now x xs outside breach
  refine ⟨h.update hl (fun id => id = w.incoming.id ∨ id = x.orderId) _ hevents
    (fun id ht => ht.imp Eq.symm Eq.symm) (fun side y hy => ?_) (fun stop hs => ?_)
    (fun id how hf => ?_) (fun id hn => ?_), ?_⟩
  -- An order of the queues is untouched, or it is the passive one with what it has left.
  · rcases hwf.mem_queue_trade hqueue hy with ⟨hold, hxy⟩ | ⟨rfl, rfl, hpart⟩
    · exact Or.inl ⟨not_or.mpr ⟨hwf.queue_ne hid hold, hxy⟩, hold⟩
    · right
      rw [hevents, l.account_append]
      exact hl.passive hmeets hne (h.resting _ x hx) hpart
  · rw [hstops, hfifo] at hs
    exact Or.inl ⟨not_or.mpr ⟨hwf.stop_ne hid hs, hwf.stop_ne_of_mem hx hs⟩, hs⟩
  -- The trade finishes the passive order if it fills it.
  · by_cases hidx : id = x.orderId
    · rw [hidx, hfin] at hf
      split_ifs at hf with hfull
      · rw [Function.update_self] at hf
        rw [hidx, ← Option.some.inj hf, hevents, l.account_append]
        exact Or.inr (hl.exhaust hmeets hne (h.resting _ x hx) hfull)
      · exact absurd rfl (hwf.finished_ne_of_mem hx hf)
    · refine Or.inl ⟨not_or.mpr ⟨hwf'.finished_ne hid hf, hidx⟩, ?_⟩
      rw [hfin] at hf
      split_ifs at hf
      · rwa [Function.update_of_ne hidx] at hf
      · exact hf
  · rw [hown] at hn
    refine ⟨?_, hn⟩
    rintro (rfl | rfl)
    · exact hwf.owned (List.mem_append_left _ hid) hn
    · exact hwf.owned (List.mem_append_right _ (Market.mem_liveIds_of_queue hx)) hn
  · rw [hevents, l.account_append]
    exact hl.aggressor hmeets hne hwalking

/-- An order whose quantity is used up is finished as filled. -/
theorem Holds.markFilled (h : l.Holds m) {id : OrderId}
    (hclosed : l.Closed .filled (l.account id m.events)) :
    l.Holds { m with toSession := m.markFilled id } := by
  refine ⟨fun side x hx => h.resting side x ?_, h.dormant, fun i how hf => ?_, h.unknown⟩
  · rwa [Market.queue_withSession] at hx
  · have hf : Function.update m.finishedOrders id (some .filled) i = some how := hf
    by_cases hi : i = id
    · rw [hi, Function.update_self] at hf
      rw [hi, ← Option.some.inj hf]
      exact hclosed
    · rw [Function.update_of_ne hi] at hf
      exact h.closed i how hf

/-- A resting order that is reduced in its place. -/
theorem Holds.reduce {side : Side} {x : RestingOrder} {quantity : ℤ} (h : l.Holds m) (hl : l.Rules C)
    (hwf : m.Wf []) (hx : x ∈ m.queue side) (hpos : 0 < quantity) (hle : quantity ≤ x.quantity) :
    l.Holds ((m.reduce x.orderId (x.quantity - quantity)).emit
      ({ x.toOrder side with quantity }.event .modified now)) := by
  set m' := (m.reduce x.orderId (x.quantity - quantity)).emit
    ({ x.toOrder side with quantity }.event .modified now) with hm'
  have hevents : m'.events = m.events ++
      [({ x.toOrder side with quantity }.event .modified now).numbered m.nextSeq] := rfl
  refine h.update hl (fun id => id = x.orderId) _ hevents
    (fun id ht => eq_of_names (by simp [Order.event]) ht) (fun side' y hy => ?_)
    (fun stop hs => Or.inl ⟨hwf.stop_ne_of_mem hx hs, hs⟩)
    (fun id how hf => Or.inl ⟨hwf.finished_ne_of_mem hx hf, hf⟩) (fun id hn => ⟨?_, hn⟩)
  · rcases hwf.mem_queue_reduce hx hy with ⟨hne, hy⟩ | ⟨rfl, rfl⟩
    · exact Or.inl ⟨hne, hy⟩
    · right
      rw [sub_sub_cancel, hevents, l.account_append]
      exact hl.reduce (h.resting _ x hx) hpos hle
  · rintro rfl
    exact hwf.owned (List.mem_append_right _ (Market.mem_liveIds_of_queue hx)) hn

/-- A stop that is placed. -/
theorem Holds.placeStop {stop : StopOrder} {seen : OrderId → Bool} (h : l.Holds m) (hl : l.Rules C)
    (hwf : ({ m with stops := m.stops ++ [stop], stopIdsSeen := seen }.emit
      (stop.event .stopAccepted now)).Wf [])
    (hlive : stop.id ∉ m.liveIds) (hown : m.ownerOf stop.id = none)
    (hvalid : Session.validateStopFields stop = .none) :
    l.Holds ({ m with stops := m.stops ++ [stop], stopIdsSeen := seen }.emit
      (stop.event .stopAccepted now)) := by
  set m' := { m with stops := m.stops ++ [stop], stopIdsSeen := seen }.emit
    (stop.event .stopAccepted now) with hm'
  have hevents : m'.events = m.events ++ [(stop.event .stopAccepted now).numbered m.nextSeq] := rfl
  have hmem : stop.id ∈ m'.liveIds := by
    refine List.mem_append_right _ (List.mem_map_of_mem (List.mem_append_right _ ?_))
    exact List.mem_append_right _ (List.mem_singleton_self _)
  refine h.update hl (fun id => id = stop.id) _ hevents
    (fun id ht => eq_of_names (by simp [StopOrder.event]) ht) (fun side x hx => ?_) (fun s hs => ?_)
    (fun id how hf => ?_) (fun id hn => ⟨?_, ?_⟩)
  · have hx : x ∈ m.queue side := by cases side <;> exact hx
    refine Or.inl ⟨fun hid => hlive ?_, hx⟩
    rw [← hid]
    exact Market.mem_liveIds_of_queue hx
  · have hs : s ∈ m.fifo ++ (m.stops ++ [stop]) := hs
    rw [← List.append_assoc] at hs
    rcases List.mem_append.mp hs with hs | hs
    · refine Or.inl ⟨fun hid => hlive ?_, hs⟩
      rw [← hid]
      exact List.mem_append_right _ (List.mem_map_of_mem hs)
    · right
      -- The id is new, so its account opens with this event.
      rw [List.mem_singleton.mp hs, hevents, l.account_append, h.unknown _ hown]
      exact hl.placeStop hvalid
  · refine Or.inl ⟨?_, hf⟩
    rintro rfl
    rw [hwf.ids.unfinished _ (List.mem_append_right _ hmem)] at hf
    cases hf
  · rintro rfl
    exact hwf.owned (List.mem_append_right _ hmem) hn
  · exact Market.ownerOf_emit_eq_none (s := { m.toSession with stopIdsSeen := seen }) hn

/-- A dormant stop that is modified. -/
theorem Holds.modifyStop {old updated : StopOrder} (h : l.Holds m) (hl : l.Rules C) (hwf : m.Wf [])
    (hold : old ∈ m.stops) (hid : updated.id = old.id) (howner : updated.ownerId = old.ownerId)
    (hside : updated.side = old.side) (hvalid : Session.validateStopFields updated = .none) :
    l.Holds ({ m with stops := Market.replaceStop m.stops old updated }.emit
      (updated.event .stopModified now)) := by
  set m' := { m with stops := Market.replaceStop m.stops old updated }.emit
    (updated.event .stopModified now) with hm'
  have hevents : m'.events = m.events ++ [(updated.event .stopModified now).numbered m.nextSeq] := rfl
  have hmem : old.id ∈ m.liveIds :=
    List.mem_append_right _ (List.mem_map_of_mem (List.mem_append_right _ hold))
  have hperm : (Market.replaceStop m.stops old updated).Perm _ :=
    Market.Wf.replaceStop_perm hwf.nodup_stops hold
  refine h.update hl (fun id => id = old.id) _ hevents
    (fun id ht => (eq_of_names (by simp [StopOrder.event]) ht).trans hid) (fun side x hx => ?_)
    (fun s hs => ?_) (fun id how hf => ?_) (fun id hn => ⟨?_, hn⟩)
  · have hx : x ∈ m.queue side := by cases side <;> exact hx
    exact Or.inl ⟨fun he => hwf.stop_ne_of_mem hx (List.mem_append_right _ hold) he.symm, hx⟩
  -- The modified stop has the old one's id, and takes over its account.
  · have hmine : s = updated → l.Dormant s (l.account s.id m'.events) := by
      rintro rfl
      rw [hevents, l.account_append, hid]
      exact hl.modifyStop (h.dormant old (List.mem_append_right _ hold)) hid howner hside hvalid
    rcases List.mem_append.mp hs with hs | hs
    · refine Or.inl ⟨fun he => ?_, List.mem_append_left _ hs⟩
      have hnd := (List.nodup_append.mp hwf.ids.nodup).2.1
      rw [Market.liveIds, List.map_append] at hnd
      have hapart := (List.nodup_append.mp (List.nodup_append.mp hnd).2.1).2.2
      exact hapart _ (List.mem_map_of_mem hs) _ (List.mem_map_of_mem hold) he
    · rcases List.mem_cons.mp (hperm.mem_iff.mp hs) with rfl | hs
      · exact Or.inr (hmine rfl)
      · exact Or.inl ⟨by simpa using List.of_mem_filter hs,
          List.mem_append_right _ (List.mem_of_mem_filter hs)⟩
  · refine Or.inl ⟨?_, hf⟩
    rintro rfl
    have hf : m.finishedOrders old.id = some how := hf
    rw [hwf.ids.unfinished _ (List.mem_append_right _ hmem)] at hf
    cases hf
  · rintro rfl
    exact hwf.owned (List.mem_append_right _ hmem) hn

/-! ## Steps and calls -/

/-- **The step lemma of ledgers.** -/
theorem At.step (hl : l.Rules C) (hstep : Market.Step now s s') (hwf : s.Wf) (h : l.At s) :
    l.At s' := by
  have hwf' := hwf.step hstep
  cases hstep with
  | reenter => exact h.1.accept hl hwf'.1 fun _ => hl.reenter h.2 hwf.2.2
  | trade meets band => exact h.1.trade hl hwf.1 meets h.2
  | @halt w x xs meets band =>
    obtain ⟨e, hk, hevents⟩ := w.events_halt x now
    have ht : ∀ id, ¬ Names id e := fun id => by simp [Names, hk]
    refine ⟨h.1.note hl e ht hevents (fun side => Market.queue_withSession ..) (fun _ hs => hs) rfl rfl,
      ?_⟩
    rw [hevents, l.account_append, hl.quiet (ht _)]
    exact h.2
  | limit meets band => exact h
  | filled quantity => exact h.1.markFilled (hl.filled h.2 quantity)
  | rest quantity type runOut room =>
    exact h.1.rest hl hwf.1 room fun _ => hl.rest h.2 type hwf.2.2.1 quantity
  | expire quantity =>
    exact h.1.close hl hwf.1 (Or.inr (Or.inr rfl)) fun _ => hl.expire h.2
  | @restAtBandEdge w _ type valid room =>
    have hwf₀ : w.market.Wf [(w.market.atBandEdge w.incoming).id] := hwf.1
    exact h.1.rest hl hwf₀ room fun _ => hl.restAtBandEdge h.2 type hwf.2.1 hwf.2.2.1
  | expireStopped =>
    exact h.1.close hl hwf.1 (Or.inr (Or.inr rfl)) fun _ => hl.expire h.2
  | finish => exact h
  | @absorb m trades _ last last_eq =>
    -- The trades have been logged when they printed.
    have hsession := Market.toSession_absorb m trades last
    have hevents := Market.events_absorb m trades last
    have hfin : (m.absorb trades last).finishedOrders = m.finishedOrders := by
      rw [hsession]
      rfl
    have hown : (m.absorb trades last).ownerOf = m.ownerOf := by
      rw [hsession]
      rfl
    refine Holds.silent h hevents (fun side x hx => ?_) (fun stop hs => ?_) hfin hown
    · rwa [Market.queue_absorb] at hx
    · exact Market.mem_stops_absorb.mp hs
  | @fire m stop rest fifo halted =>
    -- The account of a dormant stop is handed to the order that it fires.
    have hmem : stop ∈ m.fifo ++ m.stops := by
      rw [fifo]
      exact List.mem_cons_self
    have hid : stop.id ∈ [stop.firedOrder.id] := by simp
    have hevents : ({ m with fifo := rest }.emit (stop.event .stopTriggered now)).events =
        m.events ++ [(stop.event .stopTriggered now).numbered m.nextSeq] := rfl
    refine ⟨Holds.update h hl (fun id => id = stop.id) _ hevents
      (fun id ht => eq_of_names (by simp [StopOrder.event]) ht) (fun side x hx => ?_) (fun s hs => ?_)
      (fun id how hf => Or.inl ⟨hwf'.1.finished_ne hid hf, hf⟩) (fun id hn => ⟨?_, hn⟩), ?_⟩
    · exact Or.inl ⟨hwf'.1.queue_ne hid hx, by cases side <;> exact hx⟩
    · refine Or.inl ⟨hwf'.1.stop_ne hid hs, ?_⟩
      rw [fifo]
      exact List.mem_cons_of_mem _ hs
    · rintro rfl
      exact hwf'.1.owned (List.mem_append_left _ hid) hn
    · rw [Market.firedOrder_id, hevents, l.account_append]
      exact hl.fire (Holds.dormant h stop hmem)
  | sendBack halted =>
    exact Holds.silent h rfl (fun side x hx => by cases side <;> exact hx) (fun _ hs => hs) rfl rfl

/-- A resting order that is cancelled. -/
theorem Holds.cancel {id : OrderId} {order : Order} (h : l.Holds m) (hl : l.Rules C) (hwf : m.Wf [])
    (found : m.restingOrder? id = some order) :
    l.Holds ((m.emit (order.event .cancelled now)).remove order.id) := by
  obtain ⟨side, x, hx, rfl, rfl⟩ := Market.mem_of_restingOrder? found
  show l.Holds ((m.remove x.orderId).emit ((x.toOrder side).event .cancelled now))
  refine (h.remove x.orderId).close hl (hwf.remove hx) (Or.inl rfl) fun n => ?_
  exact hl.cancel (h.resting side x hx)

/-- **The action lemma of ledgers.** -/
theorem At.act {c : Call} (hl : l.Rules C) (hact : Market.Acts m c s) (hc : C c) (hwf : m.Wf [])
    (hfifo : m.fifo = []) (h : l.Holds m) : l.At s := by
  have hs := hwf.act hfifo hact
  have hrejected : ∀ e : EngineEvent, e.kind = .rejected → l.Holds (m.emit e) := fun e hk =>
    h.note hl (e.numbered m.nextSeq) (fun id => by simp [Names, hk]) rfl
      (fun side => Market.queue_emit ..) (fun _ hs => hs) (if_neg (by simp [hk]))
      (if_neg (by simp [hk]))
  -- An id that is not in use has no owner, so the ledger knows nothing of it.
  have hunowned : ∀ id, m.idInUse id = false → id ∉ m.liveIds ∧ m.ownerOf id = none := fun id hid => by
    obtain ⟨hlive, hfin⟩ := Market.notMem_of_idInUse hfifo hid
    exact ⟨hlive, hwf.ids.owner_eq_none hlive hfin⟩
  cases hact with
  | refuse kind => exact h
  | reject => exact hrejected _ rfl
  | @submit order now fresh halted valid =>
    refine h.accept hl hs.1 fun n => ?_
    rw [h.unknown _ (hunowned _ fresh).2]
    exact hl.submit hc valid
  | cancel found => exact h.cancel hl hwf found
  | withdraw found => exact h.cancel hl hwf found
  | reduce found pos le =>
    obtain ⟨side, x, hx, rfl, rfl⟩ := Market.mem_of_restingOrder? found
    exact h.reduce hl hwf hx pos le
  -- The order leaves its queue and is in flight again, under its own id.
  | @replace _ _ order price quantity now halted found change valid =>
    obtain ⟨side, x, hx, rfl, rfl⟩ := Market.mem_of_restingOrder? found
    have hid : x.orderId ∈ [x.orderId] := List.mem_singleton_self _
    have hevents : ((m.emit ((x.toOrder side).event .replaced now)).remove x.orderId).events =
        m.events ++ [((x.toOrder side).event .replaced now).numbered m.nextSeq] := rfl
    refine ⟨h.update hl (fun id => id = x.orderId) _ hevents
      (fun id ht => eq_of_names (by simp [Order.event]) ht) (fun side' y hy => ?_)
      (fun s hmem => Or.inl ⟨hs.1.stop_ne hid hmem, hmem⟩)
      (fun id how hf => Or.inl ⟨hs.1.finished_ne hid hf, hf⟩) (fun id hn => ⟨?_, hn⟩), ?_⟩
    · refine Or.inl ⟨hs.1.queue_ne hid hy, ?_⟩
      have hy : y ∈ ((m.emit ((x.toOrder side).event .replaced now)).remove x.orderId).queue side' := hy
      rw [Market.queue_remove, Market.queue_emit] at hy
      exact List.mem_of_mem_filter hy
    · rintro rfl
      exact hs.1.owned (List.mem_append_left _ hid) hn
    · show l.Flying _ (l.account x.orderId
        (m.events ++ [((x.toOrder side).event .replaced now).numbered m.nextSeq]))
      rw [l.account_append]
      exact hl.replace (h.resting side x hx) (Market.priced_of_valid valid).2
  | rejectStop => exact hrejected _ rfl
  | placeStop fresh valid ahead =>
    exact h.placeStop hl hs (hunowned _ fresh).1 (hunowned _ fresh).2 valid
  | @cancelStop _ _ stop _ found =>
    have hmem := (Market.stop?_spec found).1
    -- Without the stop the ledger holds as before; its event then closes the account.
    have hrest : l.Holds { m with stops := m.stops.filter fun s => s.id ≠ stop.id } := by
      refine h.silent rfl (fun side x hx => by cases side <;> exact hx) (fun s hs => ?_) rfl rfl
      rcases List.mem_append.mp hs with hs | hs
      · exact List.mem_append_left _ hs
      · exact List.mem_append_right _ (List.mem_of_mem_filter hs)
    exact hrest.close hl (hwf.cancelStop hmem) (Or.inr (Or.inl rfl)) fun n =>
      hl.cancelStop (h.dormant stop (List.mem_append_right _ hmem))
  | modifyStop found valid ahead =>
    exact h.modifyStop hl hwf (Market.stop?_spec found).1 rfl rfl rfl valid

/-- A fresh market has nothing to state. -/
theorem holds_make (cfg : Config) : l.Holds (Market.make cfg) :=
  ⟨fun side x hx => (by cases side <;> cases hx), fun stop hs => (by cases hs),
    fun id how h => (by cases h), fun _ _ => rfl⟩

/-- Lifting a halt names no id. -/
theorem Holds.resume (h : l.Holds m) (hl : l.Rules C) (now : ℤ) : l.Holds (m.resume now) :=
  h.note hl _ (fun _ ht => by exact ht) rfl (fun side => by cases side <;> rfl) (fun _ hs => hs) rfl rfl

/-- **Ledgers.** With its rules, a ledger's statements hold at every stage of every run. -/
theorem Rules.invariant (hl : l.Rules C) : Market.CallInvariant C l.At where
  resume _ _ _ h := Holds.resume h hl _
  act hc hwf hfifo hact h := At.act hl hact hc hwf hfifo h
  step hwf hstep h := h.step hl hstep hwf

/-- The statements of a ledger hold after every run. -/
theorem Rules.run (hl : l.Rules C) (cfg : Config) (calls : List Call) (hC : ∀ c ∈ calls, C c) :
    l.Holds ((Market.make cfg).run calls) :=
  (hl.invariant.run calls hC (Market.wf_make cfg) rfl (holds_make cfg)).1

end Ledger

end OrderBookEngine
