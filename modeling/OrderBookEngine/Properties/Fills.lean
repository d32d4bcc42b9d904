import OrderBookEngine.Market.Answers
import OrderBookEngine.Market.Ledger
import OrderBookEngine.Market.Trades
import OrderBookEngine.Properties.Outcomes
import OrderBookEngine.Properties.Ownership

/-!
# An order is never overfilled

The filled count of an order is the sum of the trades that name it (`fills`), and what is filled and
what is left make up the total size that was last accepted for its id (`Sized`). A call gives one id a
new size, at most; every step of the engine keeps the sizes (`Tallied.step`). So an order never trades
more than its size, or what had traded already when a `modify_order` made it smaller.
-/

namespace OrderBookEngine

/-- What an event adds to the trades of an id. -/
def tradedBy (id : OrderId) (e : EngineEvent) : ℤ :=
  if e.kind = .trade ∧ (e.orderId = id ∨ e.passiveId = id) then e.quantity else 0

/-- The quantity of all trades that name an id, as aggressor or passive. -/
def tradedOf (id : OrderId) (events : List EngineEvent) : ℤ := (events.map (tradedBy id)).sum

/-- Only a trade trades. -/
theorem tradedBy_of_kind {id : OrderId} {e : EngineEvent} (h : e.kind ≠ .trade) :
    tradedBy id e = 0 := by
  unfold tradedBy
  rw [if_neg fun ht => h ht.1]

/-- The traded quantities of two streams add up. -/
theorem tradedOf_append (id : OrderId) (events es : List EngineEvent) :
    tradedOf id (events ++ es) = tradedOf id events + tradedOf id es := by
  unfold tradedOf
  rw [List.map_append, List.sum_append]

/-- One more event adds what it trades. -/
theorem tradedOf_concat (id : OrderId) (events : List EngineEvent) (e : EngineEvent) :
    tradedOf id (events ++ [e]) = tradedOf id events + tradedBy id e := by
  rw [tradedOf_append]
  simp [tradedOf]

/-- A stream without trades trades nothing. -/
theorem tradedOf_eq_zero {id : OrderId} {es : List EngineEvent} (h : ∀ e ∈ es, e.kind ≠ .trade) :
    tradedOf id es = 0 :=
  List.sum_eq_zero fun _ hx => by
    obtain ⟨e, he, rfl⟩ := List.mem_map.mp hx
    exact tradedBy_of_kind (h e he)

/-- A submitted order has not been filled. -/
def Call.Unfilled (c : Call) : Prop := ∀ order now, c = .addOrder order now → order.filled = 0

/-- The filled count of an order is what has traded. -/
def fills : Ledger ℤ where
  init := 0
  after id traded e := traded + tradedBy id e
  Resting _ x traded := x.filled = traded
  Dormant _ traded := traded = 0
  Flying order traded := order.filled = traded
  Walking order traded := order.filled = traded
  Closed _ _ := True

/-- The account of an id is what it has traded. -/
theorem fills_account (id : OrderId) (events : List EngineEvent) :
    fills.account id events = tradedOf id events := by
  induction events using List.reverseRecOn with
  | nil => rfl
  | append_singleton events e ih =>
    rw [fills.account_append, ih, tradedOf_concat]
    rfl

/-- An event that is no trade leaves what is filled. -/
theorem fills_after {id : OrderId} {traded filled : ℤ} {e : EngineEvent} (hk : e.kind ≠ .trade)
    (h : filled = traded) : filled = fills.after id traded e := by
  show filled = traded + tradedBy id e
  rw [tradedBy_of_kind hk, h, Int.add_zero]

/-- A trade adds its quantity to the trades of both orders. -/
theorem fills_trade {id : OrderId} {traded filled quantity : ℤ} {e : EngineEvent}
    (hk : e.kind = .trade) (hid : e.orderId = id ∨ e.passiveId = id) (hq : e.quantity = quantity)
    (h : filled = traded) : filled + quantity = fills.after id traded e := by
  show filled + quantity = traded + tradedBy id e
  rw [tradedBy, if_pos ⟨hk, hid⟩, h, hq]

/-- Every step of a call keeps the account of fills. -/
theorem fills_rules : fills.Rules Call.Unfilled where
  quiet {id a e} h := by
    -- Only a trade counts, and it names both its orders.
    have hzero : tradedBy id e = 0 := by
      unfold tradedBy
      rw [if_neg]
      rintro ⟨hk, hid⟩
      exact h (by simpa [Names, hk] using hid)
    show a + tradedBy id e = a
    rw [hzero, Int.add_zero]
  submit {order now _} hC _ := fills_after (by simp [Order.event]) (hC order now rfl)
  reenter h _ := fills_after (by simp [Order.event]) h
  aggressor _ _ h := fills_trade rfl (Or.inl rfl) rfl h
  passive _ _ h _ := fills_trade rfl (Or.inr rfl) rfl h
  exhaust _ _ _ _ := trivial
  filled _ _ := trivial
  expire _ := trivial
  rest h _ _ _ := fills_after (by simp [Order.event]) h
  restAtBandEdge {s order _ _ _} h _ _ _ := by
    have hfilled : (s.atBandEdge order).resting.filled = order.filled := by
      unfold Session.atBandEdge Order.resting
      cases order.side <;> rfl
    exact fills_after (by simp [Order.event]) (hfilled.trans h)
  fire {stop _ _ _} h := by
    have hfilled : stop.firedOrder.filled = 0 := by
      unfold StopOrder.firedOrder
      cases stop.limitPrice <;> rfl
    exact fills_after (by simp [StopOrder.event]) (hfilled.trans h.symm)
  cancel _ := trivial
  reduce h _ _ := fills_after (by simp [Order.event]) h
  replace h _ := fills_after (by simp [Order.event]) h
  placeStop _ := (fills_after (by simp [StopOrder.event]) rfl).symm
  cancelStop _ := trivial
  modifyStop h _ _ _ _ := (fills_after (by simp [StopOrder.event]) h.symm).symm

/-- A dormant stop has never been accepted as an order. -/
def entered : Ledger Bool where
  init := false
  after id seen e := seen || (e.kind = .accepted && e.orderId = id)
  Resting _ _ seen := seen = true
  Dormant _ seen := seen = false
  Flying _ _ := True
  Walking _ seen := seen = true
  Closed _ _ := True

/-- An order that has entered stays so. -/
theorem entered_after {id : OrderId} {seen : Bool} {e : EngineEvent} (h : seen = true) :
    entered.after id seen e = true := by
  show (seen || _) = true
  rw [h, Bool.true_or]

/-- An acceptance enters its order. -/
theorem entered_accept {id : OrderId} {seen : Bool} {order : Order} {now : ℤ} {n : ℕ}
    (h : order.id = id) : entered.after id seen ((order.event .accepted now).numbered n) = true := by
  show (seen || _) = true
  simp [Order.event, h]

/-- Only an acceptance enters an order. -/
theorem entered_stop {id : OrderId} {seen : Bool} {e : EngineEvent} (hk : e.kind ≠ .accepted)
    (h : seen = false) : entered.after id seen e = false := by
  show (seen || _) = false
  simp [hk, h]

/-- Every step of a call keeps the account of entries. -/
theorem entered_rules : entered.Rules fun _ => True where
  quiet {id a e} h := by
    have hnot : (decide (e.kind = .accepted) && decide (e.orderId = id)) = false := by
      unfold Names at h
      cases hk : e.kind <;> simp_all
    show (a || _) = a
    rw [hnot, Bool.or_false]
  submit _ _ := entered_accept rfl
  reenter _ _ := entered_accept rfl
  aggressor _ _ h := entered_after h
  passive _ _ h _ := entered_after h
  exhaust _ _ _ _ := trivial
  filled _ _ := trivial
  expire _ := trivial
  rest h _ _ _ := entered_after h
  restAtBandEdge h _ _ _ := entered_after h
  fire _ := trivial
  cancel _ := trivial
  reduce h _ _ := entered_after h
  replace _ _ := trivial
  placeStop _ := entered_stop (by simp [StopOrder.event]) rfl
  cancelStop _ := trivial
  modifyStop h _ _ _ _ := entered_stop (by simp [StopOrder.event]) h

namespace Market

variable {m m' : Market} {now : ℤ} {s s' : Stage} {size : OrderId → Option ℤ}

/-! ## What is filled and what is left -/

/-- What is filled and what is left of every order is the size of its id. -/
structure Sized (size : OrderId → Option ℤ) (m : Market) : Prop where
  /-- A resting order and what is filled of it make up its size. -/
  resting : ∀ side, ∀ x ∈ m.queue side, size x.orderId = some (x.filled + x.quantity)
  /-- A dormant stop has its whole size. -/
  stops : ∀ stop ∈ m.fifo ++ m.stops, size stop.id = some stop.quantity

/-- Likewise at a stage, for the order in flight. -/
def SizedAt (size : OrderId → Option ℤ) : Stage → Prop
  | .idle m | .settled m _ _ => Sized size m
  | .entering m order => Sized size m ∧ size order.id = some (order.filled + order.quantity)
  | .walking w | .stopped w =>
    Sized size w.market ∧ size w.incoming.id = some (w.incoming.filled + w.incoming.quantity)

/-- Orders and stops may leave. -/
theorem Sized.mono (h : Sized size m) (hqueue : ∀ side, ∀ x ∈ m'.queue side, x ∈ m.queue side)
    (hstops : ∀ stop ∈ m'.fifo ++ m'.stops, stop ∈ m.fifo ++ m.stops) : Sized size m' :=
  ⟨fun side x hx => h.resting side x (hqueue side x hx), fun stop hs => h.stops stop (hstops stop hs)⟩

/-- Another session has the same orders. -/
theorem Sized.withSession (h : Sized size m) (session : Session) :
    Sized size { m with toSession := session } :=
  h.mono (fun side _ hx => by cases side <;> exact hx) fun _ hs => hs

/-- An order that comes to rest does so with its size. -/
theorem Sized.rest {order : Order} (h : Sized size m) (hr : m.restOrder order now = some m')
    (horder : size order.id = some (order.filled + order.quantity)) : Sized size m' := by
  obtain ⟨hstops, hfifo⟩ := restOrder_stops hr
  refine ⟨fun side x hx => ?_, fun stop hs => ?_⟩
  · rcases mem_queue_restOrder hr hx with hx | ⟨-, rfl⟩
    · exact h.resting side x hx
    · exact horder
  · rw [hstops, hfifo] at hs
    exact h.stops stop hs

/-- The band edge changes the price of an order, and nothing else. -/
theorem atBandEdge_eq (session : Session) (order : Order) :
    ∃ price, session.atBandEdge order = { order with price } := by
  unfold Session.atBandEdge
  cases order.side <;> exact ⟨_, rfl⟩

/-- Every step of the engine keeps the sizes. -/
theorem SizedAt.step (hstep : Step now s s') (hwf : s.Wf) (h : SizedAt size s) : SizedAt size s' := by
  cases hstep with
  | reenter => exact ⟨h.1.withSession _, h.2⟩
  | @trade w x xs outside breach meets band =>
    have hx : x ∈ w.market.queue w.incoming.side.opposite := by
      rw [meets.queue]
      exact List.mem_cons_self
    obtain ⟨hstops, hfifo⟩ := w.stops_trade now x xs outside breach
    refine ⟨⟨fun side y hy => ?_, fun stop hs => ?_⟩, ?_⟩
    -- The sum of the filled and the open quantity is the same before the trade and after it.
    · rcases hwf.1.mem_queue_trade meets.queue hy with ⟨hy, -⟩ | ⟨-, rfl, -⟩
      · exact h.1.resting side y hy
      · rw [h.1.resting _ x hx]
        simp only [Option.some.injEq]
        omega
    · rw [hstops, hfifo] at hs
      exact h.1.stops stop hs
    · show size w.incoming.id = some _
      rw [h.2]
      simp only [Walk.trade, Option.some.injEq]
      omega
  | halt meets band => exact ⟨h.1.withSession _, h.2⟩
  | limit meets band => exact h
  | filled quantity => exact h.1.withSession _
  | rest quantity type runOut room => exact h.1.rest room h.2
  | expire quantity => exact h.1.withSession _
  | @restAtBandEdge w _ type valid room =>
    obtain ⟨price, hedge⟩ := atBandEdge_eq w.market.toSession w.incoming
    rw [hedge] at room
    exact h.1.rest room h.2
  | expireStopped => exact h.1.withSession _
  | finish => exact h
  | @absorb m trades _ last last_eq =>
    refine Sized.mono (m := m) h (fun side x hx => ?_) fun stop hs => mem_stops_absorb.mp hs
    rwa [queue_absorb] at hx
  | @fire m stop rest fifo halted =>
    have hmem : ∀ s, s ∈ stop :: rest ++ m.stops → s ∈ m.fifo ++ m.stops := fun s hs => by rwa [fifo]
    refine ⟨h.mono (fun side x hx => by cases side <;> exact hx) fun s hs =>
      hmem s (List.mem_cons_of_mem _ hs), ?_⟩
    have hstop := h.stops stop (hmem stop (List.mem_append_left _ List.mem_cons_self))
    -- A stop that fires has filled nothing, so its order is of the size of the stop.
    obtain ⟨hid, hfilled, hquantity⟩ : stop.firedOrder.id = stop.id ∧ stop.firedOrder.filled = 0 ∧
        stop.firedOrder.quantity = stop.quantity := by
      unfold StopOrder.firedOrder
      cases stop.limitPrice <;> exact ⟨rfl, rfl, rfl⟩
    rw [hid, hfilled, hquantity, hstop, Int.zero_add]
  | sendBack halted =>
    exact h.mono (fun side x hx => by cases side <;> exact hx) fun s hs => by simpa [sendBack] using hs

/-- The sizes and the fills of a stage. -/
structure Tallied (size : OrderId → Option ℤ) (s : Stage) : Prop where
  /-- The stage is well formed. -/
  wf : s.Wf
  /-- The orders have their sizes. -/
  sized : SizedAt size s
  /-- What is filled is what was traded. -/
  filled : fills.At s

/-- One step keeps the tally. -/
theorem Tallied.step (hstep : Step now s s') (h : Tallied size s) : Tallied size s' :=
  ⟨h.wf.step hstep, h.sized.step hstep h.wf, fills_rules.invariant.step h.wf hstep h.filled⟩

/-- An id has not traded more than its size, or than what it had traded at some time. -/
def Capped (size : OrderId → Option ℤ) (id : OrderId) (base : ℤ) (s : Stage) : Prop :=
  tradedOf id s.market.events ≤ max ((size id).getD 0) base

/-- No order trades past its size. -/
theorem Capped.step {id : OrderId} {base : ℤ} (hstep : Step now s s') (ht : Tallied size s)
    (h : Capped size id base s) : Capped size id base s' := by
  unfold Capped
  rcases hstep.prints with ⟨es, hes, hkinds⟩ | ⟨w, x, xs, outside, breach, rfl, rfl, hmeets, -⟩
  · rw [hes, tradedOf_append, tradedOf_eq_zero hkinds, Int.add_zero]
    exact h
  have hx : x ∈ w.market.queue w.incoming.side.opposite := by
    rw [hmeets.queue]
    exact List.mem_cons_self
  have hincoming : w.incoming.filled = tradedOf w.incoming.id w.market.events := by
    rw [← fills_account]
    exact ht.filled.2
  have hpassive : x.filled = tradedOf x.orderId w.market.events := by
    rw [← fills_account]
    exact ht.filled.1.resting _ x hx
  show tradedOf id (w.trade now x xs outside breach).market.events ≤ _
  rw [w.events_trade, tradedOf_concat]
  -- A trade is no larger than what is left of either order.
  by_cases hid : id = w.incoming.id ∨ id = x.orderId
  · have hq : tradedBy id ((tradeEvent (w.nextTrade now x)).numbered w.market.nextSeq) =
        min w.incoming.quantity x.quantity := if_pos ⟨rfl, hid.imp Eq.symm Eq.symm⟩
    rw [hq]
    rcases hid with rfl | rfl
    · rw [show size w.incoming.id = _ from ht.sized.2, ← hincoming, Option.getD_some]
      omega
    · rw [ht.sized.1.resting _ x hx, ← hpassive, Option.getD_some]
      omega
  · have hq : tradedBy id ((tradeEvent (w.nextTrade now x)).numbered w.market.nextSeq) = 0 :=
      if_neg fun ht => hid (ht.2.imp Eq.symm Eq.symm)
    rw [hq, Int.add_zero]
    exact h

/-- So do the steps of a call, and no id trades more than it may. -/
theorem Tallied.steps (hs : Steps now s s') (ht : Tallied size s) :
    Tallied size s' ∧ ∀ id base, Capped size id base s → Capped size id base s' :=
  hs.invariant (I := fun s' => Tallied size s' ∧ ∀ id base, Capped size id base s → Capped size id base s')
    (fun hstep h => ⟨h.1.step hstep, fun id base hc => (h.2 id base hc).step hstep h.1⟩)
    ⟨ht, fun _ _ hc => hc⟩

/-! ## The size that a call accepts -/

/-- The total size that a call accepts for its id. A `modify_order` that meets an order of its owner is
answered with `SelfTrade`, but it has replaced the order. -/
def accepts (m : Market) : Call → Option ℤ
  | .addOrder order now => if (m.admitted order now).isSome then some order.quantity else none
  | .modifyOrder id requester price quantity now =>
    if (m.modifyOrder id requester price quantity now).2.rejectReason ∈
      [RejectReason.none, .selfTrade] then some quantity else none
  | .placeStopOrder stop now =>
    if (m.placeStopOrder stop now).2 = .none then some stop.quantity else none
  | .modifyStopOrder id requester stopPrice limitPrice quantity now =>
    if (m.modifyStopOrder id requester stopPrice limitPrice quantity now).2 = .none then some quantity
    else none
  | .cancelOrder _ _ _ | .cancelStopOrder _ _ _ => none

/-- The sizes, with a new one for an id. -/
def resize (size : OrderId → Option ℤ) (id : OrderId) : Option ℤ → OrderId → Option ℤ
  | none => size
  | some quantity => Function.update size id (some quantity)

/-- Only one id is resized. -/
theorem resize_of_ne {id i : OrderId} (h : i ≠ id) (accepted : Option ℤ) :
    resize size id accepted i = size i := by
  cases accepted with
  | none => rfl
  | some quantity => exact Function.update_of_ne h _ _

/-- An id that no order of the market has may change its size. -/
theorem Sized.resize {id : OrderId} (h : Sized size m)
    (hqueue : ∀ side, ∀ x ∈ m'.queue side, x.orderId ≠ id ∧ x ∈ m.queue side)
    (hstops : ∀ stop ∈ m'.fifo ++ m'.stops, stop.id ≠ id ∧ stop ∈ m.fifo ++ m.stops)
    (accepted : Option ℤ) : Sized (resize size id accepted) m' := by
  refine ⟨fun side x hx => ?_, fun stop hs => ?_⟩
  · obtain ⟨hne, hx⟩ := hqueue side x hx
    rw [resize_of_ne hne]
    exact h.resting side x hx
  · obtain ⟨hne, hs⟩ := hstops stop hs
    rw [resize_of_ne hne]
    exact h.stops stop hs

/-- How a call begins: it acts, with the new size of its id, and the engine's steps end it. -/
def Resizes (size : OrderId → Option ℤ) (m : Market) (c : Call) : Prop :=
  ∃ m₀ s, Resumes c.now m m₀ ∧ Acts m₀ c s ∧ Steps c.now s (.idle (m.call c)) ∧
    SizedAt (resize size c.id (m.accepts c)) s

/-- A halt that is lifted changes no size. -/
theorem Sized.resumes {m₀ : Market} (h : Sized size m) (hr : Resumes now m m₀) : Sized size m₀ := by
  rcases hr with rfl | ⟨-, -, rfl⟩
  · exact h
  · exact h.mono (fun side _ hx => by cases side <;> exact hx) fun _ hs => hs

/-- The orders and stops that a fresh id is not one of. -/
theorem Sized.fresh {id : OrderId} (h : Sized size m) (hfifo : m.fifo = [])
    (hfresh : m.idInUse id = false) (session : Session) (accepted : Option ℤ) :
    Sized (Market.resize size id accepted) { m with toSession := session } := by
  have hout := (notMem_of_idInUse hfifo hfresh).1
  refine h.resize (fun side x hx => ?_) (fun stop hs => ?_) accepted
  · rw [queue_withSession] at hx
    exact ⟨fun hid => hout (hid ▸ mem_liveIds_of_queue hx), hx⟩
  · refine ⟨?_, hs⟩
    rintro rfl
    exact hout (List.mem_append_right _ (List.mem_map_of_mem hs))

/-- `add_order` gives its id the size of the order. -/
theorem addOrder_resizes (h : Sized size m) (hwf : m.Wf []) (hfifo : m.fifo = []) (order : Order)
    (now : ℤ) (hfilled : order.filled = 0) : Resizes size m (.addOrder order now) := by
  cases hadm : m.admitted order now with
  | none =>
    have haccepts : m.accepts (.addOrder order now) = none := by
      rw [accepts, hadm]
      rfl
    obtain ⟨why, -, heq⟩ := enterWith_of_refused triggerStops hadm true
    obtain ⟨hresumes, -⟩ := resumes_validateNewOrder m order now
    refine ⟨_, _, hresumes, @Acts.reject _ _ why _, ?_, ?_⟩
    · rw [call, addOrder, enter, heq]
      exact .refl
    · rw [haccepts]
      exact h.withSession _
  | some m' =>
    have haccepts : m.accepts (.addOrder order now) = some order.quantity := by
      rw [accepts, hadm]
      rfl
    -- The halt may be lifted first; from there the order is submitted and the walk takes its steps.
    obtain ⟨m₀, hresumes, hid, hhalt, hvalid, rfl⟩ := admitted_eq_some hadm
    have hfifo₀ := hresumes.fifo.trans hfifo
    have hact : Acts m₀ (.addOrder order now) _ := .submit hid hhalt hvalid
    have hstart := (hwf.resumes hresumes).act hfifo₀ hact
    obtain ⟨hsteps, -⟩ := enter_carried (carried_steps hstart) hadm Relation.ReflTransGen.refl
      (carries_steps hstart _) true
    refine ⟨m₀, _, hresumes, hact, hsteps, ?_⟩
    rw [haccepts]
    refine ⟨(h.resumes hresumes).fresh hfifo₀ hid _ _, ?_⟩
    show Function.update size order.id (some order.quantity) order.id =
      some (order.filled + order.quantity)
    rw [Function.update_self, hfilled, Int.zero_add]

/-- `place_stop_order` gives its id the size of the stop. -/
theorem placeStopOrder_resizes (h : Sized size m) (hfifo : m.fifo = []) (stop : StopOrder) (now : ℤ) :
    Resizes size m (.placeStopOrder stop now) := by
  refine ⟨m, _, Or.inl rfl, placeStopOrder_acts m stop now, .refl, ?_⟩
  rcases placeStopOrder_cases m stop now with ⟨why, hwhy, heq⟩ | ⟨hfresh, -, -, heq⟩
  · rw [accepts, heq, if_neg hwhy]
    exact h.withSession _
  · rw [accepts, heq, if_pos rfl]
    have hold := h.fresh hfifo hfresh m.toSession (some stop.quantity)
    refine ⟨fun side x hx => hold.resting side x (by cases side <;> exact hx), fun s hs => ?_⟩
    have hs : s ∈ (m.fifo ++ m.stops) ++ [stop] := by
      rw [List.append_assoc]
      exact hs
    rcases List.mem_append.mp hs with hs | hs
    · exact hold.stops s hs
    · rw [List.mem_singleton.mp hs]
      exact Function.update_self ..

/-- `modify_stop_order` gives its id the new size, if it is accepted. -/
theorem modifyStopOrder_resizes (h : Sized size m) (hwf : m.Wf []) (hfifo : m.fifo = []) (id : OrderId)
    (requester : OwnerId) (stopPrice : ℤ) (limitPrice : Option ℤ) (quantity now : ℤ) :
    Resizes size m (.modifyStopOrder id requester stopPrice limitPrice quantity now) := by
  refine ⟨m, _, Or.inl rfl, modifyStopOrder_acts .., .refl, ?_⟩
  rcases modifyStopOrder_cases m id requester stopPrice limitPrice quantity now with
    ⟨why, hwhy, heq⟩ | ⟨old, hfound, -, -, heq⟩
  · rw [accepts, heq, if_neg hwhy]
    exact h
  · rw [accepts, heq, if_pos rfl]
    obtain ⟨hold, hid⟩ := stop?_spec hfound
    set updated : StopOrder := { old with stopPrice, limitPrice, quantity } with hupdated
    have hperm : (replaceStop m.stops old updated).Perm _ := Wf.replaceStop_perm hwf.nodup_stops hold
    have hrest : ∀ s ∈ m.stops.filter (fun s => s.id ≠ old.id), s.id ≠ id ∧ s ∈ m.fifo ++ m.stops :=
      fun s hs => ⟨hid ▸ (by simpa using List.of_mem_filter hs),
        List.mem_append_right _ (List.mem_of_mem_filter hs)⟩
    -- All other stops and the orders keep their sizes.
    have hothers : Sized (resize size id (some quantity))
        { m with stops := m.stops.filter fun s => s.id ≠ old.id } := by
      refine h.resize (fun side x hx => ?_) (fun s hs => ?_) (some quantity)
      · have hx : x ∈ m.queue side := by cases side <;> exact hx
        refine ⟨fun hxid => ?_, hx⟩
        exact hwf.stop_ne_of_mem hx (List.mem_append_right _ hold) (hid.trans hxid.symm)
      · have hs : s ∈ m.fifo ++ _ := hs
        rw [hfifo, List.nil_append] at hs
        exact hrest s hs
    refine ⟨fun side x hx => hothers.resting side x (by cases side <;> exact hx), fun s hs => ?_⟩
    have hs : s ∈ m.fifo ++ replaceStop m.stops old updated := hs
    rw [hfifo, List.nil_append] at hs
    rcases List.mem_cons.mp (hperm.mem_iff.mp hs) with rfl | hs
    · have hself : updated.id = id := hid
      rw [hself]
      exact Function.update_self ..
    · exact hothers.stops s (List.mem_append_right _ hs)

/-- The other orders, when an order leaves the book. -/
theorem Sized.remove {id : OrderId} (h : Sized size m) (hwf : m.Wf []) {side : Side} {x : RestingOrder}
    (hx : x ∈ m.queue side) (hid : x.orderId = id) (e : EngineEvent) (accepted : Option ℤ) :
    Sized (Market.resize size id accepted) ((m.emit e).remove x.orderId) := by
  refine h.resize (fun side y hy => ?_) (fun s hs => ?_) accepted
  · rw [queue_remove, queue_emit] at hy
    exact ⟨hid ▸ (by simpa using List.of_mem_filter hy), List.mem_of_mem_filter hy⟩
  · exact ⟨fun hsid => hwf.stop_ne_of_mem hx hs (hsid.trans hid.symm), hs⟩

/-- `modify_order` gives its id the new size, if it is accepted. -/
theorem modifyOrder_resizes (h : Sized size m) (hwf : m.Wf []) (hfifo : m.fifo = []) (id : OrderId)
    (requester : OwnerId) (price quantity now : ℤ) :
    Resizes size m (.modifyOrder id requester price quantity now) := by
  set c := Call.modifyOrder id requester price quantity now with hc
  have hcases := modifyOrder_cases hwf hfifo id requester price quantity now
  have hcall : m.call c = (m.modifyOrder id requester price quantity now).1 := rfl
  have haccepts : m.accepts c =
      if (m.modifyOrder id requester price quantity now).2.rejectReason ∈
        [RejectReason.none, .selfTrade] then some quantity else none := rfl
  unfold Resizes
  rw [hcall, haccepts]
  generalize m.modifyOrder id requester price quantity now = r at hcases
  -- A refusal is no acceptance, so no size changes.
  have hrefuse : ∀ why ∉ [RejectReason.none, .selfTrade], ∃ m₀ s, Resumes c.now m m₀ ∧ Acts m₀ c s ∧
      Steps c.now s (.idle m) ∧
        SizedAt (resize size c.id
          (if why ∈ [RejectReason.none, .selfTrade] then some quantity else none)) s := by
    intro why hwhy
    refine ⟨m, .idle m, Or.inl rfl, .refuse (by simp [hc]), .refl, ?_⟩
    rw [if_neg hwhy]
    exact h
  cases hcases with
  | unowned owned => exact hrefuse _ (by simp)
  | notResting owned found => exact hrefuse _ (by split_ifs <;> simp)
  | invalid owned found fields bad => exact hrefuse _ (by rcases bad with rfl | rfl <;> simp)
  | halted owned found pos change halted early => exact hrefuse _ (by simp)
  | withdraw owned found le =>
    refine ⟨m, _, Or.inl rfl, .withdraw found, .refl, ?_⟩
    rw [if_pos (by simp)]
    obtain ⟨side, x, hx, hid, rfl⟩ := mem_of_restingOrder? found
    exact h.remove hwf hx hid _ _
  | reduce owned found pos place =>
    refine ⟨m, _, Or.inl rfl, .reduce found pos place.2, .refl, ?_⟩
    rw [if_pos (by simp)]
    obtain ⟨side, x, hx, hid, rfl⟩ := mem_of_restingOrder? found
    refine ⟨fun side' y hy => ?_, fun s hs => ?_⟩
    · rw [queue_emit] at hy
      rcases hwf.mem_queue_reduce hx hy with ⟨hne, hy⟩ | ⟨rfl, rfl⟩
      · exact (resize_of_ne (fun hyid => hne (hyid.trans hid.symm)) _).trans (h.resting side' y hy)
      · show Function.update size id (some quantity) x.orderId = some (x.filled + _)
        rw [hid, Function.update_self]
        show some quantity = some (x.filled + (x.quantity - (x.quantity - (quantity - x.filled))))
        congr 1
        omega
    · have hne := hwf.stop_ne_of_mem hx hs
      exact (resize_of_ne (fun hsid => hne (hsid.trans hid.symm)) _).trans (h.stops s hs)
  -- The replaced order enters with what is left of its new size.
  | @replace order m₀ r owned found pos change valid resumes halted enter why =>
    have hwf₀ := hwf.resumes resumes
    have hfifo₀ := resumes.fifo.trans hfifo
    have found₀ : m₀.restingOrder? id = some order := by
      rcases resumes with rfl | ⟨-, -, rfl⟩ <;> exact found
    have hact : Acts m₀ c (.entering _ _) := .replace halted found₀ change valid
    have hentering := hwf₀.act hfifo₀ hact
    obtain ⟨hsteps, -⟩ := enter_carried (carried_steps hentering) (admitted_of_entering hentering)
      ((carried_steps hentering).reenter .refl) (carries_steps hentering _) false
    refine ⟨m₀, _, resumes, hact, enter ▸ hsteps, ?_⟩
    obtain ⟨side, x, hx, hid, rfl⟩ := mem_of_restingOrder? found₀
    rw [if_pos (by simpa using why)]
    refine ⟨(h.resumes resumes).remove hwf₀ hx hid _ _, ?_⟩
    show Function.update size id (some quantity) x.orderId = some (x.filled + (quantity - x.filled))
    rw [hid, Function.update_self]
    congr 1
    omega

/-- Every call resizes its own id, if it is accepted, and no other. -/
theorem Sized.call_resizes (h : Sized size m) (hwf : m.Wf []) (hfifo : m.fifo = []) (c : Call)
    (hc : c.Unfilled) : Resizes size m c := by
  cases c with
  | addOrder order now => exact addOrder_resizes h hwf hfifo order now (hc order now rfl)
  | modifyOrder id requester price quantity now =>
    exact modifyOrder_resizes h hwf hfifo id requester price quantity now
  | cancelOrder id requester now =>
    refine ⟨m, _, Or.inl rfl, cancelOrder_acts m id requester now, .refl, ?_⟩
    show Sized size (m.cancelOrder id requester now).1
    unfold cancelOrder
    by_cases howned : (!m.ownedBy id requester) = true
    · rw [if_pos howned]
      exact h
    · rw [if_neg howned]
      cases hfound : m.restingOrder? id with
      | none => exact h
      | some order =>
        -- A cancellation only takes something out.
        refine h.mono (fun side x hx => ?_) fun _ hs => hs
        rw [queue_remove, queue_emit] at hx
        exact List.mem_of_mem_filter hx
  | placeStopOrder stop now => exact placeStopOrder_resizes h hfifo stop now
  | cancelStopOrder id requester now =>
    refine ⟨m, _, Or.inl rfl, cancelStopOrder_acts m id requester now, .refl, ?_⟩
    show Sized size (m.cancelStopOrder id requester now).1
    unfold cancelStopOrder
    split_ifs
    · exact h
    · cases hfound : m.stop? id with
      | none => exact h
      | some stop =>
        refine h.mono (fun side x hx => by cases side <;> exact hx) fun s hs => ?_
        rcases List.mem_append.mp hs with hs | hs
        · exact List.mem_append_left _ hs
        · exact List.mem_append_right _ (List.mem_of_mem_filter hs)
  | modifyStopOrder id requester stopPrice limitPrice quantity now =>
    exact modifyStopOrder_resizes h hwf hfifo id requester stopPrice limitPrice quantity now

/-- A call keeps the sizes, but for the one that it accepts, and no id trades past its own. -/
theorem Tallied.call {c : Call} (h : Tallied size (.idle m)) (hfifo : m.fifo = []) (hc : c.Unfilled) :
    Tallied (resize size c.id (m.accepts c)) (.idle (m.call c)) ∧
      ∀ id base, Capped (resize size c.id (m.accepts c)) id base (.idle m) →
        Capped (resize size c.id (m.accepts c)) id base (.idle (m.call c)) := by
  obtain ⟨m₀, s, hresumes, hact, hsteps, hsized⟩ := h.sized.call_resizes h.wf hfifo c hc
  have hwf₀ := h.wf.resumes hresumes
  have hfifo₀ := hresumes.fifo.trans hfifo
  have hfills₀ : fills.Holds m₀ := by
    rcases hresumes with rfl | ⟨-, -, rfl⟩
    · exact h.filled
    · exact Ledger.Holds.resume h.filled fills_rules _
  have ht : Tallied (resize size c.id (m.accepts c)) s :=
    ⟨hwf₀.act hfifo₀ hact, hsized, fills_rules.invariant.act hc hwf₀ hfifo₀ hact hfills₀⟩
  obtain ⟨hend, hcapped⟩ := ht.steps hsteps
  refine ⟨hend, fun id base hbase => hcapped id base ?_⟩
  -- Nothing has traded yet.
  obtain ⟨before, hbefore, hresumed⟩ := hresumes.events
  obtain ⟨es, hes, hkinds⟩ := hact.prints
  unfold Capped at hbase ⊢
  have hzero : tradedOf id before = 0 := tradedOf_eq_zero fun e he => by simp [hresumed e he]
  rw [hes, hbefore, tradedOf_append, tradedOf_append, tradedOf_eq_zero hkinds, hzero, Int.add_zero,
    Int.add_zero]
  exact hbase

/-! ## The sizes of a run -/

/-- The sizes that a run accepts, in order, each with its id. -/
def acceptances (m : Market) : List Call → List (OrderId × ℤ)
  | [] => []
  | c :: calls => ((m.accepts c).map fun quantity => (c.id, quantity)).toList ++ (m.call c).acceptances calls

end Market

/-- The size last accepted for an id. -/
def lastSize (id : OrderId) (size : Option ℤ) (acceptances : List (OrderId × ℤ)) : Option ℤ :=
  acceptances.foldl (fun size a => if a.1 = id then some a.2 else size) size

namespace Market

variable {m : Market} {size : OrderId → Option ℤ}

/-- The last accepted quantity is the size after the call. -/
theorem lastSize_resize (id : OrderId) (c : Call) (accepted : Option ℤ) :
    lastSize id (size id) ((accepted.map fun quantity => (c.id, quantity)).toList) =
      resize size c.id accepted id := by
  cases accepted with
  | none => rfl
  | some quantity =>
    show (if c.id = id then some quantity else size id) = Function.update size c.id (some quantity) id
    rw [Function.update_apply]
    simp only [eq_comm]

/-- The sizes after a run are those last accepted. -/
theorem Tallied.run (calls : List Call) (hC : ∀ c ∈ calls, c.Unfilled) (h : Tallied size (.idle m))
    (hfifo : m.fifo = []) :
    Tallied (fun id => lastSize id (size id) (m.acceptances calls)) (.idle (m.run calls)) := by
  induction calls generalizing m size with
  | nil => exact h
  | cons c calls ih =>
    have hcall := (h.call hfifo (hC c List.mem_cons_self)).1
    have hrun := ih (fun c hc => hC c (List.mem_cons_of_mem _ hc)) hcall (fifo_call m c hfifo)
    have hsize : (fun id => lastSize id (size id) (m.acceptances (c :: calls))) =
        fun id => lastSize id (resize size c.id (m.accepts c) id) ((m.call c).acceptances calls) := by
      funext id
      rw [← lastSize_resize]
      exact List.foldl_append
    rw [hsize]
    exact hrun

/-! ## An id that was an order is not a stop again -/

/-- An id that has entered a stream has entered every longer one. -/
theorem entered_append {id : OrderId} {events es : List EngineEvent}
    (h : entered.account id events = true) : entered.account id (events ++ es) = true := by
  induction es using List.reverseRecOn with
  | nil => rwa [List.append_nil]
  | append_singleton es e ih =>
    rw [← List.append_assoc, entered.account_append]
    exact entered_after ih

/-- Only a `modify_order` accepts a size for an id that was once an order. -/
theorem accepts_of_entered {id : OrderId} (hwf : m.Wf []) (hfifo : m.fifo = []) (h : entered.Holds m)
    (hin : entered.account id m.events = true) {c : Call} (hid : c.id = id)
    (hmodify : ∀ requester price quantity now, c ≠ .modifyOrder id requester price quantity now) :
    m.accepts c = none := by
  -- The id has an owner, so it is in use.
  have huse : m.idInUse id ≠ false := fun hfree => by
    obtain ⟨hlive, hfin⟩ := notMem_of_idInUse hfifo hfree
    have howner := hwf.ids.owner_eq_none (by rwa [List.nil_append]) hfin
    rw [h.unknown id howner] at hin
    cases hin
  cases c with
  | addOrder order now =>
    obtain rfl : order.id = id := hid
    cases hadm : m.admitted order now with
    | none =>
      rw [accepts, hadm]
      rfl
    | some m' =>
      obtain ⟨m₀, hresumes, hfree, -⟩ := admitted_eq_some hadm
      exact absurd (by rcases hresumes with rfl | ⟨-, -, rfl⟩ <;> exact hfree) huse
  | modifyOrder id' requester price quantity now =>
    obtain rfl : id' = id := hid
    exact absurd rfl (hmodify requester price quantity now)
  | placeStopOrder stop now =>
    obtain rfl : stop.id = id := hid
    rcases placeStopOrder_cases m stop now with ⟨why, hwhy, heq⟩ | ⟨hfree, -⟩
    · rw [accepts, heq, if_neg hwhy]
    · exact absurd hfree huse
  | modifyStopOrder id' requester stopPrice limitPrice quantity now =>
    obtain rfl : id' = id := hid
    rcases modifyStopOrder_cases m id' requester stopPrice limitPrice quantity now with
      ⟨why, hwhy, heq⟩ | ⟨old, hfound, -⟩
    · rw [accepts, heq, if_neg hwhy]
    · obtain ⟨hmem, rfl⟩ := stop?_spec hfound
      have hout : entered.account old.id m.events = false :=
        h.dormant old (List.mem_append_right _ hmem)
      rw [hin] at hout
      cases hout
  | cancelOrder id' requester now => rfl
  | cancelStopOrder id' requester now => rfl

/-- No `modify_order` of an id takes effect in a run. -/
def Unmodified (m : Market) (id : OrderId) (calls : List Call) : Prop :=
  ∀ before requester price quantity now after,
    calls = before ++ .modifyOrder id requester price quantity now :: after →
      (m.run before).accepts (.modifyOrder id requester price quantity now) = none

/-- A modification of an id that is not modified is refused. -/
theorem Unmodified.head {id : OrderId} {c : Call} {calls : List Call}
    (h : m.Unmodified id (c :: calls)) {requester : OwnerId} {price quantity now : ℤ}
    (hc : c = .modifyOrder id requester price quantity now) : m.accepts c = none := by
  rw [hc]
  exact h [] requester price quantity now calls (by rw [hc]; rfl)

/-- The rest of the calls leave the id unmodified too. -/
theorem Unmodified.tail {id : OrderId} {c : Call} {calls : List Call}
    (h : m.Unmodified id (c :: calls)) : (m.call c).Unmodified id calls :=
  fun before requester price quantity now after hsplit =>
    h (c :: before) requester price quantity now after (by rw [hsplit]; rfl)

/-- An order trades no more than its size until it is modified again. -/
theorem Capped.run {id : OrderId} {base : ℤ} (calls : List Call) (hC : ∀ c ∈ calls, c.Unfilled)
    (ht : Tallied size (.idle m)) (hfifo : m.fifo = []) (hentered : entered.Holds m)
    (hin : entered.account id m.events = true) (hunmodified : m.Unmodified id calls)
    (h : Capped size id base (.idle m)) : Capped size id base (.idle (m.run calls)) := by
  induction calls generalizing m size with
  | nil => exact h
  | cons c calls ih =>
    have hC' : ∀ c ∈ calls, c.Unfilled := fun c hc => hC c (List.mem_cons_of_mem _ hc)
    -- The call leaves the size of the id alone.
    have hsize : resize size c.id (m.accepts c) id = size id := by
      by_cases hid : c.id = id
      · have hnone : m.accepts c = none := by
          by_cases hmodify : ∃ requester price quantity now,
              c = .modifyOrder id requester price quantity now
          · obtain ⟨requester, price, quantity, now, hc⟩ := hmodify
            exact hunmodified.head hc
          · simp only [not_exists] at hmodify
            exact accepts_of_entered ht.wf hfifo hentered hin hid hmodify
        rw [hnone]
        rfl
      · exact resize_of_ne (Ne.symm hid) _
    obtain ⟨hcall, hcapped⟩ := ht.call hfifo (hC c List.mem_cons_self)
    have hcap : Capped (resize size c.id (m.accepts c)) id base (.idle (m.call c)) := by
      refine hcapped id base ?_
      unfold Capped
      rw [hsize]
      exact h
    obtain ⟨es, hes, -⟩ := call_stream (P := fun _ => True) c ht.wf hfifo trivial fun _ _ => trivial
    have hin' : entered.account id (m.call c).events = true := by
      rw [hes]
      exact entered_append hin
    have hentered' := (entered_rules.invariant.call trivial ht.wf hfifo hentered (c := c)).1
    have hend := ih hC' hcall (fifo_call m c hfifo) hentered' hin' hunmodified.tail hcap
    unfold Capped at hend ⊢
    rw [hsize] at hend
    exact hend

end Market

namespace Market

variable {m : Market} {size : OrderId → Option ℤ}

/-- A `modify_order` that takes effect is about a resting order. -/
theorem restingOrder?_of_accepts {id : OrderId} {requester : OwnerId} {price quantity now : ℤ}
    (hwf : m.Wf []) (hfifo : m.fifo = [])
    (h : m.accepts (.modifyOrder id requester price quantity now) = some quantity) :
    ∃ order, m.restingOrder? id = some order := by
  have hwhy : (m.modifyOrder id requester price quantity now).2.rejectReason ∈
      [RejectReason.none, .selfTrade] := by
    by_contra hne
    rw [accepts, if_neg hne] at h
    cases h
  have hcases := modifyOrder_cases hwf hfifo id requester price quantity now
  generalize m.modifyOrder id requester price quantity now = r at hcases hwhy
  cases hcases with
  | unowned owned => simp at hwhy
  | notResting owned found =>
    simp only at hwhy
    split_ifs at hwhy <;> simp at hwhy
  | invalid owned found fields bad => exact ⟨_, found⟩
  | halted owned found pos change halted early => exact ⟨_, found⟩
  | withdraw owned found le => exact ⟨_, found⟩
  | reduce owned found pos place => exact ⟨_, found⟩
  | replace owned found pos change valid resumes halted enter why => exact ⟨_, found⟩

/-- An order trades no more than its new size, or what it had traded before. -/
theorem capped_after_modify {id : OrderId} {requester : OwnerId} {price quantity now : ℤ}
    {after : List Call} (ht : Tallied size (.idle m)) (hfifo : m.fifo = []) (hentered : entered.Holds m)
    (haccepts : m.accepts (.modifyOrder id requester price quantity now) = some quantity)
    (hC : ∀ c ∈ after, c.Unfilled)
    (hunmodified : (m.call (.modifyOrder id requester price quantity now)).Unmodified id after) :
    tradedOf id ((m.call (.modifyOrder id requester price quantity now)).run after).events ≤
      max quantity (tradedOf id m.events) := by
  set c := Call.modifyOrder id requester price quantity now with hc
  obtain ⟨order, hfound⟩ := restingOrder?_of_accepts ht.wf hfifo haccepts
  obtain ⟨side, x, hx, rfl, rfl⟩ := mem_of_restingOrder? hfound
  have hin : entered.account x.orderId m.events = true := hentered.resting side x hx
  -- The change sets the size of the order to the new quantity.
  have hsize : resize size c.id (m.accepts c) x.orderId = some quantity := by
    rw [haccepts]
    exact Function.update_self ..
  obtain ⟨hcall, hcapped⟩ := ht.call (c := c) hfifo fun order now hadd => by simp [hc] at hadd
  obtain ⟨es, hes, -⟩ := call_stream (P := fun _ => True) c ht.wf hfifo trivial fun _ _ => trivial
  -- What it had traded before may already be more.
  have hcap : Capped (resize size c.id (m.accepts c)) x.orderId (tradedOf x.orderId m.events)
      (.idle (m.call c)) := hcapped _ _ (le_max_right _ _)
  have hend := Capped.run after hC hcall (fifo_call m c hfifo)
    (entered_rules.invariant.call trivial ht.wf hfifo hentered (c := c)).1
    (by rw [hes]; exact entered_append hin) hunmodified hcap
  unfold Capped at hend
  rwa [hsize, Option.getD_some] at hend

end Market

namespace Book

variable {b : Book} {m : Market}

/-! ## The book -/

/-- The total size that a call accepts for its id: that of an order with an `Accepted` event, of a stop
that is placed or modified, and of a `modify_order` that takes effect. The last is also answered with
`SelfTrade`, when the replaced order has met one of its owner. -/
def accepts (b : Book) : Call → Option ℤ
  | .addOrder order now =>
    if (b.emitted (.addOrder order now)).any (accepting order.id) then some order.quantity else none
  | .modifyOrder id requester price quantity now =>
    if (b.modifyOrder id requester price quantity now).2.rejectReason ∈
      [RejectReason.none, .selfTrade] then some quantity else none
  | .placeStopOrder stop now =>
    if (b.placeStopOrder stop now).2 = .none then some stop.quantity else none
  | .modifyStopOrder id requester stopPrice limitPrice quantity now =>
    if (b.modifyStopOrder id requester stopPrice limitPrice quantity now).2 = .none then some quantity
    else none
  | .cancelOrder _ _ _ | .cancelStopOrder _ _ _ => none

/-- The sizes that a run accepts, in order, each with its id. -/
def acceptances (b : Book) : List Call → List (OrderId × ℤ)
  | [] => []
  | c :: calls => ((b.accepts c).map fun quantity => (c.id, quantity)).toList ++ (b.call c).acceptances calls

/-- No `modify_order` of an id takes effect in a run. -/
def Unmodified (b : Book) (id : OrderId) (calls : List Call) : Prop :=
  ∀ before requester price quantity now after,
    calls = before ++ .modifyOrder id requester price quantity now :: after →
      (b.run before).accepts (.modifyOrder id requester price quantity now) = none

/-- The book accepts what its market accepts. -/
theorem accepts_represents (h : b.Refines m) (hwf : m.Wf []) (c : Call) (hfits : (b.call c).Fits) :
    b.accepts c = m.accepts c := by
  cases c with
  | addOrder order now =>
    have hemitted : b.emitted (.addOrder order now) = (m.addOrder order now).1.events.drop m.events.length := by
      rw [emitted, h.represents.session, show (b.call _).toSession = _ from
        (h.call (.addOrder order now) hfits).represents.session]
      rfl
    rw [accepts, Market.accepts, hemitted]
    cases hadm : m.admitted order now with
    | none =>
      obtain ⟨before, rejected, hevents, hresumed, hk, -⟩ := Market.addOrder_refused hadm
      have hnone : (before ++ [rejected]).any (accepting order.id) = false := by
        rw [List.any_eq_false]
        intro e he
        rcases List.mem_append.mp he with he | he
        · simp [accepting, hresumed e he]
        · simp [accepting, List.mem_singleton.mp he, hk]
      rw [hevents, List.drop_left, hnone]
      rfl
    | some m' =>
      -- An admitted order emits its acceptance, a refused one does not.
      obtain ⟨before, n, es, hevents, -, -⟩ := Market.addOrder_events hwf h.fifo hadm
      have hsome : (before ++ (order.event .accepted now).numbered n :: es).any (accepting order.id) =
          true := by
        rw [List.any_eq_true]
        exact ⟨_, List.mem_append_right _ List.mem_cons_self, by simp [accepting, Order.event]⟩
      rw [hevents, List.drop_left, hsome]
      rfl
  | modifyOrder id requester price quantity now =>
    rw [accepts, Market.accepts,
      (modifyOrder_represents h.represents h.drainingStops id requester price quantity now).1]
  | placeStopOrder stop now =>
    rw [accepts, Market.accepts, (placeStopOrder_represents h.represents h.fifo stop now).1]
  | modifyStopOrder id requester stopPrice limitPrice quantity now =>
    rw [accepts, Market.accepts,
      (modifyStopOrder_represents h.represents id requester stopPrice limitPrice quantity now).1]
  | cancelOrder id requester now => rfl
  | cancelStopOrder id requester now => rfl

/-- Over a run, the book accepts what its market accepts. -/
theorem acceptances_represents (h : b.Refines m) (hwf : m.Wf []) (calls : List Call)
    (hfits : (b.run calls).Fits) : b.acceptances calls = m.acceptances calls := by
  induction calls generalizing b m with
  | nil => rfl
  | cons c calls ih =>
    have hcall := (grows_run _ calls).fits hfits
    rw [acceptances, Market.acceptances, accepts_represents h hwf c hcall,
      ih (h.call c hcall) (Market.wf_call c hwf h.fifo) hfits]

/-- An id that is not modified on the book is not modified on its market. -/
theorem unmodified_represents {id : OrderId} (h : b.Refines m) (hwf : m.Wf []) (calls : List Call)
    (hfits : (b.run calls).Fits) (hunmodified : b.Unmodified id calls) : m.Unmodified id calls := by
  rintro before requester price quantity now after rfl
  rw [run_append] at hfits
  have hbefore := (grows_run _ _).fits hfits
  rw [run_cons] at hfits
  rw [← accepts_represents (h.run before hbefore) (Market.wf_run before hwf h.fifo).1 _
    ((grows_run _ after).fits hfits)]
  exact hunmodified before requester price quantity now after rfl

/-- **An order is never overfilled.** The filled count of a resting order is what has traded, and with
what is left it makes up the size last accepted for its id. After a `modify_order` that takes effect, and
until the next one that does, an order trades no more than its new size, or what it had traded before. -/
theorem never_overfilled (cfg : Config) (calls : List Call) (hfits : ((Book.make cfg).run calls).Fits)
    (hunfilled : ∀ order now, .addOrder order now ∈ calls → order.filled = 0) :
    let b := (Book.make cfg).run calls
    (∀ side, ∀ x ∈ b.collect side, x.filled = tradedOf x.orderId b.events ∧
      lastSize x.orderId none ((Book.make cfg).acceptances calls) = some (x.filled + x.quantity)) ∧
    ∀ before id requester price quantity now after,
      calls = before ++ .modifyOrder id requester price quantity now :: after →
      let c := Call.modifyOrder id requester price quantity now
      let b₀ := (Book.make cfg).run before
      b₀.accepts c = some quantity → (b₀.call c).Unmodified id after →
        tradedOf id b.events ≤ max quantity (tradedOf id b₀.events) := by
  intro b
  have hC : ∀ c ∈ calls, c.Unfilled := fun c hc order now hadd => hunfilled order now (hadd ▸ hc)
  have h : b.Refines ((Market.make cfg).run calls) := run_refines cfg calls hfits
  have hmake : (Market.make cfg).Wf [] := Market.wf_make cfg
  have hempty : Market.Tallied (fun _ => none) (.idle (Market.make cfg)) :=
    ⟨hmake, ⟨fun side x hx => (by cases side <;> cases hx), fun stop hs => (by cases hs)⟩,
      Ledger.holds_make cfg⟩
  refine ⟨fun side x hx => ?_, ?_⟩
  -- The tally of the abstract market is that of the book, whose events and orders are the same.
  · have htally := hempty.run calls hC rfl
    rw [h.represents.collect_eq] at hx
    rw [acceptances_represents (refines_make cfg) hmake calls hfits]
    refine ⟨?_, htally.sized.resting side x hx⟩
    rw [show b.events = _ from congrArg Session.events h.represents.session, ← fills_account]
    exact htally.filled.resting side x hx
  · rintro before id requester price quantity now after rfl c b₀ haccepts hunmodified
    -- The priorities of every state on the way fit, as those of the last one do.
    have hbefore : b₀.Fits := by
      rw [run_append] at hfits
      exact (grows_run _ _).fits hfits
    have hafter : ((b₀.call c).run after).Fits := by
      rwa [run_append, run_cons] at hfits
    have hcall : (b₀.call c).Fits := (grows_run _ _).fits hafter
    have h₀ : b₀.Refines ((Market.make cfg).run before) := run_refines cfg before hbefore
    obtain ⟨hwf₀, hfifo₀⟩ := Market.wf_run before hmake rfl
    set m₀ := (Market.make cfg).run before
    have hevents : b₀.events = m₀.events := congrArg Session.events h₀.represents.session
    have htally := hempty.run before (fun c hc => hC c (List.mem_append_left _ hc)) rfl
    have hentered := entered_rules.run cfg before fun _ _ => trivial
    have hcapped := Market.capped_after_modify htally h₀.fifo hentered
      (accepts_represents h₀ hwf₀ c hcall ▸ haccepts)
      (fun c hc => hC c (List.mem_append_right _ (List.mem_cons_of_mem _ hc)))
      (unmodified_represents (h₀.call c hcall) (Market.wf_call c hwf₀ h₀.fifo) after hafter hunmodified)
    have hrun : (Market.make cfg).run (before ++ c :: after) = (m₀.call c).run after :=
      List.foldl_append
    rw [show b.events = _ from congrArg Session.events h.represents.session, hevents, hrun]
    exact hcapped

/-- A buy order that has traded 2 of 10, and is made smaller than that. -/
theorem never_overfilled_of_ten :
    let calls :=
      [.addOrder { id := 1, ownerId := 1, side := .buy, type := .limit, price := some 100,
                   quantity := 10 } 0,
       .addOrder { id := 2, ownerId := 2, side := .sell, type := .limit, price := some 100,
                   quantity := 2 } 1,
       .modifyOrder 1 1 101 1 2]
    let b := (Book.make { poolCapacity := 4 }).run calls
    (∀ side, ∀ x ∈ b.collect side, x.filled = tradedOf x.orderId b.events ∧
      lastSize x.orderId none ((Book.make { poolCapacity := 4 }).acceptances calls) =
        some (x.filled + x.quantity)) ∧
    ∀ before id requester price quantity now after,
      calls = before ++ .modifyOrder id requester price quantity now :: after →
      let c := Call.modifyOrder id requester price quantity now
      let b₀ := (Book.make { poolCapacity := 4 }).run before
      b₀.accepts c = some quantity → (b₀.call c).Unmodified id after →
        tradedOf id b.events ≤ max quantity (tradedOf id b₀.events) :=
  never_overfilled { poolCapacity := 4 } _ (fits_run rfl _) fun order now h => by
    simp only [List.mem_cons, Call.addOrder.injEq, reduceCtorEq, List.not_mem_nil, or_false] at h
    rcases h with ⟨rfl, -⟩ | ⟨rfl, -⟩ <;> rfl

/-- An order of 5 trades 8 in a `modify_order` that is not answered with `None`. It is meant to be 20
from then on, but it meets an order of its owner. -/
theorem traded_past_rejected_modify :
    let b₀ := (Book.make { poolCapacity := 4 }).run
      [.addOrder { id := 1, ownerId := 1, side := .buy, type := .limit, price := some 100,
                   quantity := 10 } 0,
       .addOrder { id := 2, ownerId := 2, side := .sell, type := .limit, price := some 101,
                   quantity := 8 } 1,
       .addOrder { id := 3, ownerId := 1, side := .sell, type := .limit, price := some 101,
                   quantity := 1 } 2]
    let b₁ := b₀.call (.modifyOrder 1 1 100 5 3)
    let b₂ := b₁.call (.modifyOrder 1 1 101 20 4)
    (b₀.modifyOrder 1 1 100 5 3).2.rejectReason = .none ∧
      (b₁.modifyOrder 1 1 101 20 4).2.rejectReason = .selfTrade ∧
      ¬ tradedOf 1 b₂.events ≤ max 5 (tradedOf 1 b₀.events) := by
  decide

end Book

end OrderBookEngine
