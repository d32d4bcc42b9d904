import OrderBookEngine.Market.Episodes
import OrderBookEngine.Market.Ledger
import OrderBookEngine.Refine.Run

/-!
# Stop cascades end

A firing takes one stop from the queue and may move dormant stops into it, but adds none
(`pendingStops_fireStop`). So the drain loop of `check_and_trigger_stops` ends after at most as many
firings as there were dormant stops (`drains_drainLoop`). What a firing triggers in its turn only
appends to the queue, so calls do not nest any deeper (`triggerOver_triggerOver`).
-/

namespace OrderBookEngine

/-- The number of firings in a stream of events. -/
def firings (events : List EngineEvent) : ℕ := events.countP fun e => e.kind = .stopTriggered

/-- The number of firings of one id. -/
def firingsOf (id : OrderId) (events : List EngineEvent) : ℕ :=
  events.countP fun e => e.kind = .stopTriggered ∧ e.orderId = id

/-- Only a fired stop is a firing. -/
theorem firings_append (events : List EngineEvent) {e : EngineEvent} (h : e.kind ≠ .stopTriggered) :
    firings (events ++ [e]) = firings events := by
  unfold firings
  rw [List.countP_append, List.countP_singleton, if_neg (by simpa using h), Nat.add_zero]

namespace Market

variable {m : Market} {now : ℤ} {s s' : Stage}

/-! ## The firings of a call -/

/-- A step that fires takes a stop from the pending ones, and no step adds to them. -/
theorem Step.firings_pending (h : Step now s s') :
    firings s'.market.events + s'.market.pending = firings s.market.events + s.market.pending := by
  have hnote : ∀ (events : List EngineEvent) (e : EngineEvent), e.kind ≠ .stopTriggered →
      ∀ n, firings (events ++ [e]) + n = firings events + n :=
    fun events e hk n => congrArg (· + n) (firings_append events hk)
  have hrest : ∀ {m m' : Market} {order : Order}, m.restOrder order now = some m' →
      firings m'.events + m'.pending =
        firings m.events + m.pending := fun room => by
    obtain ⟨hstops, hfifo⟩ := restOrder_stops room
    unfold pending
    rw [events_restOrder room, hstops, hfifo]
    exact hnote _ _ (by simp [Order.event]) _
  cases h with
  | reenter => exact hnote _ _ (by simp [Order.event]) _
  | @trade w x xs outside breach meets band =>
    obtain ⟨hstops, hfifo⟩ := w.stops_trade now x xs outside breach
    show firings (w.trade now x xs outside breach).market.events +
      (w.trade now x xs outside breach).market.pending = _
    unfold pending
    rw [w.events_trade, hstops, hfifo]
    exact hnote _ _ (by simp [tradeEvent]) _
  | halt meets band => exact hnote _ _ (by simp [Order.event]) _
  | limit meets band => rfl
  | filled quantity => rfl
  | rest quantity type runOut room => exact hrest room
  | expire quantity => exact hnote _ _ (by simp [Order.event]) _
  | restAtBandEdge type valid room => exact hrest room
  | expireStopped => exact hnote _ _ (by simp [Order.event]) _
  | finish => rfl
  | @absorb m trades _ last last_eq =>
    have hevents := events_absorb m trades last
    have hpending : (m.absorb trades last).pending = m.pending := pending_wakeStops ..
    show firings (m.absorb trades last).events + (m.absorb trades last).pending = _
    rw [hevents, hpending]
    rfl
  | @fire m stop rest fifo halted =>
    -- The event makes up for the stop that leaves the FIFO.
    have hone : firings
        (m.events ++ [(stop.event .stopTriggered now).numbered m.nextSeq]) =
          firings m.events + 1 := by
      unfold firings
      rw [List.countP_append, List.countP_singleton, if_pos (by simp [StopOrder.event])]
    show firings (m.events ++ [(stop.event .stopTriggered now).numbered m.nextSeq]) +
      (m.stops.length + rest.length) = firings m.events + (m.stops.length + m.fifo.length)
    rw [hone, fifo, List.length_cons]
    omega
  | @sendBack m halted =>
    show firings m.events + ((m.fifo ++ m.stops).length + 0) =
      firings m.events + (m.stops.length + m.fifo.length)
    rw [List.length_append]
    omega

/-- A call that places no stop fires none itself and adds none to the pending ones. -/
theorem Acts.firings_pending {c : Call} (hact : Acts m c s) (hwf : m.Wf [])
    (hplace : ∀ stop now, c ≠ .placeStopOrder stop now) :
    firings s.market.events = firings m.events ∧ s.market.pending ≤ m.pending := by
  have hnote : ∀ e : EngineEvent, e.kind ≠ .stopTriggered →
      firings (m.events ++ [e]) = firings m.events :=
    fun e hk => firings_append _ hk
  cases hact with
  | refuse kind => exact ⟨rfl, le_rfl⟩
  | placeStop fresh valid ahead => exact absurd rfl (hplace _ _)
  | rejectStop => exact absurd rfl (hplace _ _)
  | cancelStop found =>
    refine ⟨hnote _ (by simp [StopOrder.event]), Nat.add_le_add_right ?_ _⟩
    exact List.length_filter_le _ _
  | @modifyStop id requester old stopPrice limitPrice quantity now found valid ahead =>
    refine ⟨hnote _ (by simp [StopOrder.event]), Nat.add_le_add_right ?_ _⟩
    have hold := (stop?_spec found).1
    set updated : StopOrder := { old with stopPrice, limitPrice, quantity }
    have hperm : (replaceStop m.stops old updated).Perm _ := Wf.replaceStop_perm hwf.nodup_stops hold
    exact (hperm.length_eq.trans (hwf.perm_filter_stops hold).length_eq.symm).le
  | _ => exact ⟨hnote _ (by simp [Order.event]), le_rfl⟩

/-- A call fires no more stops than were dormant. -/
theorem firings_call (c : Call) (hwf : m.Wf []) (hfifo : m.fifo = []) :
    ∃ es, (m.call c).events = m.events ++ es ∧ firings es ≤ m.stops.length := by
  obtain ⟨es, hes, -⟩ := call_stream (P := fun _ => True) c hwf hfifo trivial fun _ _ => trivial
  refine ⟨es, hes, ?_⟩
  have hcount : firings (m.call c).events = firings m.events + firings es := by
    rw [hes]
    exact List.countP_append
  by_cases hplace : ∃ stop now, c = .placeStopOrder stop now
  · -- Nothing follows the action: the new stop stays dormant.
    obtain ⟨stop, now, rfl⟩ := hplace
    have hact : Acts m (.placeStopOrder stop now) (.idle (m.call (.placeStopOrder stop now))) :=
      placeStopOrder_acts m stop now
    have hnone : firings (m.call (.placeStopOrder stop now)).events = firings m.events := by
      generalize m.call (.placeStopOrder stop now) = m' at hact
      cases hact with
      | refuse kind => rfl
      | rejectStop => exact firings_append _ (by simp)
      | placeStop fresh valid ahead => exact firings_append _ (by simp [StopOrder.event])
    omega
  · obtain ⟨m₀, s, hresumes, hact, hsteps, -⟩ := call_steps c hwf hfifo
    obtain ⟨hfirings, hpending⟩ := hact.firings_pending (hwf.resumes hresumes)
      fun stop now hc => hplace ⟨stop, now, hc⟩
    -- Each firing takes one of the pending stops, so their sum stays through the steps.
    have htotal := hsteps.invariant (I := fun s' => firings s'.market.events + s'.market.pending =
      firings s.market.events + s.market.pending) (fun hstep h => hstep.firings_pending.trans h) rfl
    have hresumed : firings m₀.events = firings m.events ∧ m₀.pending = m.pending := by
      rcases hresumes with rfl | ⟨-, -, rfl⟩
      · exact ⟨rfl, rfl⟩
      · exact ⟨firings_append _ (by simp), rfl⟩
    have hdormant : m.pending = m.stops.length := by
      unfold pending
      rw [hfifo]
      rfl
    have hend : firings (m.call c).events + (m.call c).pending =
      firings s.market.events + s.market.pending := htotal
    omega

/-! ## The firings of an id -/

/-- An id fires at most once, and not before its stop wakes for good. -/
def fires : Ledger ℕ where
  init := 0
  after id n e := if e.kind = .stopTriggered ∧ e.orderId = id then n + 1 else n
  Resting _ _ n := n ≤ 1
  Dormant _ n := n = 0
  Flying _ n := n ≤ 1
  Walking _ n := n ≤ 1
  Closed _ n := n ≤ 1

/-- The account of an id counts its firings. -/
theorem fires_account (id : OrderId) (events : List EngineEvent) :
    fires.account id events = firingsOf id events := by
  induction events using List.reverseRecOn with
  | nil => rfl
  | append_singleton events e ih =>
    rw [fires.account_append, ih]
    unfold firingsOf
    rw [List.countP_append, List.countP_singleton]
    by_cases h : e.kind = .stopTriggered ∧ e.orderId = id
    · rw [if_pos (by simpa using h)]
      exact if_pos h
    · rw [if_neg (by simpa using h)]
      exact if_neg h

/-- Every step of a call keeps the count of firings. -/
theorem fires_rules : fires.Rules fun _ => True where
  quiet {id a e} h := by
    refine if_neg fun hk => h ?_
    unfold Names
    rw [hk.1]
    exact hk.2
  submit _ _ := Nat.zero_le 1
  reenter h _ := h
  aggressor _ _ h := h
  passive _ _ h _ := h
  exhaust _ _ h _ := h
  filled h _ := h
  expire h := h
  rest h _ _ _ := h
  restAtBandEdge h _ _ _ := h
  fire {stop a now n} h := by
    have hnone : a = 0 := h
    have hone : fires.after stop.id a ((stop.event .stopTriggered now).numbered n) = a + 1 :=
      if_pos ⟨rfl, rfl⟩
    show fires.after stop.id a _ ≤ 1
    rw [hone, hnone]
  cancel h := h
  reduce h _ _ := h
  replace h _ := h
  placeStop _ := rfl
  cancelStop h := (show _ = 0 from h).le.trans (Nat.zero_le 1)
  modifyStop h _ _ _ _ := h

end Market

namespace Book

variable {b b' : Book} {now : ℤ}

/-! ## The drain loop -/

/-- The drain loop of `check_and_trigger_stops`, pass by pass: from `b`, it ends in `b'` after `n`
firings. Each firing is `add_order_core` itself. -/
inductive Drains (now : ℤ) : ℕ → Book → Book → Prop where
  /-- No stop is woken: the loop ends. -/
  | empty {b : Book} (queue : b.triggeredStops = []) : Drains now 0 b b
  /-- The book is halted: the woken stops go back, and the loop ends. -/
  | halted {b : Book} (queue : b.triggeredStops ≠ []) (halted : b.halted = true) :
    Drains now 0 b b.sendBack
  /-- The first woken stop fires, and the loop goes on. -/
  | fire {b b' : Book} {stop : StopOrder} {rest : List StopOrder} {n : ℕ}
    (queue : b.triggeredStops = stop :: rest) (halted : b.halted = false)
    (next : Drains now n ((({ b with triggeredStops := rest } : Book).emit
      (stop.event .stopTriggered now)).addOrderCore stop.firedOrder now false).1 b') :
    Drains now (n + 1) b b'

/-- The same stops are pending. -/
theorem SameStops.pendingStops (h : SameStops b b') : b'.pendingStops = b.pendingStops := by
  unfold Book.pendingStops
  rw [h.stopBook, h.triggeredStops]

/-- The stops that a sweep wakes move into the queue. -/
theorem pendingStops_wakeStops (low high : ℤ) (b : Book) :
    (b.wakeStops low high).pendingStops = b.pendingStops := by
  unfold wakeStops
  split_ifs
  · rfl
  · have hsell := (List.filter_append_perm
      (fun e => StopBook.touched low high .sell e.1) b.sellStops.entries).length_eq
    have hbuy := (List.filter_append_perm
      (fun e => StopBook.touched low high .buy e.1) b.buyStops.entries).length_eq
    unfold Book.pendingStops StopBook.take
    simp only [SortedMap.filter, List.length_append, List.length_map, List.length_insertionSort]
      at hsell hbuy ⊢
    omega

/-- A firing leaves the number of pending stops to what is left of the queue. -/
theorem pendingStops_fireStop (b : Book) (stop : StopOrder) (now : ℤ) :
    (b.fireStop stop now).pendingStops = b.pendingStops := by
  set trigger : ℤ → ℤ → ℤ → Book → Book := fun low high _ b => b.wakeStops low high
  show ((b.emit (stop.event .stopTriggered now)).addOrderCoreWith trigger stop.firedOrder now
    false).1.pendingStops = b.pendingStops
  cases hadm : (b.emit (stop.event .stopTriggered now)).admitted stop.firedOrder now with
  | none =>
    obtain ⟨why, -, heq⟩ := addOrderCoreWith_of_refused trigger hadm false
    rw [heq]
    rfl
  | some b' =>
    -- Waking stops moves them from one list to the other.
    have hadmitted : b'.pendingStops = b.pendingStops := by
      unfold admitted at hadm
      simp only at hadm
      split_ifs at hadm
      obtain rfl := Option.some.inj hadm
      rfl
    have hwalk := (sameStops_walk b' stop.firedOrder now).pendingStops.trans hadmitted
    rw [addOrderCoreWith_of_admitted trigger hadm, afterWalk]
    cases (b'.walk stop.firedOrder now).2.trades.getLast? with
    | none => exact hwalk
    | some last => exact (pendingStops_wakeStops _ _ _).trans hwalk

/-- **The drain loop ends.** With fuel for every pending stop it runs until the queue is empty, after
at most as many firings. -/
theorem drains_drainLoop (fuel : ℕ) (hdrain : b.drainingStops = true) (hfuel : b.pendingStops ≤ fuel) :
    (drainLoop now fuel b).triggeredStops = [] ∧
      ∃ n ≤ b.pendingStops, Drains now n b (drainLoop now fuel b) := by
  induction fuel generalizing b with
  | zero =>
    have hqueue : b.triggeredStops = [] := by
      unfold Book.pendingStops at hfuel
      exact List.length_eq_zero_iff.mp (by omega)
    exact ⟨hqueue, 0, Nat.zero_le _, .empty hqueue⟩
  | succ fuel ih =>
    rw [drainLoop]
    cases hqueue : b.triggeredStops with
    | nil => exact ⟨hqueue, 0, Nat.zero_le _, .empty hqueue⟩
    | cons stop rest =>
      simp only
      split_ifs with hhalt
      · exact ⟨rfl, 0, Nat.zero_le _, .halted (by simp [hqueue]) hhalt⟩
      · set popped : Book := { b with triggeredStops := rest } with hpopped
        have hone : (popped.fireStop stop now).pendingStops + 1 = b.pendingStops := by
          rw [pendingStops_fireStop]
          unfold Book.pendingStops
          rw [hqueue, List.length_cons]
          rfl
        -- A firing leaves the drain under way.
        have hfire : (popped.fireStop stop now).drainingStops = true :=
          (grows_addOrderCoreWith (fun low high _ b => grows_wakeStops low high b) _ _ _ _).drainingStops.trans
            hdrain
        obtain ⟨hempty, n, hn, hnext⟩ := ih hfire (by omega)
        refine ⟨hempty, n + 1, by omega, .fire hqueue (by simpa using hhalt) ?_⟩
        rwa [← fireStop_eq (b := popped) hdrain]

/-- `check_and_trigger_stops` outside of a drain: the stops that a sweep wakes join the queue, and the
drain loop ends. -/
theorem checkAndTriggerStops_drains (hdrain : b.drainingStops = false) (hhalt : b.halted = false)
    (low high now : ℤ) :
    ∃ n ≤ b.pendingStops, ∃ b', Drains now n { b.wakeStops low high with drainingStops := true } b' ∧
      b'.triggeredStops = [] ∧
      checkAndTriggerStops low high now b = { b' with drainingStops := false } := by
  have hwoken : (b.wakeStops low high).drainingStops = false :=
    (grows_wakeStops low high b).drainingStops.trans hdrain
  set draining : Book := { b.wakeStops low high with drainingStops := true } with hdraining
  have hpending : draining.pendingStops = b.pendingStops := pendingStops_wakeStops low high b
  obtain ⟨hempty, n, hn, hdrains⟩ : (drainLoop now draining.pendingStops draining).triggeredStops = [] ∧
      ∃ n ≤ draining.pendingStops, Drains now n draining (drainLoop now draining.pendingStops draining) :=
    drains_drainLoop draining.pendingStops rfl le_rfl
  refine ⟨n, by omega, _, hdrains, hempty, ?_⟩
  unfold checkAndTriggerStops
  simp only [hhalt, hwoken, Bool.false_eq_true, if_false]
  rfl

/-! ## Nesting -/

/-- The drain loop over the call that ends each firing's `add_order_core`. -/
def drainLoopOver (inner : ℤ → ℤ → ℤ → Book → Book) (now : ℤ) : ℕ → Book → Book
  | 0, b => b
  | fuel + 1, b =>
    match b.triggeredStops with
    | [] => b
    | stop :: rest =>
      if b.halted then b.sendBack
      else
        let b := ({ b with triggeredStops := rest } : Book).emit (stop.event .stopTriggered now)
        drainLoopOver inner now fuel (b.addOrderCoreWith inner stop.firedOrder now false).1

/-- `check_and_trigger_stops` over the nested `check_and_trigger_stops` that its firings call. -/
def triggerOver (inner : ℤ → ℤ → ℤ → Book → Book) (low high : ℤ) (now : ℤ) (b : Book) : Book :=
  if b.halted then b
  else
    let b := b.wakeStops low high
    if b.drainingStops then b
    else
      let b := { b with drainingStops := true }
      let b := drainLoopOver inner now b.pendingStops b
      { b with drainingStops := false }

/-- Inside a drain, a nested call appends and returns, whatever a deeper call would do. -/
theorem triggerOver_of_draining (inner : ℤ → ℤ → ℤ → Book → Book) (hdrain : b.drainingStops = true)
    (low high now : ℤ) : triggerOver inner low high now b = b.wakeStops low high := by
  unfold triggerOver
  by_cases hhalt : b.halted = true
  · rw [if_pos hhalt, wakeStops, if_pos hhalt]
  · have hwoken : (b.wakeStops low high).drainingStops = true :=
      (grows_wakeStops low high b).drainingStops.trans hdrain
    rw [if_neg hhalt]
    simp only
    rw [if_pos hwoken]

/-- While stops are drained the nested loop does nothing, so the outer one is the drain loop. -/
theorem drainLoopOver_triggerOver (inner : ℤ → ℤ → ℤ → Book → Book) (fuel : ℕ)
    (hdrain : b.drainingStops = true) :
    drainLoopOver (triggerOver inner) now fuel b = drainLoop now fuel b := by
  induction fuel generalizing b with
  | zero => rfl
  | succ fuel ih =>
    rw [drainLoopOver, drainLoop]
    cases b.triggeredStops with
    | nil => rfl
    | cons stop rest =>
      simp only
      split_ifs
      · rfl
      · set popped : Book := { b with triggeredStops := rest }
        -- While stops are drained, the inner trigger only wakes them.
        have hfire : ((popped.emit (stop.event .stopTriggered now)).addOrderCoreWith
            (triggerOver inner) stop.firedOrder now false).1 = popped.fireStop stop now := by
          refine congrArg Prod.fst (addOrderCoreWith_congr _ (fun low high b' hb' => ?_) false)
          exact triggerOver_of_draining inner (hb'.trans hdrain) low high now
        rw [hfire]
        refine ih ?_
        exact (grows_addOrderCoreWith (fun low high _ b => grows_wakeStops low high b) _ _ _
          _).drainingStops.trans hdrain

/-- **Calls do not nest deeper.** What a third nested `check_and_trigger_stops` would do makes no
difference: there is none. -/
theorem triggerOver_triggerOver (inner : ℤ → ℤ → ℤ → Book → Book) :
    triggerOver (triggerOver inner) = checkAndTriggerStops := by
  funext low high now b
  rw [triggerOver, checkAndTriggerStops]
  split_ifs
  · rfl
  · simp only
    split_ifs
    · rfl
    · rw [drainLoopOver_triggerOver inner _ rfl]

/-! ## Runs -/

/-- **Cascades end, stay flat, and fire each stop once.** A call fires no more stops than were dormant
when it began, and the drain loop ends within as many firings. What a firing triggers returns without
draining. In a whole run no stop fires twice. -/
theorem cascades_end (cfg : Config) (calls : List Call) (c : Call)
    (hfits : ((Book.make cfg).run (calls ++ [c])).Fits) :
    let b := (Book.make cfg).run calls
    firings (b.emitted c) ≤ b.dormant.length ∧
    (∀ (b : Book) (low high now : ℤ), b.drainingStops = false → b.halted = false →
      ∃ n ≤ b.pendingStops, ∃ b',
        Drains now n { b.wakeStops low high with drainingStops := true } b' ∧
        b'.triggeredStops = [] ∧
        checkAndTriggerStops low high now b = { b' with drainingStops := false }) ∧
    (∀ inner, triggerOver (triggerOver inner) = checkAndTriggerStops) ∧
    ∀ id, firingsOf id (b.call c).events ≤ 1 := by
  have hrun : (Book.make cfg).run (calls ++ [c]) = ((Book.make cfg).run calls).call c := by
    rw [run_append]
    rfl
  have hall := run_refines cfg (calls ++ [c]) hfits
  rw [hrun] at hfits
  intro b
  have h : b.Refines ((Market.make cfg).run calls) :=
    run_refines cfg calls ((grows_call _ c).fits hfits)
  refine ⟨?_, fun b low high now hdrain hhalt => checkAndTriggerStops_drains hdrain hhalt low high now,
    triggerOver_triggerOver, fun id => ?_⟩
  · -- The firings are counted on the market, whose dormant stops are those of the book.
    obtain ⟨es, hes, hcount⟩ := Market.firings_call c (reachable_run cfg calls).wf h.fifo
    unfold emitted
    rw [(h.call c hfits).represents.session, h.represents.session, hes, List.drop_left,
      h.represents.dormant_perm.length_eq]
    exact hcount
  · rw [hrun] at hall
    rw [hall.represents.session, ← Market.fires_account]
    refine (Market.fires_rules.run cfg (calls ++ [c]) fun _ _ => trivial).account_of
      (P := fun n => n ≤ 1) (reachable_run cfg (calls ++ [c])).wf (Nat.zero_le 1)
      (fun _ _ _ h => h) (fun _ _ h => ?_) (fun _ _ h => h) id
    rw [show _ = 0 from h]
    exact Nat.zero_le 1

/-- A sell at 100 wakes one stop, which wakes another. -/
theorem cascades_end_two :
    let b := (Book.make { poolCapacity := 4 }).run
      [.addOrder { id := 1, ownerId := 1, side := .buy, type := .limit, price := some 100,
                   quantity := 1 } 0,
       .addOrder { id := 2, ownerId := 1, side := .buy, type := .limit, price := some 99,
                   quantity := 2 } 0,
       .placeStopOrder { id := 3, ownerId := 2, side := .sell, stopPrice := 100, quantity := 1 } 0,
       .placeStopOrder { id := 4, ownerId := 2, side := .sell, stopPrice := 99, quantity := 1 } 0]
    let c := Call.addOrder { id := 5, ownerId := 2, side := .sell, type := .market, price := none,
                             quantity := 1 } 1
    firings (b.emitted c) ≤ b.dormant.length ∧
    (∀ (b : Book) (low high now : ℤ), b.drainingStops = false → b.halted = false →
      ∃ n ≤ b.pendingStops, ∃ b',
        Drains now n { b.wakeStops low high with drainingStops := true } b' ∧
        b'.triggeredStops = [] ∧
        checkAndTriggerStops low high now b = { b' with drainingStops := false }) ∧
    (∀ inner, triggerOver (triggerOver inner) = checkAndTriggerStops) ∧
    ∀ id, firingsOf id (b.call c).events ≤ 1 :=
  cascades_end { poolCapacity := 4 } _ _ (fits_run rfl _)

end Book

end OrderBookEngine
