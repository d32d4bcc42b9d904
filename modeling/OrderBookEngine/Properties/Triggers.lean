import OrderBookEngine.Market.Trades
import OrderBookEngine.Refine.Run

/-!
# No stop is missed

Stops wake at the end of each walk only, by the lowest and the highest price of its trades. In
between, a call's trades are either below and above every dormant stop already, or still to be
absorbed (`Watches`); a halt suspends the check until it is lifted. So when a call ends with the
symbol not halted, no dormant stop has been reached by a trade of the call (`stops_not_reached`).
-/

namespace OrderBookEngine

/-- A stop whose trigger a price does not reach. -/
def StopOrder.Ahead (stop : StopOrder) (p : ℤ) : Prop :=
  match stop.side with
  | .sell => stop.stopPrice < p
  | .buy => p < stop.stopPrice

namespace Market

variable {m : Market} {now : ℤ} {s s' : Stage} {base : List EngineEvent}

/-! ## The range of a walk's trades -/

/-- No trade is below the lowest price. -/
theorem lowPrice_le {trades : List Trade} {last t : Trade} (ht : t ∈ trades) :
    lowPrice trades last ≤ t.price := by
  have key : ∀ (trades : List Trade) (a : ℤ),
      trades.foldl (fun low trade => min low trade.price) a ≤ a ∧
        ∀ t ∈ trades, trades.foldl (fun low trade => min low trade.price) a ≤ t.price := by
    intro trades
    induction trades with
    | nil => simp
    | cons x xs ih =>
      intro a
      obtain ⟨ha, hxs⟩ := ih (min a x.price)
      refine ⟨ha.trans (min_le_left _ _), fun t ht => ?_⟩
      rcases List.mem_cons.mp ht with rfl | ht
      · exact ha.trans (min_le_right _ _)
      · exact hxs t ht
  exact (key trades last.price).2 t ht

/-- No trade is above the highest price. -/
theorem le_highPrice {trades : List Trade} {last t : Trade} (ht : t ∈ trades) :
    t.price ≤ highPrice trades last := by
  have key : ∀ (trades : List Trade) (a : ℤ),
      a ≤ trades.foldl (fun high trade => max high trade.price) a ∧
        ∀ t ∈ trades, t.price ≤ trades.foldl (fun high trade => max high trade.price) a := by
    intro trades
    induction trades with
    | nil => simp
    | cons x xs ih =>
      intro a
      obtain ⟨ha, hxs⟩ := ih (max a x.price)
      refine ⟨(le_max_left _ _).trans ha, fun t ht => ?_⟩
      rcases List.mem_cons.mp ht with rfl | ht
      · exact (le_max_right _ _).trans ha
      · exact hxs t ht
  exact (key trades last.price).2 t ht

/-- A stop that a sweep did not touch is ahead of every price in it. -/
theorem ahead_of_not_touched {stop : StopOrder} {low high p : ℤ} (h : touched low high stop = false)
    (hlow : low ≤ p) (hhigh : p ≤ high) : stop.Ahead p := by
  rw [StopOrder.Ahead]
  rw [touched] at h
  cases hside : stop.side <;> simp only [hside, decide_eq_false_iff_not] at h ⊢ <;> omega

/-! ## A call's trades -/

/-- Every dormant stop is ahead of a price. -/
def Clear (m : Market) (p : ℤ) : Prop := ∀ stop ∈ m.stops, stop.Ahead p

/-- Unless the symbol is halted, no dormant stop has been reached by the trades since `base`, but for
those still to be absorbed. -/
def Watches (base : List EngineEvent) (s : Stage) : Prop :=
  ∃ new, s.market.events = base ++ new ∧ (s.market.halted = false → ∀ e ∈ new, e.kind = .trade →
    ∃ p, e.price = some p ∧ (s.market.Clear p ∨ ∃ t ∈ s.trades, t.price = p))

/-- A step that prints no trade and wakes no stop. -/
theorem Watches.note (h : Watches base s) (es : List EngineEvent)
    (hevents : s'.market.events = s.market.events ++ es) (hes : ∀ e ∈ es, e.kind ≠ .trade)
    (hhalt : s'.market.halted = s.market.halted) (hstops : s'.market.stops = s.market.stops)
    (htrades : s'.trades = s.trades) : Watches base s' := by
  obtain ⟨new, hnew, hclear⟩ := h
  refine ⟨new ++ es, by rw [hevents, hnew, List.append_assoc], fun hh e he hk => ?_⟩
  rcases List.mem_append.mp he with he | he
  · rw [htrades]
    simp only [Clear, hstops]
    exact hclear (hhalt.symm.trans hh) e he hk
  · exact absurd hk (hes e he)

/-- A halt suspends the check. -/
theorem Watches.halted (h : Watches base s) (es : List EngineEvent)
    (hevents : s'.market.events = s.market.events ++ es) (hhalt : s'.market.halted = true) :
    Watches base s' := by
  obtain ⟨new, hnew, -⟩ := h
  exact ⟨new ++ es, by rw [hevents, hnew, List.append_assoc], by simp [hhalt]⟩

/-- What a step does to the stops that a call's trades have reached. -/
theorem Watches.step (hstep : Step now s s') (h : Watches base s) : Watches base s' := by
  cases hstep with
  | reenter => exact h.note [_] rfl (by simp [Order.event]) rfl rfl rfl
  | @trade w x xs outside breach meets band =>
    obtain ⟨new, hnew, hclear⟩ := h
    have hevents := w.events_trade now x xs outside breach
    have hstops := (w.stops_trade now x xs outside breach).1
    refine ⟨new ++ [(tradeEvent (w.nextTrade now x)).numbered w.market.nextSeq], ?_,
      fun hh e he hk => ?_⟩
    · exact hevents.trans (by rw [show w.market.events = base ++ new from hnew, List.append_assoc])
    · rcases List.mem_append.mp he with he | he
      · obtain ⟨p, hp, hcl | ⟨t, ht, htp⟩⟩ := hclear ((w.halted_trade ..).symm.trans hh) e he hk
        · refine ⟨p, hp, Or.inl ?_⟩
          rw [Clear]
          exact fun stop hstop => hcl stop (hstops ▸ hstop)
        · exact ⟨p, hp, Or.inr ⟨t, List.mem_append_left _ ht, htp⟩⟩
      · rw [List.mem_singleton.mp he]
        exact ⟨_, rfl, Or.inr ⟨_, List.mem_append_right _ (List.mem_singleton_self _), rfl⟩⟩
  | halt meets band => exact h.halted [_] rfl rfl
  | limit meets band => exact h.note [] (List.append_nil _).symm (by simp) rfl rfl rfl
  | filled quantity => exact h.note [] (List.append_nil _).symm (by simp) rfl rfl rfl
  | rest quantity type runOut room =>
    exact h.note [_] (events_restOrder room) (by simp [Order.event]) (halted_restOrder room)
      (restOrder_stops room).1 rfl
  | expire quantity => exact h.note [_] rfl (by simp [Order.event]) rfl rfl rfl
  | restAtBandEdge type valid room =>
    exact h.note [_] (events_restOrder room) (by simp [Order.event]) (halted_restOrder room)
      (restOrder_stops room).1 rfl
  | expireStopped => exact h.note [_] rfl (by simp [Order.event]) rfl rfl rfl
  | finish => exact h.note [] (List.append_nil _).symm (by simp) rfl rfl rfl
  | @absorb m trades _ last last_eq =>
    obtain ⟨new, hnew, hclear⟩ := h
    have hsession := toSession_absorb m trades last
    refine ⟨new, ?_, fun hh e he hk => ?_⟩
    · show (m.absorb trades last).events = _
      rw [hsession]
      exact hnew
    · have hhalt : m.halted = false := by
        have : (m.absorb trades last).halted = false := hh
        rwa [hsession] at this
      obtain ⟨p, hp, hcl⟩ := hclear hhalt e he hk
      refine ⟨p, hp, Or.inl ?_⟩
      show ∀ stop ∈ (m.absorb trades last).stops, stop.Ahead p
      rw [stops_absorb trades last hhalt]
      intro stop hstop
      obtain ⟨hmem, hout⟩ := List.mem_filter.mp hstop
      have hout : touched (lowPrice trades last) (highPrice trades last) stop = false := by
        simpa using hout
      -- The stops that the sweep did not reach are ahead of each of its trades.
      rcases hcl with hcl | ⟨t, ht, rfl⟩
      · exact hcl stop hmem
      · exact ahead_of_not_touched hout (lowPrice_le ht) (le_highPrice ht)
  | fire fifo halted => exact h.note [_] rfl (by simp [StopOrder.event]) rfl rfl rfl
  | sendBack halted => exact h.halted [] (List.append_nil _).symm halted

/-- A call acts before any of its trades. -/
theorem watches_act {c : Call} (hact : Acts m c s) : Watches m.events s := by
  cases hact with
  | refuse kind => exact ⟨[], by simp [Stage.market], by simp⟩
  | reject => exact ⟨[_], rfl, by simp⟩
  | submit fresh halted valid => exact ⟨[_], rfl, by simp [Order.event]⟩
  | cancel found => exact ⟨[_], rfl, by simp [Order.event]⟩
  | withdraw found => exact ⟨[_], rfl, by simp [Order.event]⟩
  | reduce found pos le => exact ⟨[_], rfl, by simp [Order.event]⟩
  | replace halted found change valid => exact ⟨[_], rfl, by simp [Order.event]⟩
  | rejectStop => exact ⟨[_], rfl, by simp⟩
  | placeStop fresh valid ahead => exact ⟨[_], rfl, by simp [StopOrder.event]⟩
  | cancelStop found => exact ⟨[_], rfl, by simp [StopOrder.event]⟩
  | modifyStop found valid ahead => exact ⟨[_], rfl, by simp [StopOrder.event]⟩

/-- A call may resume before it acts. -/
theorem watches_call {c : Call} {m₀ : Market} (hresumes : Resumes c.now m m₀) (hact : Acts m₀ c s) :
    Watches m.events s := by
  obtain ⟨new, hnew, hclear⟩ := watches_act hact
  rcases hresumes with rfl | ⟨-, -, rfl⟩
  · exact ⟨new, hnew, hclear⟩
  · refine ⟨_ :: new, hnew.trans (List.append_assoc _ [_] _), fun hh e he hk => ?_⟩
    rcases List.mem_cons.mp he with rfl | he
    · cases hk
    · exact hclear hh e he hk

/-- When a call ends with the symbol not halted, its trades have reached no dormant stop. -/
theorem call_clear (c : Call) (hwf : m.Wf []) (hfifo : m.fifo = []) (hhalt : (m.call c).halted = false)
    {e : EngineEvent} (he : e ∈ (m.call c).events.drop m.events.length) (hk : e.kind = .trade) :
    ∃ p, e.price = some p ∧ (m.call c).Clear p := by
  obtain ⟨m₀, s, hresumes, hact, hsteps, -⟩ := call_steps c hwf hfifo
  obtain ⟨new, hnew, hclear⟩ := hsteps.invariant Watches.step (watches_call hresumes hact)
  have hnew : (m.call c).events = m.events ++ new := hnew
  rw [hnew, List.drop_left] at he
  obtain ⟨p, hp, hcl | ⟨t, ht, -⟩⟩ := hclear hhalt e he hk
  · exact ⟨p, hp, hcl⟩
  · cases ht

/-! ## Runs without a halt -/

/-- While the symbol has never been halted, every dormant stop is ahead of the last trade price. -/
def Guards (s : Stage) : Prop :=
  (∀ e ∈ s.market.events, e.kind ≠ .halted) →
    s.market.halted = false ∧ ∀ p, s.market.lastTradePrice = some p → s.market.Clear p

/-- Further events, without a change of the halt or of the last price, keep the guard. -/
theorem Guards.note (h : Guards s) (es : List EngineEvent)
    (hevents : s'.market.events = s.market.events ++ es)
    (hhalt : s'.market.halted = s.market.halted)
    (hlast : s'.market.lastTradePrice = s.market.lastTradePrice)
    (hstops : ∀ stop ∈ s'.market.stops, stop ∈ s.market.stops) : Guards s' := by
  intro hnone
  rw [hevents] at hnone
  obtain ⟨hh, hclear⟩ := h fun e he => hnone e (List.mem_append_left _ he)
  refine ⟨hhalt.trans hh, fun p hp stop hstop => hclear p (hlast.symm.trans hp) stop (hstops stop hstop)⟩

/-- One step keeps the guard. -/
theorem Guards.step (hstep : Step now s s') (h : Guards s) : Guards s' := by
  cases hstep with
  | reenter => exact h.note [_] rfl rfl rfl fun _ => id
  | @trade w x xs outside breach meets band =>
    exact h.note [_] (w.events_trade ..) (w.halted_trade ..) (w.lastTradePrice_trade ..) fun stop hs => by
      have := (w.stops_trade now x xs outside breach).1
      exact this ▸ hs
  | @halt w x xs meets band =>
    intro hnone
    -- Nothing is claimed of a stream with a halt.
    refine absurd rfl (hnone _ (List.mem_append_right w.market.events (List.mem_singleton_self _)))
  | limit meets band => exact h
  | filled quantity => exact h
  | rest quantity type runOut room =>
    exact h.note [_] (events_restOrder room) (halted_restOrder room) (lastTradePrice_restOrder room)
      fun stop hs => (restOrder_stops room).1 ▸ hs
  | expire quantity => exact h.note [_] rfl rfl rfl fun _ => id
  | restAtBandEdge type valid room =>
    exact h.note [_] (events_restOrder room) (halted_restOrder room) (lastTradePrice_restOrder room)
      fun stop hs => (restOrder_stops room).1 ▸ hs
  | expireStopped => exact h.note [_] rfl rfl rfl fun _ => id
  | finish => exact h
  | @absorb m trades _ last last_eq =>
    have hsession := toSession_absorb m trades last
    intro hnone
    have hnone : ∀ e ∈ (m.absorb trades last).events, e.kind ≠ .halted := hnone
    rw [hsession] at hnone
    have hh : m.halted = false := (h hnone).1
    -- A stop that stays behind is not touched by the range of the trades, in which the last price is.
    have hlast := List.mem_of_getLast? last_eq
    show (m.absorb trades last).halted = false ∧
      ∀ p, (m.absorb trades last).lastTradePrice = some p → (m.absorb trades last).Clear p
    rw [hsession]
    refine ⟨hh, fun p hp stop hstop => ?_⟩
    rw [stops_absorb trades last hh] at hstop
    obtain rfl : last.price = p := Option.some.inj hp
    have hout : touched (lowPrice trades last) (highPrice trades last) stop = false := by
      simpa using (List.mem_filter.mp hstop).2
    exact ahead_of_not_touched hout (lowPrice_le hlast) (le_highPrice hlast)
  | fire fifo halted => exact h.note [_] rfl rfl rfl fun _ => id
  | sendBack halted =>
    intro hnone
    -- Stops are sent back only by a halted market.
    exact absurd (h hnone).1 (by simpa [Stage.market] using halted)

/-- A stop that would not trigger now is ahead of the last trade price. -/
theorem ahead_of_wouldTriggerNow {stop : StopOrder} {p : ℤ} (hlast : m.lastTradePrice = some p)
    (h : m.wouldTriggerNow stop.side stop.stopPrice = false) : stop.Ahead p := by
  rw [Session.wouldTriggerNow, hlast] at h
  rw [StopOrder.Ahead]
  cases hside : stop.side <;> simp only [hside, decide_eq_false_iff_not] at h ⊢ <;> omega

/-- So does the begin of a call. -/
theorem Guards.act {c : Call} (hact : Acts m c s) (h : Guards (.idle m)) : Guards s := by
  cases hact with
  | refuse kind => exact h
  | reject => exact h.note [_] rfl rfl rfl fun _ => id
  | submit fresh halted valid => exact h.note [_] rfl rfl rfl fun _ => id
  | cancel found => exact h.note [_] rfl rfl rfl fun _ => id
  | withdraw found => exact h.note [_] rfl rfl rfl fun _ => id
  | reduce found pos le => exact h.note [_] rfl rfl rfl fun _ => id
  | replace halted found change valid => exact h.note [_] rfl rfl rfl fun _ => id
  | rejectStop => exact h.note [_] rfl rfl rfl fun _ => id
  -- A new or modified stop is compared with the last trade price.
  | @placeStop stop _ fresh valid ahead =>
    intro hnone
    obtain ⟨hh, hclear⟩ := h fun e he => hnone e (List.mem_append_left _ he)
    refine ⟨hh, fun p hp s hs => ?_⟩
    rcases List.mem_append.mp hs with hs | hs
    · exact hclear p hp s hs
    · rw [List.mem_singleton.mp hs]
      exact ahead_of_wouldTriggerNow hp ahead
  | cancelStop found => exact h.note [_] rfl rfl rfl fun stop hs => List.mem_of_mem_filter hs
  | modifyStop found valid ahead =>
    intro hnone
    obtain ⟨hh, hclear⟩ := h fun e he => hnone e (List.mem_append_left _ he)
    refine ⟨hh, fun p hp s hs => ?_⟩
    rcases mem_replaceStop hs with rfl | hs
    · exact ahead_of_wouldTriggerNow hp ahead
    · exact hclear p hp s hs

/-- In every stage of a run the stops are ahead. -/
theorem guards_invariant (cfg : Config) : Invariant cfg Guards :=
  ⟨fun _ => ⟨rfl, by simp [Stage.market, make]⟩, fun {m now} hhalt h hnone => by
    obtain ⟨hh, -⟩ := h fun e he => hnone e (List.mem_append_left _ he)
    exact absurd hh (by simpa [Stage.market] using hhalt), fun _ hact h => h.act hact,
    fun hstep h => h.step hstep⟩

end Market

namespace Book

/-- Both hold the same dormant stops. -/
theorem Represents.ahead {b : Book} {m : Market} (h : b.Represents m) {p : ℤ} (hm : m.Clear p) :
    ∀ stop ∈ b.dormant, stop.Ahead p := fun stop hstop => hm stop (h.dormant_perm.mem_iff.mp hstop)

/-- **No stop is missed.** When a call ends with the symbol not halted, every dormant stop is ahead of
every trade that the call has printed. In a run without a `Halted` event, every dormant stop is ahead
of the last trade price, which is the price of the last trade printed. -/
theorem stops_not_reached (cfg : Config) (calls : List Call) (c : Call)
    (hfits : ((Book.make cfg).run (calls ++ [c])).Fits) :
    let b := (Book.make cfg).run calls
    let b' := b.call c
    (b'.halted = false → ∀ e ∈ b.emitted c, e.kind = .trade →
        ∃ p, e.price = some p ∧ ∀ stop ∈ b'.dormant, stop.Ahead p) ∧
      ((∀ e ∈ b'.events, e.kind ≠ .halted) →
        ∀ p, b'.lastTradePrice = some p → ∀ stop ∈ b'.dormant, stop.Ahead p) ∧
      b'.lastTradePrice = lastPrinted b'.events := by
  have hrun : (Book.make cfg).run (calls ++ [c]) = ((Book.make cfg).run calls).call c := by
    rw [run_append]
    rfl
  rw [hrun] at hfits
  have h := run_refines cfg calls ((grows_call _ c).fits hfits)
  have h' := h.call c hfits
  have hreach := reachable_run cfg calls
  have hreach' := hreach.call h.fifo c
  intro b b'
  have hsession : b'.toSession = (((Market.make cfg).run calls).call c).toSession := h'.represents.session
  refine ⟨fun hhalt e he hk => ?_, fun hnone p hp => ?_, ?_⟩
  · rw [emitted, h.represents.session, show (b.call c).toSession = _ from hsession] at he
    rw [hsession] at hhalt
    obtain ⟨p, hp, hclear⟩ := Market.call_clear c hreach.wf h.fifo hhalt he hk
    exact ⟨p, hp, h'.represents.ahead hclear⟩
  · rw [hsession] at hnone hp
    exact h'.represents.ahead ((hreach'.invariant (Market.guards_invariant cfg) hnone).2 p hp)
  · rw [hsession]
    exact (hreach'.invariant (Market.prints_invariant cfg)).symm

/-- A sell stop at 90 sleeps through a trade at 100. -/
theorem stops_not_reached_at_100 :
    let b := (Book.make { poolCapacity := 4 }).run
      [.placeStopOrder { id := 1, ownerId := 1, side := .sell, stopPrice := 90, quantity := 5 } 0,
        .addOrder { id := 2, ownerId := 1, side := .sell, type := .limit, price := some 100,
                    quantity := 3 } 0]
    let c := Call.addOrder { id := 3, ownerId := 2, side := .buy, type := .limit, price := some 100,
                             quantity := 1 } 1
    ∀ e ∈ b.emitted c, e.kind = .trade →
      ∃ p, e.price = some p ∧ ∀ stop ∈ (b.call c).dormant, stop.Ahead p :=
  (stops_not_reached { poolCapacity := 4 } _ _ (fits_run rfl _)).1 (by decide +kernel)

end Book

end OrderBookEngine
