import OrderBookEngine.Market.Ledger
import OrderBookEngine.Market.Trades
import OrderBookEngine.Refine.Run

/-!
# Price protection

The limit of an order is the price that it was last accepted with (`limitOf`). What the book stores
may be less aggressive, at the edge of the band, but is never more so (`limits`). A market order has
no limit; with the collar on, its trades keep to the collar around the last trade before its walk.
-/

namespace OrderBookEngine

/-- A price that is no worse than a limit, for an order of a side. -/
def Side.Within (side : Side) (p limit : ℤ) : Prop :=
  match side with
  | .buy => p ≤ limit
  | .sell => limit ≤ p

/-- What an event does to the limit of an id. -/
def limitAfter (id : OrderId) (limit : Option ℤ) (e : EngineEvent) : Option ℤ :=
  if (e.kind = .accepted ∨ e.kind = .modified) ∧ e.orderId = id then e.price else limit

/-- The price that an order was last accepted with, as new or as modified. A market order has none. -/
def limitOf (id : OrderId) (events : List EngineEvent) : Option ℤ := events.foldl (limitAfter id) none

/-- Only an acceptance or a modification sets a limit. -/
theorem limitAfter_of_kind {id : OrderId} {limit : Option ℤ} {e : EngineEvent}
    (h : e.kind ≠ .accepted ∧ e.kind ≠ .modified) : limitAfter id limit e = limit :=
  if_neg fun hk => hk.1.elim h.1 h.2

/-- An acceptance or a modification sets the limit of its own order. -/
theorem limitAfter_of_accepted {id : OrderId} {limit : Option ℤ} {e : EngineEvent}
    (h : e.kind = .accepted ∨ e.kind = .modified) (hid : e.orderId = id) :
    limitAfter id limit e = e.price :=
  if_pos ⟨h, hid⟩

/-- The collar around a price, for a market order of a side. -/
def collarLimit (bps : ℤ) (side : Side) (reference : ℤ) : ℤ :=
  match side with
  | .buy => (reference * (10000 + bps)).tdiv 10000
  | .sell => (reference * (10000 - bps) + 9999).tdiv 10000

/-- A trade keeps to the protection of both parties. -/
structure Protects (collarBps : ℤ) (before : List EngineEvent) (e : EngineEvent) : Prop where
  /-- The price is within the limit of the passive order. -/
  passive : ∃ p limit, e.price = some p ∧ limitOf e.passiveId before = some limit ∧
    e.side.opposite.Within p limit
  /-- It is within the limit of the aggressor, if it has one. -/
  aggressor : ∀ p limit, e.price = some p → limitOf e.orderId before = some limit →
    e.side.Within p limit
  /-- `acc` accepts the aggressor, so its walk began after `pre`. -/
  collar : limitOf e.orderId before = none → 0 < collarBps →
    ∃ pre acc walk, before = pre ++ acc :: walk ∧ acc.kind = .accepted ∧ acc.orderId = e.orderId ∧
      (∀ e' ∈ walk, e'.kind ≠ .accepted) ∧
      ∀ p reference, e.price = some p → lastPrinted pre = some reference →
        e.side.Within p (collarLimit collarBps e.side reference)

/-! ## Limits -/

/-- Orders rest within their limits, and walk with them. -/
def limits : Ledger (Option ℤ) where
  init := none
  after := limitAfter
  Resting side x limit := ∃ l, limit = some l ∧ side.Within x.price l
  Dormant _ _ := True
  Flying _ _ := True
  Walking order limit := limit = order.price
  Closed _ _ := True

/-- A price is within itself. -/
theorem Side.within_refl (side : Side) (p : ℤ) : side.Within p p := by cases side <;> exact le_rfl

/-- The edge of the band is no more aggressive than the limit. -/
theorem within_atBandEdge (s : Session) (order : Order) {p : ℤ} (hprice : order.price = some p) :
    order.side.Within (s.atBandEdge order).resting.price p := by
  have hedge : (s.atBandEdge order).resting.price =
      match order.side with
      | .buy => min p s.upperBandPrice
      | .sell => max p s.lowerBandPrice := by
    unfold Session.atBandEdge Order.resting
    rw [hprice]
    rfl
  rw [hedge]
  unfold Side.Within
  cases order.side with
  | buy => exact min_le_left _ _
  | sell => exact le_max_left _ _

/-- A quiet event sets no limit. -/
theorem limits_quiet {id : OrderId} {limit : Option ℤ} {e : EngineEvent}
    (h : e.kind ≠ .accepted ∧ e.kind ≠ .modified) : limits.after id limit e = limit :=
  limitAfter_of_kind h

/-- The price of a limit order is its limit. -/
theorem exists_limit {order : Order} {limit : Option ℤ} (h : limits.Walking order limit)
    (htype : order.type = .limit) (hpriced : Market.Priced order) :
    ∃ p, order.price = some p ∧ limit = some p := by
  unfold Market.Priced at hpriced
  rw [htype] at hpriced
  obtain ⟨p, hprice, -⟩ := hpriced
  exact ⟨p, hprice, (show limit = order.price from h).trans hprice⟩

/-- Every step of a call keeps the limits. -/
theorem limits_rules : limits.Rules fun _ => True where
  quiet {id a e} h := by
    refine if_neg fun hk => h ?_
    unfold Names
    rcases hk.1 with hkind | hkind <;> rw [hkind] <;> exact hk.2
  submit _ _ := limitAfter_of_accepted (Or.inl rfl) rfl
  reenter _ _ := limitAfter_of_accepted (Or.inl rfl) rfl
  aggressor _ _ h := by
    rw [limits_quiet (by simp [Market.tradeEvent])]
    exact h
  passive _ _ h _ := by
    rw [limits_quiet (by simp [Market.tradeEvent])]
    exact h
  exhaust _ _ _ _ := trivial
  filled _ _ := trivial
  expire _ := trivial
  rest {order a now n} h htype hpriced _ := by
    obtain ⟨p, hprice, hlimit⟩ := exists_limit h htype hpriced
    refine ⟨p, ?_, ?_⟩
    · rw [limits_quiet (by simp [Order.event]), hlimit]
    · unfold Order.resting
      rw [hprice]
      exact order.side.within_refl p
  restAtBandEdge {s order a now n} h htype hpriced _ := by
    obtain ⟨p, hprice, hlimit⟩ := exists_limit h htype hpriced
    refine ⟨p, ?_, within_atBandEdge s order hprice⟩
    rw [limits_quiet (by simp [Order.event]), hlimit]
  fire _ := trivial
  cancel _ := trivial
  reduce {side x a quantity now n} _ _ _ :=
    ⟨x.price, limitAfter_of_accepted (Or.inr rfl) rfl, side.within_refl _⟩
  replace _ _ := trivial
  placeStop _ := trivial
  cancelStop _ := trivial
  modifyStop _ _ _ _ _ := trivial

namespace Market

variable {m : Market} {now : ℤ} {s s' : Stage} {cfg : Config}

/-! ## When a walk began -/

/-- A walk began with an acceptance, after a stream whose last trade price is still the market's. -/
def Began : Stage → Prop
  | .walking w =>
    ∃ pre acc walk, w.market.events = pre ++ acc :: walk ∧ acc.kind = .accepted ∧
      acc.orderId = w.incoming.id ∧ (∀ e ∈ walk, e.kind ≠ .accepted) ∧
      lastPrinted pre = w.market.lastTradePrice
  | _ => True

/-- A walk begins with the acceptance of its order. -/
theorem began_accept (h : lastPrinted m.events = m.lastTradePrice) (order : Order) (now : ℤ) :
    Began (.walking (m.accept order now)) :=
  ⟨m.events, (order.event .accepted now).numbered m.nextSeq, [], rfl, rfl, rfl, by simp, h⟩

/-- One step keeps where the walk began. -/
theorem Began.step (hstep : Step now s s') (hprints : Prints s) (h : Began s) : Began s' := by
  cases hstep with
  | reenter => exact began_accept hprints _ _
  | @trade w x xs outside breach meets band =>
    obtain ⟨pre, acc, walk, hevents, hk, hid, hwalk, hlast⟩ := h
    refine ⟨pre, acc, walk ++ [(tradeEvent (w.nextTrade now x)).numbered w.market.nextSeq], ?_, hk, hid,
      fun e he => ?_, hlast.trans (w.lastTradePrice_trade ..).symm⟩
    · rw [w.events_trade, hevents, List.append_assoc, List.cons_append]
    · rcases List.mem_append.mp he with he | he
      · exact hwalk e he
      · simp [List.mem_singleton.mp he, tradeEvent]
  | _ => trivial

/-- In every stage of a run the walk's beginning is known. -/
theorem began_invariant : CallInvariant (fun _ => True) fun s => Prints s ∧ Began s where
  resume _ hhalt _ h := ⟨(prints_invariant {}).resume hhalt h.1, trivial⟩
  act _ _ hfifo hact h := by
    refine ⟨h.1.act hact, ?_⟩
    cases hact with
    | submit fresh halted valid => exact began_accept h.1 _ _
    | _ => trivial
  step _ hstep h := ⟨h.1.step hstep, h.2.step hstep h.1⟩

/-! ## Every trade -/

/-- An order that reaches a price is within its limit there. -/
theorem within_of_crosses {order : Order} {p limit : ℤ} (hpriced : Priced order)
    (hlimit : order.price = some limit) (h : order.crosses p = true) : order.side.Within p limit := by
  unfold Priced at hpriced
  unfold Order.crosses at h
  unfold Side.Within
  cases htype : order.type with
  | market => simp [htype, hlimit] at hpriced
  | limit => cases hside : order.side <;> simpa [htype, hside, hlimit] using h

/-- A market order inside its collar, in a market that has traded. -/
theorem within_of_insideCollar {order : Order} {p reference : ℤ} (hwf : m.Wf [order.id])
    (htype : order.type = .market) (hcollar : 0 < m.cfg.marketCollarBps)
    (hlast : m.lastTradePrice = some reference) (h : m.insideCollar order p = true) :
    order.side.Within p (collarLimit m.cfg.marketCollarBps order.side reference) := by
  have hreference := hwf.lastTrade
  rw [hlast] at hreference
  split_ifs at hreference with hhas
  obtain rfl := Option.some.inj hreference
  unfold Session.insideCollar at h
  unfold Side.Within collarLimit
  cases hside : order.side with
  | buy =>
    simp [htype, hcollar, hhas, hside, Session.upperLimit] at h
    exact of_decide_eq_true h
  | sell =>
    simp [htype, hcollar, hhas, hside, Session.lowerLimit] at h
    exact h

/-- The protection of both parties, when a walk meets an order. -/
theorem protects_trade {w : Walk} {x : RestingOrder} {xs : List RestingOrder} (n : ℕ)
    (hwf : Stage.Wf (.walking w)) (hlimits : limits.At (.walking w)) (hbegan : Began (.walking w))
    (hmeets : w.Meets x xs) :
    Protects w.market.cfg.marketCollarBps w.market.events
      ((tradeEvent (w.nextTrade now x)).numbered n) := by
  obtain ⟨hmarket, -, hpriced, -⟩ := hwf
  obtain ⟨hholds, hwalking⟩ := hlimits
  have hx : x ∈ w.market.queue w.incoming.side.opposite := by
    rw [hmeets.queue]
    exact List.mem_cons_self
  have hlimit : limitOf w.incoming.id w.market.events = w.incoming.price := hwalking
  refine ⟨?_, fun p limit hp hl => ?_, fun hnone hcollar => ?_⟩
  · obtain ⟨l, hl, hwithin⟩ := hholds.resting _ x hx
    exact ⟨x.price, l, rfl, hl, hwithin⟩
  · obtain rfl := Option.some.inj hp
    exact within_of_crosses hpriced (hlimit.symm.trans hl) hmeets.crosses
  · have hnone : w.incoming.price = none := hlimit.symm.trans hnone
    -- An order without a limit is a market order.
    have htype : w.incoming.type = .market := by
      unfold Priced at hpriced
      cases htype : w.incoming.type with
      | market => rfl
      | limit => simp [htype, hnone] at hpriced
    obtain ⟨pre, acc, walk, hevents, hk, hid, hwalk, hlast⟩ := hbegan
    refine ⟨pre, acc, walk, hevents, hk, hid, hwalk, fun p reference hp href => ?_⟩
    obtain rfl := Option.some.inj hp
    exact within_of_insideCollar hmarket htype hcollar (hlast.symm.trans href) hmeets.insideCollar

/-- Every trade of a run keeps to the protection of both parties. -/
theorem protects_run (cfg : Config) (calls : List Call) :
    EachTrade (Protects cfg.marketCollarBps) ((make cfg).run calls).events := by
  have hinvariant := ((limits_rules.invariant.and began_invariant).and (cfg_invariant cfg).calls)
  refine CallInvariant.run_trades (hinvariant.each_trade fun {w x xs now _ _} hwf h hmeets _ => ?_)
    ⟨⟨Ledger.holds_make cfg, rfl, trivial⟩, rfl⟩ calls
  obtain ⟨⟨hlimits, -, hbegan⟩, hcfg⟩ := h
  have hcfg : w.market.cfg = cfg := hcfg
  rw [← hcfg]
  exact protects_trade _ hwf hlimits hbegan hmeets

end Market

namespace Book

/-- **Every order's price protection holds for its whole life.** No trade of a run is worse for the
passive order or for the aggressor than the limit that it was last accepted with, nor, for a market
order with the collar on, than the collar around the last trade price before its walk. -/
theorem trades_protected (cfg : Config) (calls : List Call)
    (hfits : ((Book.make cfg).run calls).Fits) :
    ∀ before e after, ((Book.make cfg).run calls).events = before ++ e :: after → e.kind = .trade →
      Protects cfg.marketCollarBps before e := by
  have h := run_refines cfg calls hfits
  rw [h.represents.session]
  exact Market.protects_run cfg calls

/-- A bid above the band rests at its edge, and a market sell meets it there. -/
theorem trades_protected_at_110 :
    let b := (Book.make { poolCapacity := 4, gracePeriodMs := 0, marketCollarBps := 2000 }).run
      [.addOrder { id := 1, ownerId := 1, side := .sell, type := .limit, price := some 100,
                   quantity := 1 } 0,
       .addOrder { id := 2, ownerId := 2, side := .buy, type := .limit, price := some 100,
                   quantity := 1 } 0,
       .addOrder { id := 3, ownerId := 1, side := .sell, type := .limit, price := some 115,
                   quantity := 1 } 0,
       .addOrder { id := 4, ownerId := 1, side := .sell, type := .limit, price := some 120,
                   quantity := 1 } 0,
       .addOrder { id := 5, ownerId := 2, side := .buy, type := .limit, price := some 130,
                   quantity := 3 } 0,
       .addOrder { id := 6, ownerId := 1, side := .sell, type := .market, price := none,
                   quantity := 1 } 50000]
    ∀ before e after, b.events = before ++ e :: after → e.kind = .trade → Protects 2000 before e :=
  trades_protected { poolCapacity := 4, gracePeriodMs := 0, marketCollarBps := 2000 } _ (fits_run rfl _)

end Book

end OrderBookEngine
