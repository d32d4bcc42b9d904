import OrderBookEngine.Lib.History
import OrderBookEngine.Market.Events

/-!
# The trades of a stream

Only the trade step of a walk prints a `Trade` event (`Step.prints`). So what holds of a walk whenever
it meets an order holds of every trade of a run, given the stream before it (`each_trade`), and every
trade of a run is one that the walk of an entry makes (`run_trades`). The last
trade price of a market is that of the last trade printed, but for the walk under way (`Prints`).
-/

namespace OrderBookEngine

/-- The price of the last trade in a stream of events. -/
def lastPrinted (events : List EngineEvent) : Option ℤ :=
  (events.filter fun e => e.kind = .trade).getLast?.bind EngineEvent.price

namespace Market

variable {m : Market} {now : ℤ} {s s' : Stage} {C : Call → Prop} {I J : Stage → Prop}

/-! ## What prints a trade -/

/-- A step prints no trade, or it is the trade of a walk with the order that it meets. -/
theorem Step.prints (hstep : Step now s s') :
    (∃ es, s'.market.events = s.market.events ++ es ∧ ∀ e ∈ es, e.kind ≠ .trade) ∨
      ∃ w x xs outside breach, s = .walking w ∧ s' = .walking (w.trade now x xs outside breach) ∧
        w.Meets x xs ∧ w.market.bandDecision now w.breachLevel x.price = .print outside breach := by
  -- All other steps emit one event of another kind, or none.
  have hone : ∀ {m' : Market} {e : EngineEvent}, e.kind ≠ .trade → m'.events = s.market.events ++ [e] →
      ∃ es, m'.events = s.market.events ++ es ∧ ∀ e ∈ es, e.kind ≠ .trade := fun hk hevents =>
    ⟨_, hevents, fun e he => List.mem_singleton.mp he ▸ hk⟩
  have hnone : ∀ {m' : Market}, m'.events = s.market.events →
      ∃ es, m'.events = s.market.events ++ es ∧ ∀ e ∈ es, e.kind ≠ .trade := fun hevents =>
    ⟨[], by rw [hevents, List.append_nil], by simp⟩
  cases hstep with
  | trade meets band => exact Or.inr ⟨_, _, _, _, _, rfl, rfl, meets, band⟩
  | reenter => exact Or.inl (hone (by simp [Order.event]) rfl)
  | halt meets band => exact Or.inl (hone (by simp [Order.event]) rfl)
  | limit meets band => exact Or.inl (hnone rfl)
  | filled quantity => exact Or.inl (hnone rfl)
  | rest quantity type runOut room =>
    exact Or.inl (hone (by simp [Order.event]) (events_restOrder room))
  | expire quantity => exact Or.inl (hone (by simp [Order.event]) rfl)
  | restAtBandEdge type valid room =>
    exact Or.inl (hone (by simp [Order.event]) (events_restOrder room))
  | expireStopped => exact Or.inl (hone (by simp [Order.event]) rfl)
  | finish => exact Or.inl (hnone rfl)
  | @absorb m trades _ last last_eq =>
    exact Or.inl (hnone (events_absorb m trades last))
  | fire fifo halted => exact Or.inl (hone (by simp [StopOrder.event]) rfl)
  | sendBack halted => exact Or.inl (hnone rfl)

/-- What a call does prints no trade. -/
theorem Acts.prints {c : Call} (hact : Acts m c s) :
    ∃ es, s.market.events = m.events ++ es ∧ ∀ e ∈ es, e.kind ≠ .trade := by
  have hone : ∀ {e : EngineEvent}, e.kind ≠ .trade → ∀ {events}, events = m.events ++ [e] →
      ∃ es, events = m.events ++ es ∧ ∀ e ∈ es, e.kind ≠ .trade := fun hk _ hevents =>
    ⟨_, hevents, fun e he => List.mem_singleton.mp he ▸ hk⟩
  cases hact with
  | refuse kind => exact ⟨[], (List.append_nil _).symm, by simp⟩
  | reject => exact hone (by simp) rfl
  | rejectStop => exact hone (by simp) rfl
  | placeStop fresh valid ahead => exact hone (by simp [StopOrder.event]) rfl
  | cancelStop found => exact hone (by simp [StopOrder.event]) rfl
  | modifyStop found valid ahead => exact hone (by simp [StopOrder.event]) rfl
  | _ => exact hone (by simp [Order.event]) rfl

/-! ## Every trade of a run -/

/-- A property of every trade of a stream, given the stream before it. -/
def EachTrade (Q : List EngineEvent → EngineEvent → Prop) (events : List EngineEvent) : Prop :=
  History.Each (fun before e => e.kind = .trade → Q before e) events

/-- Events that are no trades do not matter. -/
theorem EachTrade.append {Q : List EngineEvent → EngineEvent → Prop} {events es : List EngineEvent}
    (h : EachTrade Q events) (hes : ∀ e ∈ es, e.kind ≠ .trade) : EachTrade Q (events ++ es) :=
  History.Each.append h fun _ e he hk => absurd hk (hes e he)

/-- Properties that calls keep, together. -/
theorem CallInvariant.and (hI : CallInvariant C I) (hJ : CallInvariant C J) :
    CallInvariant C fun s => I s ∧ J s where
  resume hwf hhalt huntil h := ⟨hI.resume hwf hhalt huntil h.1, hJ.resume hwf hhalt huntil h.2⟩
  act hc hwf hfifo hact h := ⟨hI.act hc hwf hfifo hact h.1, hJ.act hc hwf hfifo hact h.2⟩
  step hwf hstep h := ⟨hI.step hwf hstep h.1, hJ.step hwf hstep h.2⟩

/-- What all reachable stages have, calls keep. -/
theorem Invariant.calls {cfg : Config} (hI : Invariant cfg I) : CallInvariant C I where
  resume _ hhalt _ h := hI.resume hhalt h
  act _ _ hfifo hact h := hI.act hfifo hact h
  step _ hstep h := hI.step hstep h

/-- **Every trade.** What holds when a walk meets an order holds of every trade. -/
theorem CallInvariant.each_trade {Q : List EngineEvent → EngineEvent → Prop}
    (hI : CallInvariant C I)
    (htrade : ∀ {w : Walk} {x : RestingOrder} {xs : List RestingOrder} {now : ℤ}
      {outside breach : Option ℤ}, Stage.Wf (.walking w) → I (.walking w) → w.Meets x xs →
      w.market.bandDecision now w.breachLevel x.price = .print outside breach →
      Q w.market.events ((tradeEvent (w.nextTrade now x)).numbered w.market.nextSeq)) :
    CallInvariant C fun s => I s ∧ EachTrade Q s.market.events where
  resume {m now} hwf hhalt huntil h := by
    refine ⟨hI.resume hwf hhalt huntil h.1, EachTrade.append h.2 fun e he => ?_⟩
    rw [List.mem_singleton.mp he]
    simp
  act hc hwf hfifo hact h := by
    obtain ⟨es, hes, hkinds⟩ := hact.prints
    refine ⟨hI.act hc hwf hfifo hact h.1, ?_⟩
    rw [hes]
    exact EachTrade.append h.2 hkinds
  step {s s' now} hwf hstep h := by
    refine ⟨hI.step hwf hstep h.1, ?_⟩
    -- A step prints nothing, or the trade of a fill.
    rcases hstep.prints with ⟨es, hes, hkinds⟩ | ⟨w, x, xs, outside, breach, rfl, rfl, hmeets, hband⟩
    · rw [hes]
      exact EachTrade.append h.2 hkinds
    · show EachTrade Q (w.trade now x xs outside breach).market.events
      rw [w.events_trade]
      exact History.each_concat.mpr ⟨h.2, fun _ => htrade hwf h.1 hmeets hband⟩

/-- The trades of a run. -/
theorem CallInvariant.run_trades {Q : List EngineEvent → EngineEvent → Prop} {cfg : Config}
    (hI : CallInvariant (fun _ => True) fun s => I s ∧ EachTrade Q s.market.events)
    (hstart : I (.idle (make cfg))) (calls : List Call) :
    EachTrade Q ((make cfg).run calls).events :=
  (hI.run calls (fun _ _ => trivial) (wf_make cfg) rfl ⟨hstart, History.each_nil⟩).1.2

/-! ## Every trade is a walk's -/

/-- A `Trade` event that one of the entries prints, after the stream before it. -/
def TradeOf (entries : List (Entry Market)) (before : List EngineEvent) (e : EngineEvent) : Prop :=
  ∃ entry ∈ entries, ∃ w x, (w, x) ∈ entry.traded ∧ w.market.events = before ∧
    e = (tradeEvent (w.nextTrade entry.now x)).numbered w.market.nextSeq

/-- The trades of a walk are with the orders that it trades with. -/
theorem walkLoop_trades {Q : List EngineEvent → EngineEvent → Prop} (xs : List RestingOrder)
    {w : Walk} (h : EachTrade Q w.market.events)
    (htraded : ∀ p ∈ traded now xs w,
      Q p.1.market.events ((tradeEvent (p.1.nextTrade now p.2)).numbered p.1.market.nextSeq)) :
    EachTrade Q (walkLoop now xs w).1.market.events := by
  induction xs generalizing w with
  | nil => exact h
  | cons x xs ih =>
    rw [traded] at htraded
    rw [walkLoop]
    split_ifs at htraded ⊢
    · exact h
    · exact h
    · exact h
    · exact h
    · cases hband : w.market.bandDecision now w.breachLevel x.price with
      | halt =>
        obtain ⟨e, hk, hevents⟩ := w.events_halt x now
        show EachTrade Q (w.halt x now).market.events
        rw [hevents]
        exact h.append fun e' he' => by simp [List.mem_singleton.mp he', hk]
      | limit => exact h
      | print outside breach =>
        simp only [hband] at htraded ⊢
        -- The first trade satisfies the condition now, those behind it from the next walk on.
        refine ih ?_ fun p hp => htraded p (List.mem_cons_of_mem _ hp)
        rw [w.events_trade]
        exact History.each_concat.mpr ⟨h, fun _ => htraded (w, x) List.mem_cons_self⟩

/-- An order walks with its own fields, up to the quantities. -/
theorem traded_incoming (now : ℤ) (xs : List RestingOrder) {w : Walk} {p : Walk × RestingOrder}
    (hp : p ∈ traded now xs w) :
    ∃ quantity filled, p.1.incoming = { w.incoming with quantity, filled } := by
  induction xs generalizing w with
  | nil => cases hp
  | cons x xs ih =>
    rw [traded] at hp
    split_ifs at hp
    · cases hp
    · cases hp
    · cases hp
    · cases hp
    · cases hband : w.market.bandDecision now w.breachLevel x.price with
      | halt => simp [hband] at hp
      | limit => simp [hband] at hp
      | print outside breach =>
        simp only [hband] at hp
        rcases List.mem_cons.mp hp with rfl | hp
        · exact ⟨w.incoming.quantity, w.incoming.filled, rfl⟩
        · obtain ⟨quantity, filled, h⟩ := ih hp
          exact ⟨quantity, filled, h⟩

/-- A stream that is longer by events that are no trades. -/
def NoTrade (before after : List EngineEvent) : Prop :=
  ∃ es, after = before ++ es ∧ ∀ e ∈ es, e.kind ≠ .trade

/-- Nothing is appended. -/
theorem NoTrade.refl (events : List EngineEvent) : NoTrade events events :=
  ⟨[], (List.append_nil _).symm, by simp⟩

/-- One event that is no trade. -/
theorem NoTrade.one (events : List EngineEvent) {e : EngineEvent} (he : e.kind ≠ .trade) :
    NoTrade events (events ++ [e]) :=
  ⟨[e], rfl, fun _ he' => List.mem_singleton.mp he' ▸ he⟩

/-- An order expires without a trade. -/
theorem expire_prints (m : Market) (order : Order) (trades : List Trade) (why : RejectReason)
    (now : ℤ) : NoTrade m.events (m.expire order trades why now).1.events :=
  NoTrade.one m.events (e := (order.event .expired now).numbered m.nextSeq) (by simp [Order.event])

/-- An order comes to rest without a trade. -/
theorem restOrder_prints {m' : Market} {order : Order} (h : m.restOrder order now = some m') :
    NoTrade m.events m'.events := by
  rw [events_restOrder h]
  exact NoTrade.one _ (by simp [Order.event])

/-- At the edge of the band the remainder rests or expires without a trade. -/
theorem restAtBandEdge_prints (m : Market) (order : Order) (trades : List Trade)
    (why : RejectReason) (now : ℤ) :
    NoTrade m.events (m.restAtBandEdge order trades why now).1.events := by
  unfold restAtBandEdge
  simp only
  split_ifs
  · cases hr : m.restOrder (m.atBandEdge order) now with
    | none => exact expire_prints ..
    | some m' => exact restOrder_prints hr
  · exact expire_prints ..
  · exact expire_prints ..
  · exact NoTrade.refl _

/-- A walk that has run out ends without a trade. -/
theorem runOut_prints (m : Market) (order : Order) (trades : List Trade) (why : RejectReason)
    (now : ℤ) : NoTrade m.events (m.runOut order trades why now).1.events := by
  unfold runOut
  split_ifs
  · cases hr : m.restOrder order now with
    | none => exact expire_prints ..
    | some m' => exact restOrder_prints hr
  · exact expire_prints ..
  · exact NoTrade.refl _

/-- Settling a remainder prints no trade. -/
theorem settle_prints (w : Walk) (ending : WalkEnd) (now : ℤ) :
    NoTrade w.market.events (settle w ending now).1.events := by
  have hmark : (w.market.markIfFilled w.incoming).events = w.market.events := by
    unfold markIfFilled
    split_ifs <;> rfl
  rw [← hmark]
  unfold settle
  cases ending with
  | halted => exact restAtBandEdge_prints ..
  | bandLimited => exact restAtBandEdge_prints ..
  | selfTrade => exact expire_prints ..
  | collar => exact runOut_prints ..
  | exhausted => exact runOut_prints ..

/-- A step that no order walks prints no trade. -/
theorem TradeOf.step {L : List (Entry Market)} (hstep : Step now s s') (hs : ¬ s.Walks)
    (h : EachTrade (TradeOf L) s.market.events) : EachTrade (TradeOf L) s'.market.events := by
  rcases hstep.prints with ⟨es, hes, hkinds⟩ | ⟨w, x, xs, outside, breach, rfl, -⟩
  · rw [hes]
    exact h.append hkinds
  · exact absurd trivial hs

/-- The steps between two walks print no trade. -/
theorem carried_trades (now : ℤ) (L : List (Entry Market)) :
    Carried now fun s => s.Wf ∧ EachTrade (TradeOf L) s.market.events where
  wf h := h.1
  reenter {m order} h := by
    have hstep : Step now (.entering m order) _ := .reenter
    exact ⟨h.1.step hstep, TradeOf.step hstep id h.2⟩
  finish h := ⟨h.1.step (Step.finish : Step now _ _), h.2⟩
  absorb {m trades unaccepted last} hlast h := by
    have hstep : Step now (.settled m trades unaccepted) _ := .absorb hlast
    exact ⟨h.1.step hstep, TradeOf.step hstep id h.2⟩
  fire hfifo hhalt h := by
    have hstep : Step now _ _ := .fire hfifo hhalt
    exact ⟨h.1.step hstep, TradeOf.step hstep id h.2⟩
  sendBack hhalt h := ⟨h.1.step (Step.sendBack hhalt : Step now _ _), h.2⟩

/-- A walk prints the trades of its own entry. -/
theorem carries_trades (now : ℤ) {L entries : List (Entry Market)} (hsub : ∀ e ∈ entries, e ∈ L) :
    Carries now (fun s => s.Wf ∧ EachTrade (TradeOf L) s.market.events) entries := by
  rintro ⟨m, order, now⟩ he rfl ⟨hwf, h⟩
  refine ⟨(walk_steps now hwf).1.steps.wf hwf, ?_⟩
  obtain ⟨es, hes, hkinds⟩ := settle_prints
    (walkLoop now (m.queue order.side.opposite) { market := m, incoming := order }).1
    (walkLoop now (m.queue order.side.opposite) { market := m, incoming := order }).2 now
  show EachTrade (TradeOf L) (m.walk order now).1.events
  unfold walk
  simp only
  rw [hes]
  refine EachTrade.append ?_ hkinds
  exact walkLoop_trades _ h fun p hp => ⟨_, hsub _ he, p.1, p.2, hp, rfl, rfl⟩

/-- Each trade of a call is of one of its walks. -/
theorem call_trades (c : Call) (hwf : m.Wf []) (hfifo : m.fifo = []) {L : List (Entry Market)}
    (hsub : ∀ e ∈ m.callEntries c, e ∈ L) (h : EachTrade (TradeOf L) m.events) :
    EachTrade (TradeOf L) (m.call c).events := by
  obtain ⟨m₀, s, hresumes, hact, hchain⟩ := call_chain c hwf hfifo
  have h₀ : EachTrade (TradeOf L) m₀.events := by
    obtain ⟨es, hes, hkinds⟩ := hresumes.events
    rw [hes]
    exact h.append fun e he => by simp [hkinds e he]
  have hs : EachTrade (TradeOf L) s.market.events := by
    obtain ⟨es, hes, hkinds⟩ := hact.prints
    rw [hes]
    exact h₀.append hkinds
  have hswf := (hwf.resumes hresumes).act (hresumes.fifo.trans hfifo) hact
  exact (hchain _ (carried_trades c.now L) (carries_trades c.now hsub) ⟨hswf, hs⟩).1.2

/-- **Whose trades.** Every trade of a run is printed by one of its entries. -/
theorem run_trades (calls : List Call) (hwf : m.Wf []) (hfifo : m.fifo = [])
    {L : List (Entry Market)} (hsub : ∀ e ∈ m.runEntries calls, e ∈ L)
    (h : EachTrade (TradeOf L) m.events) : EachTrade (TradeOf L) (m.run calls).events := by
  induction calls generalizing m with
  | nil => exact h
  | cons c calls ih =>
    refine ih (wf_call c hwf hfifo) (fifo_call m c hfifo)
      (fun e he => hsub e (List.mem_append_right _ he)) ?_
    exact call_trades c hwf hfifo (fun e he => hsub e (List.mem_append_left _ he)) h

/-! ## The last trade price -/

/-- The last trade price is that of the last trade absorbed. -/
def Prints (s : Stage) : Prop :=
  lastPrinted s.market.events = ((s.trades.getLast?.map Trade.price).or s.market.lastTradePrice)

/-- Events that are no trades do not change the last price. -/
theorem lastPrinted_append (events es : List EngineEvent) (hes : ∀ e ∈ es, e.kind ≠ .trade) :
    lastPrinted (events ++ es) = lastPrinted events := by
  have hnil : es.filter (fun e => e.kind = .trade) = [] :=
    List.filter_eq_nil_iff.mpr fun e he => by simpa using hes e he
  rw [lastPrinted, List.filter_append, hnil, List.append_nil]
  rfl

/-- A trade prints its price. -/
theorem lastPrinted_trade (events : List EngineEvent) {e : EngineEvent} (he : e.kind = .trade) :
    lastPrinted (events ++ [e]) = e.price := by
  rw [lastPrinted, List.filter_append]
  simp [he]

/-- Events that are no trades keep it. -/
theorem Prints.note (h : Prints s) (es : List EngineEvent)
    (hevents : s'.market.events = s.market.events ++ es) (hes : ∀ e ∈ es, e.kind ≠ .trade)
    (hlast : s'.market.lastTradePrice = s.market.lastTradePrice) (htrades : s'.trades = s.trades) :
    Prints s' := by
  rw [Prints, hevents, lastPrinted_append _ _ hes, hlast, htrades]
  exact h

/-- A step prints a trade that joins those of its walk, or moves the last trade price to the last of them. -/
theorem Prints.step (hstep : Step now s s') (h : Prints s) : Prints s' := by
  cases hstep with
  | reenter => exact h.note [_] rfl (by simp [Order.event]) rfl rfl
  | @trade w x xs outside breach meets band =>
    rw [Prints, show (Stage.walking _).market.events = _ from w.events_trade now x xs outside breach,
      lastPrinted_trade _ rfl]
    show _ = (((w.trades ++ [w.nextTrade now x]).getLast?.map Trade.price).or _)
    rw [List.getLast?_append]
    rfl
  | halt meets band => exact h.note [_] rfl (by simp [Order.event]) rfl rfl
  | limit meets band => exact h
  | filled quantity => exact h
  | rest quantity type runOut room =>
    exact h.note [_] (events_restOrder room) (by simp [Order.event]) (lastTradePrice_restOrder room) rfl
  | expire quantity => exact h.note [_] rfl (by simp [Order.event]) rfl rfl
  | restAtBandEdge type valid room =>
    exact h.note [_] (events_restOrder room) (by simp [Order.event]) (lastTradePrice_restOrder room) rfl
  | expireStopped => exact h.note [_] rfl (by simp [Order.event]) rfl rfl
  | finish => exact h
  | @absorb m trades _ last last_eq =>
    have hsession := toSession_absorb m trades last
    -- The last trade of the walk is what the stream has printed last.
    have hprints : lastPrinted m.events = ((trades.getLast?.map Trade.price).or m.lastTradePrice) := h
    show lastPrinted (m.absorb trades last).events = (m.absorb trades last).lastTradePrice
    rw [hsession]
    rw [last_eq] at hprints
    exact hprints
  | fire fifo halted => exact h.note [_] rfl (by simp [StopOrder.event]) rfl rfl
  | sendBack halted => exact h

/-- The action of a call prints no trade. -/
theorem Prints.act {c : Call} (hact : Acts m c s) (h : Prints (.idle m)) : Prints s := by
  cases hact with
  | refuse kind => exact h
  | reject => exact h.note [_] rfl (by simp) rfl rfl
  | submit fresh halted valid => exact h.note [_] rfl (by simp [Order.event]) rfl rfl
  | cancel found => exact h.note [_] rfl (by simp [Order.event]) rfl rfl
  | withdraw found => exact h.note [_] rfl (by simp [Order.event]) rfl rfl
  | reduce found pos le => exact h.note [_] rfl (by simp [Order.event]) rfl rfl
  | replace halted found change valid => exact h.note [_] rfl (by simp [Order.event]) rfl rfl
  | rejectStop => exact h.note [_] rfl (by simp) rfl rfl
  | placeStop fresh valid ahead => exact h.note [_] rfl (by simp [StopOrder.event]) rfl rfl
  | cancelStop found => exact h.note [_] rfl (by simp [StopOrder.event]) rfl rfl
  | modifyStop found valid ahead => exact h.note [_] rfl (by simp [StopOrder.event]) rfl rfl

/-- In every reachable stage the last trade price is known from the stream. -/
theorem prints_invariant (cfg : Config) : Invariant cfg Prints :=
  ⟨rfl, fun _ h => h.note [_] rfl (by simp) rfl rfl, fun _ hact h => h.act hact,
    fun hstep h => h.step hstep⟩

end Market

end OrderBookEngine
