import OrderBookEngine.Engine.Spans
import OrderBookEngine.Market.Trades
import OrderBookEngine.Refine.Run

/-!
# The circuit breaker's clock

The clock of the breaker can be read off the stream (`breakerOf`): it shows the time of the first trade
out of the band since the last trade in the band or `Resumed` event, where the band of a walk's trades is
the one around the last trade before the walk. A halt is called at the fills that find the clock run out
(`Breaches`), and only at those; neither such a fill nor a later one of its plan is carried out.
-/

namespace OrderBookEngine

/-- A price out of the band of `bps` basis points around a reference. Before the first trade there is
none. -/
def outOfBand (bps : ℤ) (reference : Option ℤ) (p : ℤ) : Bool :=
  match reference with
  | none => false
  | some r => p * 10000 < r * (10000 - bps) || r * (10000 + bps) < p * 10000

/-- What a stream of events says about the breaker. -/
structure Breaker where
  /-- The price of the last trade. -/
  last : Option ℤ := none
  /-- The price of the last trade before the walk under way. -/
  reference : Option ℤ := none
  /-- The time of the first trade out of the band since the last trade in it or `Resumed` event. -/
  since : Option ℤ := none

/-- What an event does to the breaker. A walk begins with an `Accepted` event. -/
def Breaker.after (bps : ℤ) (c : Breaker) (e : EngineEvent) : Breaker :=
  match e.kind with
  | .accepted => { c with reference := c.last }
  | .trade =>
    { c with
      last := e.price
      since := if e.price.any (outOfBand bps c.reference) then c.since.or (some e.ts) else none }
  | .resumed => { c with since := none }
  | _ => c

/-- The breaker after a stream of events. -/
def breakerOf (bps : ℤ) (events : List EngineEvent) : Breaker := events.foldl (Breaker.after bps) {}

/-- A fill at a price and a time finds the clock run out, after a stream of events. -/
def Breaches (cfg : Config) (before : List EngineEvent) (now p : ℤ) : Prop :=
  outOfBand cfg.bandBps (breakerOf cfg.bandBps before).reference p = true ∧
    ∃ since, (breakerOf cfg.bandBps before).since = some since ∧ now - since ≥ cfg.gracePeriodMs

/-! ## Reading the stream -/

open Market (lastPrinted_trade lastPrinted_append tradeEvent)

variable {bps : ℤ} {events : List EngineEvent} {e : EngineEvent}

/-- One more event moves the breaker on by one step. -/
theorem breakerOf_concat (bps : ℤ) (events : List EngineEvent) (e : EngineEvent) :
    breakerOf bps (events ++ [e]) = (breakerOf bps events).after bps e := by
  unfold breakerOf
  rw [List.foldl_append]
  rfl

/-- The events that the breaker does not notice. -/
def EventKind.unnoticed : EventKind → Bool
  | .accepted | .trade | .resumed => false
  | _ => true

/-- An event that the breaker does not notice leaves it where it is. -/
theorem breakerOf_unnoticed (h : e.kind.unnoticed = true) :
    breakerOf bps (events ++ [e]) = breakerOf bps events := by
  rw [breakerOf_concat]
  unfold Breaker.after
  cases hk : e.kind <;> first | rfl | simp [hk, EventKind.unnoticed] at h

/-- The breaker knows the price of the last trade. -/
theorem breakerOf_last (bps : ℤ) (events : List EngineEvent) :
    (breakerOf bps events).last = lastPrinted events := by
  induction events using List.reverseRecOn with
  | nil => rfl
  | append_singleton events e ih =>
    rw [breakerOf_concat]
    by_cases hk : e.kind = .trade
    · rw [lastPrinted_trade _ hk]
      unfold Breaker.after
      rw [hk]
    · have hother : ((breakerOf bps events).after bps e).last = (breakerOf bps events).last := by
        unfold Breaker.after
        cases hkind : e.kind <;> first | rfl | exact absurd hkind hk
      rw [hother, ih, lastPrinted_append _ _ (by simpa using hk)]

namespace Session

variable {s : Session} {now p : ℤ}

/-- The clock and the reference of a session are those of its stream, and the reference is good. -/
structure Watched (s : Session) : Prop where
  /-- The stream tells since when the price has been outside the band. -/
  since : (breakerOf s.cfg.bandBps s.events).since = s.outsideBandSince
  /-- The stream tells the price that the band is around. -/
  reference : (breakerOf s.cfg.bandBps s.events).reference = s.lastTradePrice
  /-- The last trade price is the reference price, once there is one. -/
  last : s.lastTradePrice = if s.hasReferencePrice then some s.referencePrice else none
  /-- A reference price is positive. -/
  pos : s.hasReferencePrice = true → 0 < s.referencePrice

/-- The limits of the band are the whole prices inside the exact ones. -/
theorem withinBand_eq (hlast : s.lastTradePrice =
      if s.hasReferencePrice then some s.referencePrice else none)
    (hpos : s.hasReferencePrice = true → 0 < s.referencePrice) (p : ℤ) :
    s.withinBand p = !outOfBand s.cfg.bandBps s.lastTradePrice p := by
  rw [hlast]
  cases hhas : s.hasReferencePrice with
  | false => simp [withinBand, outOfBand, hhas]
  | true =>
    obtain ⟨hb, hb'⟩ := s.cfg.bandBps_valid
    have hr := hpos hhas
    have hlow : 0 ≤ s.referencePrice * (10000 - s.cfg.bandBps) := Int.mul_nonneg (by omega) (by omega)
    have hhigh : 0 ≤ s.referencePrice * (10000 + s.cfg.bandBps) := Int.mul_nonneg (by omega) (by omega)
    have hlower : s.lowerBandPrice = (s.referencePrice * (10000 - s.cfg.bandBps) + 9999) / 10000 :=
      Int.tdiv_eq_ediv_of_nonneg (by omega)
    have hupper : s.upperBandPrice = s.referencePrice * (10000 + s.cfg.bandBps) / 10000 :=
      Int.tdiv_eq_ediv_of_nonneg hhigh
    rw [Bool.eq_iff_iff]
    simp only [withinBand, outOfBand, hhas, if_true, Bool.not_true, Bool.false_eq_true, if_false,
      Bool.and_eq_true, decide_eq_true_eq, Bool.not_eq_true', Bool.or_eq_false_iff,
      decide_eq_false_iff_not]
    rw [hlower, hupper]
    -- What is left is division by 10000, rounded up and down.
    generalize s.referencePrice * (10000 - s.cfg.bandBps) = low at hlow
    generalize s.referencePrice * (10000 + s.cfg.bandBps) = high at hhigh
    omega

/-- **The halt.** The fill loop calls a halt exactly where the clock has run out. -/
theorem Watched.halt_iff (h : s.Watched) (breach : Option ℤ) :
    s.bandDecision now breach p = .halt ↔ Breaches s.cfg s.events now p := by
  unfold bandDecision Breaches
  rw [h.reference, h.since, withinBand_eq h.last h.pos]
  cases hout : outOfBand s.cfg.bandBps s.lastTradePrice p with
  | false => simp
  | true =>
    cases hsince : s.outsideBandSince with
    | none => simp
    | some since =>
      simp only [Bool.not_true, Bool.not_false, if_true, true_and, Option.some.injEq, exists_eq_left']
      constructor
      · intro hdecision
        by_contra hgrace
        rw [if_neg hgrace] at hdecision
        cases breach with
        | none => cases hdecision
        | some level =>
          simp only at hdecision
          split_ifs at hdecision
      · exact fun hgrace => if_pos hgrace

/-- The clock that a print leaves behind. -/
theorem clock_of_print {breach outside breach' : Option ℤ}
    (h : s.bandDecision now breach p = .print outside breach') :
    outside = if s.withinBand p then none else s.outsideBandSince.or (some now) := by
  unfold bandDecision at h
  cases hwithin : s.withinBand p with
  | true =>
    rw [hwithin] at h
    exact (BandDecision.print.inj h).1.symm
  | false =>
    simp only [hwithin, Bool.not_false, if_true] at h
    cases hsince : s.outsideBandSince with
    | none =>
      rw [hsince] at h
      exact (BandDecision.print.inj h).1.symm
    | some since =>
      simp only [hsince] at h
      split_ifs at h
      cases breach with
      | none => exact (BandDecision.print.inj h).1.symm
      | some level =>
        simp only at h
        split_ifs at h
        exact (BandDecision.print.inj h).1.symm

/-- **A print.** A trade sets, keeps or resets the clock as the fill loop does. -/
theorem Watched.print (h : s.Watched) {breach outside breach' : Option ℤ} {t : Trade}
    (hband : s.bandDecision now breach p = .print outside breach') (hprice : t.price = p)
    (hts : t.ts = now) :
    ({ s with outsideBandSince := outside }.printTrade t).Watched := by
  have hwithin := withinBand_eq h.last h.pos p
  -- The trade sets the clock of the stream to that of the decision.
  have hafter : ∀ c : Breaker, c.since = s.outsideBandSince → c.reference = s.lastTradePrice →
      (c.after s.cfg.bandBps (tradeEvent t)).since = outside := by
    intro c hsince href
    have hkind : (tradeEvent t).kind = .trade := rfl
    unfold Breaker.after
    simp only [hkind, href, hsince]
    show (if (some t.price).any (outOfBand s.cfg.bandBps s.lastTradePrice) then
      s.outsideBandSince.or (some t.ts) else none) = outside
    rw [hprice, hts, Option.any_some, clock_of_print hband, hwithin]
    cases outOfBand s.cfg.bandBps s.lastTradePrice p <;> rfl
  refine ⟨?_, ?_, h.last, h.pos⟩
  · show (breakerOf s.cfg.bandBps (s.events ++ [(tradeEvent t).numbered s.nextSeq])).since = outside
    rw [breakerOf_concat]
    exact hafter _ h.since h.reference
  · show (breakerOf s.cfg.bandBps (s.events ++ [(tradeEvent t).numbered s.nextSeq])).reference =
      s.lastTradePrice
    rw [breakerOf_concat]
    exact h.reference

end Session

namespace Market

variable {m : Market} {now : ℤ} {s s' : Stage}

/-! ## Every stage -/

/-- The stream shows the clock, and while an order walks also the reference. -/
structure Clocked (cfg : Config) (s : Stage) : Prop where
  /-- The configuration stays. -/
  cfg_eq : s.market.cfg = cfg
  /-- The stream tells since when the price has been outside the band. -/
  since : (breakerOf cfg.bandBps s.market.events).since = s.market.outsideBandSince
  /-- The stream tells the price that the band is around, up to the trades of a walk under way. -/
  reference : ∀ w, s = .walking w →
    (breakerOf cfg.bandBps w.market.events).reference = w.market.lastTradePrice

variable {cfg : Config}

/-- During a walk the session is that of the stream. -/
theorem Clocked.watched {w : Walk} (h : Clocked cfg (.walking w)) (hwf : Stage.Wf (.walking w)) :
    w.market.toSession.Watched := by
  obtain ⟨hcfg, hsince, href⟩ := h
  have hcfg : w.market.cfg = cfg := hcfg
  subst hcfg
  exact ⟨hsince, href w rfl, hwf.1.lastTrade, hwf.1.reference⟩

/-- A stage at which no order walks, after an event that the breaker does not notice. -/
theorem Clocked.note (h : Clocked cfg s) (e : EngineEvent) (hk : e.kind.unnoticed = true)
    (hevents : s'.market.events = s.market.events ++ [e]) (hcfg : s'.market.cfg = s.market.cfg)
    (hsince : s'.market.outsideBandSince = s.market.outsideBandSince) (hs : ∀ w, s' ≠ .walking w) :
    Clocked cfg s' := by
  refine ⟨hcfg.trans h.cfg_eq, ?_, fun w hw => absurd hw (hs w)⟩
  rw [hevents, breakerOf_unnoticed hk, hsince]
  exact h.since

/-- A stage at which no order walks, after no event. -/
theorem Clocked.silent (h : Clocked cfg s) (hevents : s'.market.events = s.market.events)
    (hcfg : s'.market.cfg = s.market.cfg)
    (hsince : s'.market.outsideBandSince = s.market.outsideBandSince) (hs : ∀ w, s' ≠ .walking w) :
    Clocked cfg s' := by
  refine ⟨hcfg.trans h.cfg_eq, ?_, fun w hw => absurd hw (hs w)⟩
  rw [hevents, hsince]
  exact h.since

/-- A walk begins with the last trade price for its reference. -/
theorem Clocked.accept (h : Clocked cfg s) (hlast : lastPrinted s.market.events = s.market.lastTradePrice)
    (order : Order) (now : ℤ) : Clocked cfg (.walking (s.market.accept order now)) := by
  have hbreaker : breakerOf cfg.bandBps (s.market.accept order now).market.events =
      (breakerOf cfg.bandBps s.market.events).after cfg.bandBps
        ((order.event .accepted now).numbered s.market.nextSeq) :=
    breakerOf_concat _ _ _
  refine ⟨h.cfg_eq, ?_, fun w hw => ?_⟩
  · show (breakerOf cfg.bandBps (s.market.accept order now).market.events).since = _
    rw [hbreaker]
    exact h.since
  · obtain rfl := Stage.walking.inj hw
    rw [hbreaker]
    exact (breakerOf_last _ _).trans hlast

/-- One step of a call keeps the clock. -/
theorem Clocked.step (hwf : s.Wf) (hstep : Step now s s') (hprints : Prints s) (h : Clocked cfg s) :
    Clocked cfg s' := by
  cases hstep with
  | reenter => exact h.accept hprints _ _
  | @trade w x xs outside breach meets band =>
    -- The trade sets the clock as the stream of events does, and marking the order filled leaves it.
    have hwatched := (h.watched hwf).print band (t := w.nextTrade now x) rfl rfl
    have hcfg : w.market.cfg = cfg := h.cfg_eq
    have hprinted : (w.trade now x xs outside breach).market.toSession.Watched := by
      rw [w.toSession_trade]
      simp only
      split_ifs
      · exact ⟨hwatched.since, hwatched.reference, hwatched.last, hwatched.pos⟩
      · exact hwatched
    have hcfg' : (w.trade now x xs outside breach).market.cfg = cfg := (w.cfg_trade ..).trans hcfg
    obtain ⟨hsince, href, -, -⟩ := hprinted
    rw [hcfg'] at hsince href
    refine ⟨hcfg', hsince, fun w' hw' => ?_⟩
    obtain rfl := Stage.walking.inj hw'
    exact href
  | halt meets band => exact h.note _ rfl rfl rfl rfl (by simp)
  | limit meets band => exact h.silent rfl rfl rfl (by simp)
  | filled quantity => exact h.silent rfl rfl rfl (by simp)
  | rest quantity type runOut room =>
    obtain ⟨-, rfl⟩ := restOrder_eq_some room
    exact h.note _ rfl rfl rfl rfl (by simp)
  | expire quantity => exact h.note _ rfl rfl rfl rfl (by simp)
  | restAtBandEdge type valid room =>
    obtain ⟨-, rfl⟩ := restOrder_eq_some room
    exact h.note _ rfl rfl rfl rfl (by simp)
  | expireStopped => exact h.note _ rfl rfl rfl rfl (by simp)
  | finish => exact h.silent rfl rfl rfl (by simp)
  | @absorb m trades _ last last_eq =>
    have hsession := toSession_absorb m trades last
    refine h.silent (events_absorb m trades last) ?_ ?_ (by simp)
    · show (m.absorb trades last).cfg = m.cfg
      rw [hsession]
      rfl
    · show (m.absorb trades last).outsideBandSince = m.outsideBandSince
      rw [hsession]
      rfl
  | fire fifo halted => exact h.note _ rfl rfl rfl rfl (by simp)
  | sendBack halted => exact h.silent rfl rfl rfl (by simp)

/-- A call begins with the clock as it was. -/
theorem Clocked.act {c : Call} (hact : Acts m c s) (hprints : Prints (.idle m))
    (h : Clocked cfg (.idle m)) : Clocked cfg s := by
  cases hact with
  | refuse kind => exact h
  | submit fresh halted valid => exact h.accept hprints _ _
  | _ => exact h.note _ rfl rfl rfl rfl (by simp)

/-- In every run the clock is the one that the stream tells. -/
theorem clocked_invariant (cfg : Config) :
    CallInvariant (fun _ => True) fun s => Prints s ∧ Clocked cfg s where
  resume _ hhalt _ h := by
    refine ⟨(prints_invariant {}).resume hhalt h.1, h.2.cfg_eq, ?_, by simp⟩
    show (breakerOf cfg.bandBps (_ ++ [_])).since = none
    rw [breakerOf_concat]
    rfl
  act _ _ _ hact h := ⟨h.1.act hact, h.2.act hact h.1⟩
  step hwf hstep h := ⟨h.1.step hstep, h.2.step hwf hstep h.1⟩

/-- The clock of a run, and that of every walk in it. -/
theorem clocked_run (cfg : Config) (calls : List Call) :
    Clocked cfg (.idle ((make cfg).run calls)) ∧
      ∀ e ∈ (make cfg).runEntries calls, Clocked cfg e.start := by
  have hstart : Prints (.idle (make cfg)) ∧ Clocked cfg (.idle (make cfg)) :=
    ⟨rfl, rfl, rfl, by simp⟩
  obtain ⟨hrun, hentries⟩ :=
    (clocked_invariant cfg).run calls (fun _ _ => trivial) (wf_make cfg) rfl hstart
  exact ⟨hrun.2, fun e he => (hentries e he).2⟩

end Market

namespace Book

variable {l l' : FillLoop} {fill : ProposedFill} {now : ℤ}

/-! ## Where a walk calls a halt -/

/-- A fill that the loop carries out is printed. -/
theorem exists_print (hgo : (fillStep now l fill).haltedByBand = false)
    (hgo' : (fillStep now l fill).bandLimited = false) :
    ∃ outside breach, l.book.bandDecision now l.breachLevel fill.fillPrice = .print outside breach := by
  unfold fillStep at hgo hgo'
  cases hband : l.book.bandDecision now l.breachLevel fill.fillPrice with
  | halt =>
    rw [hband] at hgo
    cases hgo
  | limit =>
    rw [hband] at hgo'
    cases hgo'
  | print outside breach => exact ⟨outside, breach, rfl⟩

/-- A fill keeps the stream's account of the clock. -/
theorem watched_fillStep (h : l.book.toSession.Watched) {outside breach : Option ℤ}
    (hband : l.book.bandDecision now l.breachLevel fill.fillPrice = .print outside breach) :
    (fillStep now l fill).book.toSession.Watched := by
  unfold fillStep
  rw [hband]
  have hwatched := h.print hband (t := Session.mkTrade { l.book.toSession with
      outsideBandSince := outside } l.incoming (l.book.node fill.passiveNode).order.id
      (l.book.node fill.passiveNode).order.ownerId fill.fillPrice fill.fillQuantity now) rfl rfl
  simp only
  split_ifs
  · exact ⟨hwatched.since, hwatched.reference, hwatched.last, hwatched.pos⟩
  · exact hwatched

/-- The clock is the stream's at every fill that the loop gets to. -/
theorem watched_reached (fills : List ProposedFill) (h : l.book.toSession.Watched)
    (hr : (l', fill) ∈ reached now fills l) :
    l'.book.toSession.Watched ∧ l'.book.cfg = l.book.cfg := by
  induction fills generalizing l with
  | nil => cases hr
  | cons f fills ih =>
    rw [reached] at hr
    rcases List.mem_cons.mp hr with heq | hr
    · obtain ⟨rfl, rfl⟩ := Prod.mk.inj heq
      exact ⟨h, rfl⟩
    · split_ifs at hr with hstop
      · cases hr
      · simp only [Bool.or_eq_true, not_or, Bool.not_eq_true] at hstop
        obtain ⟨outside, breach, hband⟩ := exists_print hstop.1 hstop.2
        obtain ⟨hwatched, hcfg⟩ := ih (watched_fillStep h hband) hr
        exact ⟨hwatched, hcfg.trans (sameStops_fillStep now l f).cfg⟩

/-- At a fill where the halt is called, the loop ends, with everything before the fill carried out. -/
theorem fillLoop_of_halt (fills : List ProposedFill) (hr : (l', fill) ∈ reached now fills l)
    (hhalt : l'.book.bandDecision now l'.breachLevel fill.fillPrice = .halt) :
    (∃ ev, ev.kind = .halted ∧ (fillLoop now fills l).book.events = l'.book.events ++ [ev]) ∧
      ∃ post, fills = (executed now fills l).map Prod.snd ++ fill :: post := by
  induction fills generalizing l with
  | nil => cases hr
  | cons f fills ih =>
    rw [reached] at hr
    rw [fillLoop, executed]
    rcases List.mem_cons.mp hr with heq | hr
    · -- The loop is at the fill, and halts.
      obtain ⟨rfl, rfl⟩ := Prod.mk.inj heq
      have hstep : fillStep now l' fill =
          { l' with
            haltedByBand := true
            book := { l'.book with toSession := l'.book.halt l'.incoming fill.fillPrice now } } := by
        rw [fillStep, hhalt]
      rw [hstep]
      exact ⟨⟨_, rfl, rfl⟩, fills, rfl⟩
    · split_ifs at hr ⊢ with hstop
      · cases hr
      · obtain ⟨hevents, post, hpost⟩ := ih hr
        exact ⟨hevents, post, congrArg (List.cons f) hpost⟩

/-- A `Halted` event of the loop is called at a fill that it gets to. -/
theorem exists_halt (fills : List ProposedFill) {before : List EngineEvent} {ev : EngineEvent}
    (hev : before ++ [ev] <+: (fillLoop now fills l).book.events) (hk : ev.kind = .halted) :
    before ++ [ev] <+: l.book.events ∨
      ∃ l' fill, (l', fill) ∈ reached now fills l ∧ l'.book.events = before ∧
        l'.book.bandDecision now l'.breachLevel fill.fillPrice = .halt := by
  induction fills generalizing l with
  | nil => exact Or.inl hev
  | cons f fills ih =>
    rw [fillLoop] at hev
    -- One pass adds one event at most, and a halt only where the band decides so.
    have hpass : before ++ [ev] <+: (fillStep now l f).book.events →
        before ++ [ev] <+: l.book.events ∨ l.book.events = before ∧
          l.book.bandDecision now l.breachLevel f.fillPrice = .halt := by
      intro hev
      cases hband : l.book.bandDecision now l.breachLevel f.fillPrice with
      | limit =>
        rw [fillStep, hband] at hev
        exact Or.inl hev
      | halt =>
        rw [fillStep, hband] at hev
        rcases List.prefix_concat_iff.mp hev with heq | hev
        · exact Or.inr ⟨(List.append_inj' heq rfl).1.symm, rfl⟩
        · exact Or.inl hev
      | print outside breach =>
        have hprinted : ∃ e, e.kind = .trade ∧
            (fillStep now l f).book.events = l.book.events ++ [e] := by
          rw [fillStep, hband]
          simp only
          split_ifs <;> exact ⟨_, rfl, rfl⟩
        obtain ⟨e, hek, hevents⟩ := hprinted
        rw [hevents] at hev
        rcases List.prefix_concat_iff.mp hev with heq | hev
        · obtain ⟨-, hsame⟩ := List.append_inj' heq rfl
          rw [List.singleton_inj.mp hsame, hek] at hk
          cases hk
        · exact Or.inl hev
    have hdone : before ++ [ev] <+: (fillStep now l f).book.events →
        before ++ [ev] <+: l.book.events ∨
          ∃ l' fill, (l', fill) ∈ reached now (f :: fills) l ∧ l'.book.events = before ∧
            l'.book.bandDecision now l'.breachLevel fill.fillPrice = .halt := fun hev =>
      (hpass hev).imp_right fun h => ⟨l, f, List.mem_cons_self, h⟩
    split_ifs at hev with hstop
    · exact hdone hev
    · rcases ih hev with hev | ⟨l', fill, hr, h⟩
      · exact hdone hev
      · refine Or.inr ⟨l', fill, ?_, h⟩
        rw [reached, if_neg hstop]
        exact List.mem_cons_of_mem _ hr

/-- The same for a whole walk: what settles the remainder calls no halt. -/
theorem halted_walk {e : Entry Book} {before : List EngineEvent} {ev : EngineEvent}
    (hstart : e.state.events <+: before) (hev : before ++ [ev] <+: eventsAfter e)
    (hk : ev.kind = .halted) :
    ∃ l' fill, (l', fill) ∈ e.reached ∧ l'.book.events = before ∧
      l'.book.bandDecision e.now l'.breachLevel fill.fillPrice = .halt := by
  have hloop : before ++ [ev] <+: (fillLoop e.now e.plan.fills e.loop).book.events :=
    (remains_settle (fillLoop e.now e.plan.fills e.loop) e.plan e.now).halted hev hk
  rcases exists_halt e.plan.fills hloop hk with hev | h
  · exact absurd (hev.trans hstart).length_le (by simp)
  · exact h

/-- **The circuit-breaker clock.** After every run the clock is the one that its stream shows. A `Halted`
event is emitted after a stretch of the stream exactly when a walk gets to a fill there and finds the
clock run out; the fills before it in the plan are carried out, and no others. -/
theorem breaker_clock (cfg : Config) (calls : List Call)
    (hfits : ((Book.make cfg).run calls).Fits) :
    let b := (Book.make cfg).run calls
    let entries := (Book.make cfg).runEntries calls
    b.outsideBandSince = (breakerOf cfg.bandBps b.events).since ∧
    (∀ before, (∃ ev after, b.events = before ++ ev :: after ∧ ev.kind = .halted) ↔
      ∃ e ∈ entries, ∃ l fill, (l, fill) ∈ e.reached ∧ l.book.events = before ∧
        Breaches cfg before e.now fill.fillPrice) ∧
    ∀ e ∈ entries, ∀ l fill, (l, fill) ∈ e.reached → Breaches cfg l.book.events e.now fill.fillPrice →
      ∃ later, e.plan.fills = e.executed.map Prod.snd ++ fill :: later := by
  intro b entries
  obtain ⟨hclock, hclocks⟩ := Market.clocked_run cfg calls
  have hspans : Spans (Book.make cfg) b entries := spans_run _ calls
  -- At every fill of the run, the clock of the book is that of the stream.
  have hhalt : ∀ e ∈ entries, ∀ l fill, (l, fill) ∈ e.reached →
      (l.book.bandDecision e.now l.breachLevel fill.fillPrice = .halt ↔
        Breaches cfg l.book.events e.now fill.fillPrice) := by
    intro e he l fill hr
    obtain ⟨e', he', hsame⟩ := exists_of_forall₂
      (runEntries_represents (refines_make cfg) calls hfits) he
    have hstart := hclocks e' he'
    have hwf := (Market.Reachable.start.runEntries rfl he' : Market.Reachable cfg e'.start).wf
    have hwatched : e.state.toSession.Watched := by
      rw [hsame.represents.session]
      exact hstart.watched hwf
    obtain ⟨hreached, hcfg⟩ := watched_reached (l := e.loop) e.plan.fills hwatched hr
    have hcfg' : l.book.cfg = cfg := by
      refine hcfg.trans ?_
      show e.state.cfg = cfg
      rw [hsame.represents.session]
      exact hstart.cfg_eq
    rw [hreached.halt_iff, hcfg']
  refine ⟨?_, fun before => ⟨?_, ?_⟩, fun e he l fill hr hbreach =>
    (fillLoop_of_halt e.plan.fills hr ((hhalt e he l fill hr).mpr hbreach)).2⟩
  · have hsession := (run_refines cfg calls hfits).represents.session
    show ((Book.make cfg).run calls).outsideBandSince = _
    rw [hsession]
    exact hclock.since.symm
  · rintro ⟨ev, after, hevents, hk⟩
    have hev : before ++ [ev] <+: b.events := ⟨after, by rw [hevents]; simp⟩
    rcases hspans.ofWalk before ev hev (by rw [hk]; rfl) with hev | ⟨e, he, hstart, hev⟩
    · exact absurd hev.length_le (by simp [Book.make])
    · obtain ⟨l, fill, hr, rfl, hband⟩ := halted_walk hstart hev hk
      exact ⟨e, he, l, fill, hr, rfl, (hhalt e he l fill hr).mp hband⟩
  · rintro ⟨e, he, l, fill, hr, rfl, hbreach⟩
    obtain ⟨⟨ev, hk, hloop⟩, -⟩ :=
      fillLoop_of_halt e.plan.fills hr ((hhalt e he l fill hr).mpr hbreach)
    obtain ⟨es, hes, -⟩ := remains_settle (fillLoop e.now e.plan.fills e.loop) e.plan e.now
    have hafter : eventsAfter e = l.book.events ++ ev :: es := by
      refine hes.trans ?_
      have hloop : (fillLoop e.now e.plan.fills e.loop).book.events = l.book.events ++ [ev] := hloop
      rw [hloop, List.append_assoc]
      rfl
    obtain ⟨rest, hrest⟩ := hspans.walked e he
    rw [hafter, List.append_assoc] at hrest
    exact ⟨ev, es ++ rest, hrest.symm, hk⟩

/-- A bid prints at 200, out of the band around 100. Ten milliseconds later one is halted at 300. -/
theorem breaker_clock_of_two :
    let cfg : Config := { poolCapacity := 4, gracePeriodMs := 10 }
    let sell (id : OrderId) (price : ℤ) : Call :=
      .addOrder { id, ownerId := 1, side := .sell, type := .limit, price := some price,
                  quantity := 1 } 0
    let buy (id : OrderId) (now : ℤ) : Call :=
      .addOrder { id, ownerId := 2, side := .buy, type := .market, price := none, quantity := 1 } now
    let calls := [sell 1 100, sell 2 200, sell 3 300, buy 4 0, buy 5 5, buy 6 15]
    let b := (Book.make cfg).run calls
    b.outsideBandSince = (breakerOf cfg.bandBps b.events).since :=
  (breaker_clock { poolCapacity := 4, gracePeriodMs := 10 } _ (fits_run rfl _)).1

/-- The clock of that run was set by its first trade at 200. -/
example :
    let cfg : Config := { poolCapacity := 4, gracePeriodMs := 10 }
    let sell (id : OrderId) (price : ℤ) : Call :=
      .addOrder { id, ownerId := 1, side := .sell, type := .limit, price := some price,
                  quantity := 1 } 0
    let buy (id : OrderId) (now : ℤ) : Call :=
      .addOrder { id, ownerId := 2, side := .buy, type := .market, price := none, quantity := 1 } now
    let b := (Book.make cfg).run [sell 1 100, sell 2 200, sell 3 300, buy 4 0, buy 5 5, buy 6 15]
    (breakerOf cfg.bandBps b.events).since = some 5 ∧ b.halted = true := by
  decide +kernel

end Book

end OrderBookEngine
