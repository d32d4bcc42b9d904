import OrderBookEngine.Market.Wf

/-!
# Every call is a chain of steps

The functions of `Market/Basic.lean` compute sequences of the steps of `Market/Step.lean`: a walk
(`walk_steps`), a firing, a drain, and a whole call (`call_chain`). The results about calls are
stated over any property `I` of stages that the steps between two walks carry, given that the walks
carry it too; `I` may be reachability by steps itself, or an invariant that needs a whole walk at once.
-/

namespace OrderBookEngine

namespace Market

variable {m : Market} {order : Order} {now : ℤ}

/-! ## A walk leaves the stops alone -/

/-- A trade wakes no stop yet. -/
theorem Walk.stops_trade (w : Walk) (now : ℤ) (x : RestingOrder) (xs : List RestingOrder)
    (outside breach : Option ℤ) :
    (w.trade now x xs outside breach).market.stops = w.market.stops ∧
      (w.trade now x xs outside breach).market.fifo = w.market.fifo := by
  rw [Walk.market_trade]
  simp only
  split_ifs <;> exact ⟨stops_setQueue .., fifo_setQueue ..⟩

/-- The walk wakes no stop yet, trade by trade. -/
theorem walkLoop_stops (now : ℤ) (xs : List RestingOrder) (w : Walk) :
    (walkLoop now xs w).1.market.stops = w.market.stops ∧
      (walkLoop now xs w).1.market.fifo = w.market.fifo := by
  induction xs generalizing w with
  | nil => exact ⟨rfl, rfl⟩
  | cons x xs ih =>
    rw [walkLoop]
    split_ifs
    · exact ⟨rfl, rfl⟩
    · exact ⟨rfl, rfl⟩
    · exact ⟨rfl, rfl⟩
    · exact ⟨rfl, rfl⟩
    · cases w.market.bandDecision now w.breachLevel x.price with
      | halt => exact ⟨rfl, rfl⟩
      | limit => exact ⟨rfl, rfl⟩
      | print outside breach =>
        obtain ⟨hs, hf⟩ := ih (w.trade now x xs outside breach)
        obtain ⟨hs', hf'⟩ := w.stops_trade now x xs outside breach
        exact ⟨hs.trans hs', hf.trans hf'⟩

/-- An order that comes to rest leaves the stops alone. -/
theorem restOrder_stops {m' : Market} (h : m.restOrder order now = some m') :
    m'.stops = m.stops ∧ m'.fifo = m.fifo := by
  obtain ⟨-, rfl⟩ := restOrder_eq_some h
  exact ⟨stops_setQueue .., fifo_setQueue ..⟩

/-- At the edge of the band the stops are left alone. -/
theorem restAtBandEdge_stops (m : Market) (order : Order) (trades : List Trade) (why : RejectReason)
    (now : ℤ) :
    (m.restAtBandEdge order trades why now).1.stops = m.stops ∧
      (m.restAtBandEdge order trades why now).1.fifo = m.fifo := by
  rw [restAtBandEdge]
  simp only
  split_ifs
  · cases hr : m.restOrder (m.atBandEdge order) now with
    | none => exact ⟨rfl, rfl⟩
    | some m' => exact restOrder_stops hr
  · exact ⟨rfl, rfl⟩
  · exact ⟨rfl, rfl⟩
  · exact ⟨rfl, rfl⟩

/-- The end of a walk that has run out leaves the stops alone. -/
theorem runOut_stops (m : Market) (order : Order) (trades : List Trade) (why : RejectReason)
    (now : ℤ) :
    (m.runOut order trades why now).1.stops = m.stops ∧
      (m.runOut order trades why now).1.fifo = m.fifo := by
  rw [runOut]
  split_ifs
  · cases hr : m.restOrder order now with
    | none => exact ⟨rfl, rfl⟩
    | some m' => exact restOrder_stops hr
  · exact ⟨rfl, rfl⟩
  · exact ⟨rfl, rfl⟩

/-- A walk leaves the stops alone. -/
theorem walk_stops (m : Market) (order : Order) (now : ℤ) :
    (m.walk order now).1.stops = m.stops ∧ (m.walk order now).1.fifo = m.fifo := by
  obtain ⟨hs, hf⟩ := walkLoop_stops now (m.queue order.side.opposite) { market := m, incoming := order }
  rw [walk]
  set r := walkLoop now (m.queue order.side.opposite) { market := m, incoming := order }
  -- Marking the order filled leaves the stops, and so does whatever settles the walk.
  have hmark : (r.1.market.markIfFilled r.1.incoming).stops = m.stops ∧
      (r.1.market.markIfFilled r.1.incoming).fifo = m.fifo := by
    rw [markIfFilled]
    split_ifs <;> exact ⟨hs, hf⟩
  obtain ⟨hs, hf⟩ := hmark
  cases hend : r.2 with
  | halted =>
    simp only [settle, hend]
    exact ⟨(restAtBandEdge_stops ..).1.trans hs, (restAtBandEdge_stops ..).2.trans hf⟩
  | bandLimited =>
    simp only [settle, hend]
    exact ⟨(restAtBandEdge_stops ..).1.trans hs, (restAtBandEdge_stops ..).2.trans hf⟩
  | selfTrade =>
    simp only [settle, hend]
    exact ⟨hs, hf⟩
  | collar =>
    simp only [settle, hend]
    exact ⟨(runOut_stops ..).1.trans hs, (runOut_stops ..).2.trans hf⟩
  | exhausted =>
    simp only [settle, hend]
    exact ⟨(runOut_stops ..).1.trans hs, (runOut_stops ..).2.trans hf⟩

/-! ## A walk -/

/-- What the walk loop has reached, from a stage `s`. -/
def WalkEnd.Reached (now : ℤ) (s : Stage) (w : Walk) : WalkEnd → Prop
  | .exhausted =>
    WalkSteps now s (.walking w) ∧ (w.incoming.quantity = 0 ∨ 0 < w.incoming.quantity ∧
      ∀ x ∈ w.market.queue w.incoming.side.opposite, w.incoming.crosses x.price = false)
  | .collar => WalkSteps now s (.walking w) ∧ 0 < w.incoming.quantity ∧ w.incoming.type = .market
  | .selfTrade => WalkSteps now s (.walking w) ∧ 0 < w.incoming.quantity
  | .bandLimited | .halted => WalkSteps now s (.stopped w)

/-- The stage at which the walk meets an order. -/
def MetAt (now : ℤ) (s : Stage) (p : Walk × RestingOrder) : Prop :=
  WalkSteps now s (.walking p.1) ∧ ∃ xs outside breach, p.1.Meets p.2 xs ∧
    p.1.market.bandDecision now p.1.breachLevel p.2.price = .print outside breach

/-- A price that is not better than one that an order does not reach is not reached either. -/
theorem crosses_of_notBetter {p q : ℤ} (h : order.crosses p = false)
    (hb : ¬ order.side.opposite.Better q p) : order.crosses q = false := by
  rw [Order.crosses] at *
  cases htype : order.type with
  | market => simp [htype] at h
  | limit =>
    cases hside : order.side with
    | buy =>
      simp only [hside, Side.opposite, Side.Better] at hb
      cases hprice : order.price with
      | none => simp [htype, hside, hprice] at h
      | some limit => simp [htype, hside, hprice] at h ⊢; omega
    | sell =>
      simp only [hside, Side.opposite, Side.Better] at hb
      cases hprice : order.price with
      | none => simp [htype, hside, hprice] at h
      | some limit => simp [htype, hside, hprice] at h ⊢; omega

/-- Only market orders have a collar. -/
theorem type_of_insideCollar {s : Session} {p : ℤ} (h : s.insideCollar order p = false) :
    order.type = .market := by
  rw [Session.insideCollar] at h
  cases htype : order.type with
  | market => rfl
  | limit => simp [htype] at h

/-- The queue after a trade, as far as the walk goes on. -/
theorem Walk.queue_trade (w : Walk) (now : ℤ) (x : RestingOrder) (xs : List RestingOrder)
    (outside breach : Option ℤ) :
    (w.trade now x xs outside breach).incoming.quantity = 0 ∨
      (w.trade now x xs outside breach).market.queue w.incoming.side.opposite = xs := by
  rw [Walk.market_trade]
  simp only
  split_ifs with hfull
  · right
    cases w.incoming.side <;> rfl
  · left
    show w.incoming.quantity - min w.incoming.quantity x.quantity = 0
    omega

/-- The walk loop is a chain of steps, and meets what it trades with. -/
theorem walkLoop_steps (now : ℤ) (xs : List RestingOrder) {s : Stage} {w : Walk} (hs : s.Wf)
    (h : WalkSteps now s (.walking w))
    (hqueue : w.incoming.quantity = 0 ∨ w.market.queue w.incoming.side.opposite = xs) :
    (walkLoop now xs w).2.Reached now s (walkLoop now xs w).1 ∧
      ∀ p ∈ traded now xs w, MetAt now s p := by
  induction xs generalizing w with
  | nil =>
    obtain ⟨-, -, -, hnonneg, -⟩ := h.steps.wf hs
    rw [walkLoop, traded]
    refine ⟨⟨h, ?_⟩, by simp⟩
    rcases hqueue with hq | hq
    · exact Or.inl hq
    · rcases hnonneg.eq_or_lt with h0 | h0
      · exact Or.inl h0.symm
      · exact Or.inr ⟨h0, by simp [hq]⟩
  | cons x xs ih =>
    obtain ⟨hwf, -, -, hnonneg, -⟩ := h.steps.wf hs
    rw [walkLoop, traded]
    by_cases hzero : w.incoming.quantity ≤ 0
    · rw [if_pos hzero, if_pos hzero]
      exact ⟨⟨h, Or.inl (le_antisymm hzero hnonneg)⟩, by simp⟩
    rw [if_neg hzero, if_neg hzero]
    have hpos : 0 < w.incoming.quantity := by omega
    have hqueue := hqueue.resolve_left (by omega)
    by_cases hcross : w.incoming.crosses x.price = true
    swap
    · have hcross : w.incoming.crosses x.price = false := by simpa using hcross
      simp only [hcross, Bool.not_false, if_true]
      -- The queue is sorted, so that no order behind crosses either.
      refine ⟨⟨h, Or.inr ⟨hpos, fun y hy => ?_⟩⟩, by simp⟩
      have hsorted := (hwf.side w.incoming.side.opposite).sorted
      rw [hqueue] at hy hsorted
      rcases List.mem_cons.mp hy with rfl | hy
      · exact hcross
      · exact crosses_of_notBetter hcross ((List.pairwise_cons.mp hsorted).1 y hy)
    by_cases hcollar : w.market.insideCollar w.incoming x.price = true
    swap
    · have hcollar : w.market.insideCollar w.incoming x.price = false := by simpa using hcollar
      simp only [hcross, hcollar, Bool.not_true, Bool.not_false, Bool.false_eq_true, if_false, if_true]
      exact ⟨⟨h, hpos, type_of_insideCollar hcollar⟩, by simp⟩
    by_cases hself : x.ownerId = w.incoming.ownerId
    · simp only [hcross, hcollar, hself, Bool.not_true, Bool.false_eq_true, if_false, if_true]
      exact ⟨⟨h, hpos⟩, by simp⟩
    simp only [hcross, hcollar, hself, Bool.not_true, Bool.false_eq_true, if_false]
    -- The first order is met: the band decides what becomes of it.
    have hmeets : w.Meets x xs := ⟨hqueue, hpos, hcross, hcollar, hself⟩
    cases hband : w.market.bandDecision now w.breachLevel x.price with
    | halt => exact ⟨h.tail ⟨trivial, .halt hmeets hband⟩, by simp⟩
    | limit => exact ⟨h.tail ⟨trivial, .limit hmeets hband⟩, by simp⟩
    | print outside breach =>
      obtain ⟨hend, hmet⟩ := ih (h.tail ⟨trivial, .trade hmeets hband⟩) (w.queue_trade now x xs outside breach)
      refine ⟨hend, fun p hp => ?_⟩
      rcases List.mem_cons.mp hp with rfl | hp
      · exact ⟨h, xs, outside, breach, hmeets, hband⟩
      · exact hmet p hp

/-- The stage at which a walk has settled. -/
def settledStage (r : Market × OrderResult) : Stage :=
  .settled r.1 r.2.trades r.2.unacceptedQuantity

/-- An order with something left is not marked. -/
theorem markIfFilled_of_pos (h : 0 < order.quantity) : m.markIfFilled order = m := by
  rw [markIfFilled, if_neg (by omega)]

/-- At the edge of the band the remainder rests or expires, in one step. -/
theorem restAtBandEdge_steps {s : Stage} {w : Walk} (hs : s.Wf) (h : WalkSteps now s (.stopped w))
    (why : RejectReason) :
    WalkSteps now s (settledStage
      ((w.market.markIfFilled w.incoming).restAtBandEdge w.incoming w.trades why now)) := by
  obtain ⟨-, -, hpos, -⟩ := h.steps.wf hs
  rw [markIfFilled_of_pos hpos, restAtBandEdge]
  by_cases htype : w.incoming.type = .limit
  · simp only [htype, if_true]
    split_ifs with hvalid
    · cases hr : w.market.restOrder (w.market.atBandEdge w.incoming) now with
      | none => exact h.tail ⟨trivial, .expireStopped⟩
      | some m' => exact h.tail ⟨trivial, .restAtBandEdge htype hvalid hr⟩
    · exact h.tail ⟨trivial, .expireStopped⟩
  · simp only [if_neg htype, if_pos hpos]
    exact h.tail ⟨trivial, @Step.expireStopped _ _ w.incoming.price⟩

/-- The remainder is settled in one step. -/
theorem settle_steps {s : Stage} {w : Walk} {ending : WalkEnd} (hs : s.Wf)
    (h : ending.Reached now s w) : WalkSteps now s (settledStage (settle w ending now)) := by
  cases ending with
  | halted => exact restAtBandEdge_steps hs h _
  | bandLimited => exact restAtBandEdge_steps hs h _
  | selfTrade =>
    obtain ⟨h, hpos⟩ := h
    rw [settle, markIfFilled_of_pos hpos]
    exact h.tail ⟨trivial, .expire hpos⟩
  | collar =>
    obtain ⟨h, hpos, htype⟩ := h
    rw [settle, markIfFilled_of_pos hpos]
    simp only [runOut, htype, hpos, reduceCtorEq, and_false, if_false, and_self, if_true]
    exact h.tail ⟨trivial, .expire hpos⟩
  | exhausted =>
    obtain ⟨h, hzero | ⟨hpos, hout⟩⟩ := h
    · rw [settle, markIfFilled, if_pos hzero]
      simp only [runOut, hzero, gt_iff_lt, lt_irrefl, false_and, and_false, if_false]
      exact h.tail ⟨trivial, .filled hzero⟩
    · rw [settle, markIfFilled_of_pos hpos]
      cases htype : w.incoming.type with
      | market =>
        simp only [runOut, htype, hpos, reduceCtorEq, and_false, if_false, and_self, if_true]
        exact h.tail ⟨trivial, .expire hpos⟩
      | limit =>
        simp only [runOut, htype, hpos, and_self, if_true]
        cases hr : w.market.restOrder w.incoming now with
        -- Without a free node what is left expires, as that of a market order does.
        | none => exact h.tail ⟨trivial, .expire hpos⟩
        | some m' => exact h.tail ⟨trivial, .rest hpos htype hout hr⟩

/-- **A walk is a chain of steps**, and meets what it trades with. -/
theorem walk_steps (now : ℤ) (hwf : Stage.Wf (.walking { market := m, incoming := order })) :
    WalkSteps now (.walking { market := m, incoming := order }) (settledStage (m.walk order now)) ∧
      ∀ p ∈ traded now (m.queue order.side.opposite) { market := m, incoming := order },
        MetAt now (.walking { market := m, incoming := order }) p := by
  obtain ⟨hend, hmet⟩ := walkLoop_steps now (m.queue order.side.opposite) hwf
    Relation.ReflTransGen.refl (Or.inr rfl)
  exact ⟨settle_steps hwf hend, hmet⟩

end Market

/-- The stage at which an entry's walk begins. -/
def Entry.start (e : Entry Market) : Market.Stage := .walking e.walk

/-- The stage at which an entry's walk has settled. -/
def Entry.settled (e : Entry Market) : Market.Stage :=
  Market.settledStage (e.state.walk e.order e.now)

namespace Market

variable {m : Market} {order : Order} {now : ℤ}

/-! ## Calls -/

/-- The steps outside of walks carry a property of well-formed stages. -/
structure Carried (now : ℤ) (I : Stage → Prop) : Prop where
  /-- The stages with the property are well-formed. -/
  wf : ∀ {s}, I s → s.Wf
  /-- Accepting the order in flight. -/
  reenter : ∀ {m order}, I (.entering m order) → I (.walking (m.accept order now))
  /-- The end of a walk without a trade. -/
  finish : ∀ {m unaccepted}, I (.settled m [] unaccepted) → I (.idle m)
  /-- The effect of a walk's trades. -/
  absorb : ∀ {m trades unaccepted last}, trades.getLast? = some last →
    I (.settled m trades unaccepted) → I (.idle (m.absorb trades last))
  /-- The firing of a stop. -/
  fire : ∀ {m : Market} {stop rest}, m.fifo = stop :: rest → m.halted = false → I (.idle m) →
    I (.entering ({ m with fifo := rest }.emit (stop.event .stopTriggered now)) stop.firedOrder)
  /-- The return of the woken stops under a halt. -/
  sendBack : ∀ {m : Market}, m.halted = true → I (.idle m) → I (.idle m.sendBack)

/-- The walks of a list of entries carry a property. -/
def Carries (now : ℤ) (I : Stage → Prop) (entries : List (Entry Market)) : Prop :=
  ∀ e ∈ entries, e.now = now → I e.start → I e.settled

/-- The entries of a list are at a time `now`, and have a property when their walks begin. -/
def Visits (now : ℤ) (I : Stage → Prop) (entries : List (Entry Market)) : Prop :=
  ∀ e ∈ entries, e.now = now ∧ I e.start

/-- Reachability by steps carries itself. -/
theorem carried_steps {s : Stage} (hs : s.Wf) : Carried now (Steps now s) :=
  ⟨fun h => h.wf hs, fun h => h.tail .reenter, fun h => h.tail .finish,
    fun hlast h => h.tail (.absorb hlast), fun hfifo hhalt h => h.tail (.fire hfifo hhalt),
    fun hhalt h => h.tail (.sendBack hhalt)⟩

/-- Every walk is made of steps. -/
theorem carries_steps {s : Stage} (hs : s.Wf) (entries : List (Entry Market)) :
    Carries now (Steps now s) entries := by
  rintro ⟨m, order, _⟩ - rfl h
  exact h.trans (walk_steps _ (h.wf hs)).1.steps

/-- An order that enters again is not refused. -/
theorem admitted_of_entering (h : Stage.Wf (.entering m order)) :
    m.admitted order now = some (m.accept order now).market := by
  obtain ⟨hwf, hhalt, hvalid⟩ := h
  -- The id of the entering order is live, and so none of those that rest, wait or have ended.
  have hout : ∀ l : List OrderId, order.id ∈ l → l.Sublist m.liveIds → False := fun l hl hsub =>
    (List.nodup_cons.mp hwf.ids.nodup).1 (hsub.subset hl)
  have hfin := hwf.ids.unfinished order.id List.mem_cons_self
  have hbids : m.bids.find? (fun x => x.orderId = order.id) = none :=
    Keyed.find?_eq_none.mpr fun hid => hout _ hid (by rw [liveIds, List.append_assoc]; simp)
  have hasks : m.asks.find? (fun x => x.orderId = order.id) = none :=
    Keyed.find?_eq_none.mpr fun hid => hout _ hid (by
      rw [liveIds]
      exact (List.sublist_append_right _ _).trans (List.sublist_append_left _ _))
  have hstops : m.stops.find? (fun s => s.id = order.id) = none :=
    Keyed.find?_eq_none.mpr fun hid => hout _ hid (by
      rw [liveIds, List.map_append]
      exact (List.sublist_append_right _ _).trans (List.sublist_append_right _ _))
  have huse : m.idInUse order.id = false := by
    simp [idInUse, restingOrder?, stop?, hbids, hasks, hstops, hfin]
  rw [admitted, Session.validateNewOrder]
  simp only [hhalt, Bool.false_eq_true, if_false, hvalid, huse, decide_true, Bool.not_false,
    Bool.and_self, if_true]
  rfl

variable {I : Stage → Prop} {entries : List (Entry Market)}

/-- If all walks of two lists carry a property, those of each do. -/
theorem Carries.append {l l' : List (Entry Market)} (h : Carries now I (l ++ l')) :
    Carries now I l ∧ Carries now I l' :=
  ⟨fun e he => h e (List.mem_append_left _ he), fun e he => h e (List.mem_append_right _ he)⟩

/-- Two lists of entries that have the property. -/
theorem Visits.append {l l' : List (Entry Market)} (h : Visits now I l) (h' : Visits now I l') :
    Visits now I (l ++ l') := fun e he =>
  (List.mem_append.mp he).elim (h e) (h' e)

/-- The trades of a walk move the reference and wake stops, and `f` follows. -/
theorem afterWalk_carried (hI : Carried now I) (f : ℤ → Market → Market)
    (after : ℤ → Market → List (Entry Market)) {r : Market × OrderResult} (h : I (settledStage r))
    (hwalks : Carries now I (entriesAfter (fun low high t m => after t (m.wakeStops low high)) r now))
    (hf : ∀ m, I (.idle m) → Carries now I (after now m) →
      I (.idle (f now m)) ∧ Visits now I (after now m)) :
    I (.idle (afterWalk (fun low high t m => f t (m.wakeStops low high)) r now).1) ∧
      Visits now I (entriesAfter (fun low high t m => after t (m.wakeStops low high)) r now) := by
  rw [settledStage] at h
  rw [entriesAfter] at hwalks ⊢
  rw [afterWalk]
  cases hlast : r.2.trades.getLast? with
  | none =>
    rw [List.getLast?_eq_none_iff.mp hlast] at h
    exact ⟨hI.finish h, by simp [Visits]⟩
  | some last =>
    simp only [hlast] at hwalks
    exact hf _ (hI.absorb hlast h) hwalks

/-- An admitted order walks, its trades move the reference and wake stops, and `f` follows. -/
theorem enterWith_carried {m' : Market} (hI : Carried now I) (f : ℤ → Market → Market)
    (after : ℤ → Market → List (Entry Market)) (hadm : m.admitted order now = some m')
    (h : I (.walking { market := m', incoming := order }))
    (hwalks : Carries now I
      (coreEntries (fun low high t m => after t (m.wakeStops low high)) m order now))
    (hf : ∀ m, I (.idle m) → Carries now I (after now m) →
      I (.idle (f now m)) ∧ Visits now I (after now m))
    (reportReject : Bool) :
    I (.idle
        (m.enterWith (fun low high t m => f t (m.wakeStops low high)) order now reportReject).1) ∧
      Visits now I
        (coreEntries (fun low high t m => after t (m.wakeStops low high)) m order now) := by
  rw [enterWith_of_admitted _ hadm]
  simp only [coreEntries, hadm] at hwalks ⊢
  have hsettled : I (settledStage (m'.walk order now)) := hwalks _ List.mem_cons_self rfl h
  obtain ⟨hidle, hvisits⟩ := afterWalk_carried hI f after hsettled
    (fun e he => hwalks e (List.mem_cons_of_mem _ he)) hf
  refine ⟨hidle, fun e he => ?_⟩
  rcases List.mem_cons.mp he with rfl | he
  · exact ⟨rfl, h⟩
  · exact hvisits e he

/-- A stop that fires walks, and its trades wake others. -/
theorem fireStop_carried (hI : Carried now I) {stop : StopOrder} {rest : List StopOrder}
    (hfifo : m.fifo = stop :: rest) (hhalt : m.halted = false) (h : I (.idle m))
    (hwalks : Carries now I (coreEntries (fun _ _ _ _ => [])
      ({ m with fifo := rest }.emit (stop.event .stopTriggered now)) stop.firedOrder now)) :
    I (.idle ({ m with fifo := rest }.fireStop stop now)) ∧
      Visits now I (coreEntries (fun _ _ _ _ => [])
        ({ m with fifo := rest }.emit (stop.event .stopTriggered now)) stop.firedOrder now) := by
  have hentering := hI.fire hfifo hhalt h
  exact enterWith_carried hI (fun _ m => m) (fun _ _ => []) (admitted_of_entering (hI.wf hentering))
    (hI.reenter hentering) hwalks (fun m hm _ => ⟨hm, by simp [Visits]⟩) false

/-- The FIFO is drained, firing by firing. -/
theorem drain_carried (hI : Carried now I) (fuel : ℕ) {m : Market} (h : I (.idle m))
    (hwalks : Carries now I (drainEntries now fuel m)) :
    I (.idle (m.drain now fuel)) ∧ Visits now I (drainEntries now fuel m) := by
  induction fuel generalizing m with
  | zero => exact ⟨h, by simp [Visits, drainEntries]⟩
  | succ fuel ih =>
    rw [drain]
    rw [drainEntries] at hwalks ⊢
    cases hfifo : m.fifo with
    | nil => exact ⟨h, by simp [Visits]⟩
    | cons stop rest =>
      simp only [hfifo] at hwalks ⊢
      split_ifs at hwalks ⊢ with hhalt
      -- A halt ends the drain, and no order walks any more.
      · exact ⟨hI.sendBack hhalt h, by simp [Visits]⟩
      · obtain ⟨hfirst, hrest⟩ := hwalks.append
        obtain ⟨hidle, hvisits⟩ := fireStop_carried hI hfifo (by simpa using hhalt) h hfirst
        obtain ⟨hidle', hvisits'⟩ := ih hidle hrest
        exact ⟨hidle', hvisits.append hvisits'⟩

/-- What follows the waking of stops, outside of a drain. -/
def drainAll (now : ℤ) (m : Market) : Market :=
  if m.halted then m else drain now (m.stops.length + m.fifo.length) m

/-- The orders that `drainAll` walks. -/
def drainAllEntries (now : ℤ) (m : Market) : List (Entry Market) :=
  if m.halted then [] else drainEntries now (m.stops.length + m.fifo.length) m

/-- The firing of stops after a walk wakes them and drains them. -/
theorem triggerStops_eq :
    triggerStops = fun low high t m => drainAll t (m.wakeStops low high) := rfl

/-- Its walks are those of the drain. -/
theorem triggerEntries_eq :
    triggerEntries = fun low high t m => drainAllEntries t (m.wakeStops low high) := rfl

/-- A drain, as a whole. -/
theorem drainAll_carried (hI : Carried now I) (h : I (.idle m))
    (hwalks : Carries now I (drainAllEntries now m)) :
    I (.idle (drainAll now m)) ∧ Visits now I (drainAllEntries now m) := by
  rw [drainAll]
  rw [drainAllEntries] at hwalks ⊢
  split_ifs at hwalks ⊢
  · exact ⟨h, by simp [Visits]⟩
  · exact drain_carried hI _ h hwalks

/-- **Entering.** An admitted order walks, and every stop that it wakes fires. -/
theorem enter_carried {m' : Market} (hI : Carried now I) (hadm : m.admitted order now = some m')
    (h : I (.walking { market := m', incoming := order }))
    (hwalks : Carries now I (coreEntries triggerEntries m order now)) (reportReject : Bool) :
    I (.idle (m.enter order now reportReject).1) ∧
      Visits now I (coreEntries triggerEntries m order now) := by
  rw [enter, triggerStops_eq]
  rw [triggerEntries_eq] at hwalks ⊢
  exact enterWith_carried hI drainAll drainAllEntries hadm h hwalks
    (fun m hm => drainAll_carried hI hm) reportReject

/-- Validation lifts a halt that has run out, and passes only orders that may walk. -/
theorem resumes_validateNewOrder (m : Market) (order : Order) (now : ℤ) :
    Resumes now m { m with toSession := (m.validateNewOrder order now).1 } ∧
      ((m.validateNewOrder order now).2 = .none →
        (m.validateNewOrder order now).1.halted = false ∧
          Session.validateOrderFields order = .none) := by
  rw [Session.validateNewOrder]
  split_ifs with hhalt huntil
  · exact ⟨Or.inl rfl, by simp⟩
  · exact ⟨Or.inr ⟨hhalt, by omega, rfl⟩, fun h => ⟨rfl, h⟩⟩
  · exact ⟨Or.inl rfl, fun h => ⟨by simpa using hhalt, h⟩⟩

/-- What an admitted order may rely on. -/
theorem admitted_eq_some {m' : Market} (h : m.admitted order now = some m') :
    ∃ m₀, Resumes now m m₀ ∧ m₀.idInUse order.id = false ∧ m₀.halted = false ∧
      Session.validateOrderFields order = .none ∧ m' = m₀.emit (order.event .accepted now) := by
  obtain ⟨hresumes, hvalid⟩ := resumes_validateNewOrder m order now
  rw [admitted] at h
  simp only at h
  split_ifs at h with hok
  simp only [Bool.and_eq_true, decide_eq_true_eq, Bool.not_eq_true'] at hok
  exact ⟨_, hresumes, hok.2, (hvalid hok.1).1, (hvalid hok.1).2, (Option.some.inj h).symm⟩

/-- What a call comes to: it may lift a halt, it acts, and the engine's steps carry any property from
there to the end of the call. -/
def CallChain (m : Market) (c : Call) (m' : Market) (entries : List (Entry Market)) : Prop :=
  ∃ m₀ s, Resumes c.now m m₀ ∧ Acts m₀ c s ∧ ∀ I : Stage → Prop, Carried c.now I →
    Carries c.now I entries → I s → I (.idle m') ∧ Visits c.now I entries

/-- A call that is over when it has acted. -/
theorem CallChain.of_acts {c : Call} {m m' : Market} (h : Acts m c (.idle m')) :
    CallChain m c m' [] :=
  ⟨m, .idle m', Or.inl rfl, h, fun _ _ _ hs => ⟨hs, by simp [Visits]⟩⟩

/-- A new order is refused, or walks and wakes stops. -/
theorem addOrder_chain (m : Market) (order : Order) (now : ℤ) :
    CallChain m (.addOrder order now) (m.addOrder order now).1
      (m.callEntries (.addOrder order now)) := by
  cases hadm : m.admitted order now with
  | none =>
    obtain ⟨why, -, heq⟩ := enterWith_of_refused triggerStops hadm true
    refine ⟨_, _, (resumes_validateNewOrder m order now).1, @Acts.reject _ _ why _, fun I _ _ h => ?_⟩
    rw [addOrder, enter, heq, callEntries, coreEntries, hadm]
    exact ⟨h, by simp [Visits]⟩
  | some m' =>
    obtain ⟨m₀, hresumes, hid, hhalt, hvalid, rfl⟩ := admitted_eq_some hadm
    exact ⟨m₀, _, hresumes, .submit hid hhalt hvalid, fun I hI hwalks h =>
      enter_carried hI hadm h hwalks true⟩

/-- A modification withdraws, reduces, or replaces with a walk. -/
theorem modifyOrder_chain (m : Market) (id : OrderId) (requester : OwnerId)
    (price quantity now : ℤ) (hwf : m.Wf []) (hfifo : m.fifo = []) :
    CallChain m (.modifyOrder id requester price quantity now)
      (m.modifyOrder id requester price quantity now).1
      (m.callEntries (.modifyOrder id requester price quantity now)) := by
  have hrefuse : Acts m (.modifyOrder id requester price quantity now) (.idle m) :=
    .refuse (by simp)
  rw [modifyOrder, callEntries]
  simp only
  by_cases howned : m.ownedBy id requester
  swap
  · simpa [howned] using CallChain.of_acts hrefuse
  cases hfound : m.restingOrder? id with
  | none => simpa [howned] using CallChain.of_acts hrefuse
  | some order =>
    simp only [howned, Bool.not_true, Bool.false_eq_true, if_false]
    by_cases hbad : Session.validateOrderFields
        { order with price := some price, quantity } = .none
    swap
    · simpa [hbad] using CallChain.of_acts hrefuse
    simp only [hbad, ne_eq, not_true_eq_false, if_false, false_or]
    by_cases hrem : quantity - order.filled ≤ 0
    · simpa [hrem] using CallChain.of_acts (.withdraw hfound)
    simp only [hrem, if_false, false_or]
    -- The branch that keeps the place walks nothing.
    by_cases hplace : some price = order.price ∧ quantity - order.filled ≤ order.quantity
    · simpa [hplace] using CallChain.of_acts (.reduce hfound (by omega) hplace.2)
    simp only [hplace, if_false]
    set replacement := { order with price := some price, quantity := quantity - order.filled }
    obtain ⟨hresumes, hvalid⟩ := resumes_validateNewOrder m replacement now
    by_cases hinvalid : (m.validateNewOrder replacement now).2 = .none
    swap
    · simp only [hinvalid, not_false_eq_true, if_true]
      exact ⟨_, _, hresumes, .refuse (by simp), fun I _ _ h => ⟨h, by simp [Visits]⟩⟩
    simp only [hinvalid, not_true_eq_false, if_false]
    obtain ⟨hhalt, hfields⟩ := hvalid hinvalid
    have hact : Acts { m with toSession := (m.validateNewOrder replacement now).1 }
        (.modifyOrder id requester price quantity now) _ :=
      .replace hhalt hfound hplace hfields
    have hentering := (hwf.resumes hresumes).act hfifo hact
    exact ⟨_, _, hresumes, hact, fun I hI hwalks h =>
      enter_carried hI (admitted_of_entering hentering) (hI.reenter h) hwalks false⟩

/-- A cancellation is one action. -/
theorem cancelOrder_acts (m : Market) (id : OrderId) (requester : OwnerId) (now : ℤ) :
    Acts m (.cancelOrder id requester now) (.idle (m.cancelOrder id requester now).1) := by
  have hrefuse : Acts m (.cancelOrder id requester now) (.idle m) := .refuse (by simp)
  rw [cancelOrder]
  by_cases howned : (!m.ownedBy id requester) = true
  · rw [if_pos howned]
    exact hrefuse
  · rw [if_neg howned]
    cases hfound : m.restingOrder? id with
    | none => exact hrefuse
    | some order => exact .cancel hfound

/-- The cases of `place_stop_order`. -/
theorem placeStopOrder_cases (m : Market) (stop : StopOrder) (now : ℤ) :
    (∃ why ≠ RejectReason.none, m.placeStopOrder stop now =
      ({ m with
          toSession := m.emitRejected stop.id stop.ownerId stop.side (some stop.stopPrice)
            stop.quantity stop.limitPrice why now }, why)) ∨
      m.idInUse stop.id = false ∧ Session.validateStopFields stop = .none ∧
        m.wouldTriggerNow stop.side stop.stopPrice = false ∧
        m.placeStopOrder stop now =
          ({ m with
            stops := m.stops ++ [stop]
            stopIdsSeen := Function.update m.stopIdsSeen stop.id true }.emit
              (stop.event .stopAccepted now), .none) := by
  rw [placeStopOrder]
  simp only
  -- The three checks, each made only if those before it have passed.
  set bad₁ := Session.validateStopFields stop with hbad₁
  set bad₂ := if (decide (bad₁ = RejectReason.none) && m.idInUse stop.id) = true then
    RejectReason.duplicateOrderId else bad₁ with hbad₂
  set bad₃ := if (decide (bad₂ = RejectReason.none) && m.wouldTriggerNow stop.side stop.stopPrice) =
    true then RejectReason.stopWouldTrigger else bad₂ with hbad₃
  split_ifs with hbad
  · exact Or.inl ⟨bad₃, hbad, rfl⟩
  · have h₃ : bad₃ = .none := by simpa using hbad
    have h₂ : bad₂ = .none ∧ m.wouldTriggerNow stop.side stop.stopPrice = false := by
      rw [hbad₃] at h₃
      split_ifs at h₃ with hahead
      simp only [h₃, decide_true, Bool.true_and, Bool.not_eq_true] at hahead
      exact ⟨h₃, hahead⟩
    have h₁ : bad₁ = .none ∧ m.idInUse stop.id = false := by
      rw [hbad₂] at h₂
      obtain ⟨h₂, -⟩ := h₂
      split_ifs at h₂ with hdup
      simp only [h₂, decide_true, Bool.true_and, Bool.not_eq_true] at hdup
      exact ⟨h₂, hdup⟩
    exact Or.inr ⟨h₁.2, h₁.1, h₂.2, rfl⟩

/-- The placement of a stop is one action. -/
theorem placeStopOrder_acts (m : Market) (stop : StopOrder) (now : ℤ) :
    Acts m (.placeStopOrder stop now) (.idle (m.placeStopOrder stop now).1) := by
  rcases placeStopOrder_cases m stop now with ⟨why, -, heq⟩ | ⟨hfresh, hvalid, hahead, heq⟩
  · rw [heq]
    exact .rejectStop
  · rw [heq]
    exact .placeStop hfresh hvalid hahead

/-- The cancellation of a stop is one action. -/
theorem cancelStopOrder_acts (m : Market) (id : OrderId) (requester : OwnerId) (now : ℤ) :
    Acts m (.cancelStopOrder id requester now) (.idle (m.cancelStopOrder id requester now).1) := by
  have hrefuse : Acts m (.cancelStopOrder id requester now) (.idle m) := .refuse (by simp)
  rw [cancelStopOrder]
  split_ifs
  · exact hrefuse
  · cases hfound : m.stop? id with
    | none => exact hrefuse
    | some stop => exact .cancelStop hfound

/-- The cases of `modify_stop_order`. -/
theorem modifyStopOrder_cases (m : Market) (id : OrderId) (requester : OwnerId) (stopPrice : ℤ)
    (limitPrice : Option ℤ) (quantity now : ℤ) :
    (∃ why ≠ RejectReason.none,
      m.modifyStopOrder id requester stopPrice limitPrice quantity now = (m, why)) ∨
      ∃ old, m.stop? id = some old ∧
        Session.validateStopFields { old with stopPrice, limitPrice, quantity } = .none ∧
        m.wouldTriggerNow old.side stopPrice = false ∧
        m.modifyStopOrder id requester stopPrice limitPrice quantity now =
          ({ m with
            stops := replaceStop m.stops old { old with stopPrice, limitPrice, quantity } }.emit
              ({ old with stopPrice, limitPrice, quantity }.event .stopModified now), .none) := by
  have hgone : m.stopGoneReason id ≠ .none := by
    unfold Session.stopGoneReason
    split_ifs <;> simp
  rw [modifyStopOrder]
  simp only
  split_ifs
  · exact Or.inl ⟨_, by simp, rfl⟩
  · cases hfound : m.stop? id with
    | none => exact Or.inl ⟨_, hgone, rfl⟩
    | some old =>
      simp only
      split_ifs with hbad hahead
      · exact Or.inl ⟨_, hbad, rfl⟩
      · exact Or.inl ⟨_, by simp, rfl⟩
      · exact Or.inr ⟨old, rfl, by simpa using hbad, by simpa using hahead, rfl⟩

/-- The modification of a stop is one action. -/
theorem modifyStopOrder_acts (m : Market) (id : OrderId) (requester : OwnerId) (stopPrice : ℤ)
    (limitPrice : Option ℤ) (quantity now : ℤ) :
    Acts m (.modifyStopOrder id requester stopPrice limitPrice quantity now)
      (.idle (m.modifyStopOrder id requester stopPrice limitPrice quantity now).1) := by
  rcases modifyStopOrder_cases m id requester stopPrice limitPrice quantity now with
    ⟨why, -, heq⟩ | ⟨old, hfound, hvalid, hahead, heq⟩
  · rw [heq]
    exact .refuse (by simp)
  · rw [heq]
    exact .modifyStop hfound hvalid hahead

/-- **Calls.** Every call is a chain of steps between its entries' walks. -/
theorem call_chain (c : Call) (hwf : m.Wf []) (hfifo : m.fifo = []) :
    CallChain m c (m.call c) (m.callEntries c) := by
  cases c with
  | addOrder order now => exact addOrder_chain m order now
  | modifyOrder id requester price quantity now =>
    exact modifyOrder_chain m id requester price quantity now hwf hfifo
  | cancelOrder id requester now => exact .of_acts (cancelOrder_acts ..)
  | placeStopOrder stop now => exact .of_acts (placeStopOrder_acts ..)
  | cancelStopOrder id requester now => exact .of_acts (cancelStopOrder_acts ..)
  | modifyStopOrder id requester stopPrice limitPrice quantity now =>
    exact .of_acts (modifyStopOrder_acts ..)

/-- Every call is a chain of steps. -/
theorem call_steps (c : Call) (hwf : m.Wf []) (hfifo : m.fifo = []) :
    ∃ m₀ s, Resumes c.now m m₀ ∧ Acts m₀ c s ∧ Steps c.now s (.idle (m.call c)) ∧
      Visits c.now (Steps c.now s) (m.callEntries c) := by
  obtain ⟨m₀, s, hresumes, hact, hchain⟩ := call_chain c hwf hfifo
  have hfifo₀ : m₀.fifo = [] := by
    rcases hresumes with rfl | ⟨-, -, rfl⟩ <;> exact hfifo
  have hs := (hwf.resumes hresumes).act hfifo₀ hact
  obtain ⟨hidle, hvisits⟩ := hchain _ (carried_steps hs) (carries_steps hs _) Relation.ReflTransGen.refl
  exact ⟨m₀, s, hresumes, hact, hidle, hvisits⟩

/-! ## The FIFO is drained -/

/-- The number of stops that are dormant or woken. -/
def pending (m : Market) : ℕ := m.stops.length + m.fifo.length

/-- Waking a stop does not change how many there are. -/
theorem pending_wakeStops (low high : ℤ) (m : Market) : (m.wakeStops low high).pending = m.pending := by
  rw [wakeStops]
  split_ifs
  · rfl
  · have := (List.filter_append_perm (touched low high) m.stops).length_eq
    simp only [pending, List.length_append] at this ⊢
    omega

/-- Nothing that an order does before its stops fire changes their number. -/
theorem pending_enterWith (m : Market) (order : Order) (now : ℤ) (reportReject : Bool) :
    (m.enterWith (fun low high _ m => m.wakeStops low high) order now reportReject).1.pending =
      m.pending := by
  cases hadm : m.admitted order now with
  | none =>
    obtain ⟨why, -, heq⟩ :=
      enterWith_of_refused (fun low high _ m => m.wakeStops low high) hadm reportReject
    rw [heq]
    rfl
  | some m' =>
    have hm' : m'.pending = m.pending := by
      obtain ⟨m₀, hresumes, -, -, -, rfl⟩ := admitted_eq_some hadm
      rcases hresumes with rfl | ⟨-, -, rfl⟩ <;> rfl
    obtain ⟨hs, hf⟩ := walk_stops m' order now
    have hwalk : (m'.walk order now).1.pending = m.pending := by
      rw [pending, hs, hf]
      exact hm'
    rw [enterWith_of_admitted _ hadm, afterWalk]
    cases (m'.walk order now).2.trades.getLast? with
    | none => exact hwalk
    | some last => exact (pending_wakeStops ..).trans hwalk

/-- The fuel of a drain outlasts the FIFO. -/
theorem fifo_drain (now : ℤ) (fuel : ℕ) (m : Market) (hfuel : m.pending ≤ fuel) :
    (m.drain now fuel).fifo = [] := by
  induction fuel generalizing m with
  | zero =>
    rw [pending] at hfuel
    exact List.length_eq_zero_iff.mp (by show m.fifo.length = 0; omega)
  | succ fuel ih =>
    rw [drain]
    cases hfifo : m.fifo with
    | nil => exact hfifo
    | cons stop rest =>
      simp only
      split_ifs
      · rfl
      · refine ih _ ?_
        -- A firing takes one stop out, and adds none.
        have hfire : ({ m with fifo := rest }.fireStop stop now).pending + 1 = m.pending := by
          rw [fireStop, pending_enterWith]
          show m.stops.length + rest.length + 1 = m.stops.length + m.fifo.length
          rw [hfifo, List.length_cons]
          omega
        omega

/-- After the firing of stops the FIFO is empty. -/
theorem fifo_triggerStops (low high now : ℤ) (m : Market) (hfifo : m.fifo = []) :
    (m.triggerStops low high now).fifo = [] := by
  rw [triggerStops]
  split_ifs with hhalt
  · rw [wakeStops]
    split_ifs with hhalt'
    · exact hfifo
    · rw [wakeStops, if_neg hhalt'] at hhalt
      exact absurd hhalt hhalt'
  · exact fifo_drain now _ _ le_rfl

/-- After an order has been entered the FIFO is empty. -/
theorem fifo_enter (m : Market) (order : Order) (now : ℤ) (reportReject : Bool) (hfifo : m.fifo = []) :
    (m.enter order now reportReject).1.fifo = [] := by
  rw [enter]
  cases hadm : m.admitted order now with
  | none =>
    obtain ⟨why, -, heq⟩ := enterWith_of_refused triggerStops hadm reportReject
    rw [heq]
    exact hfifo
  | some m' =>
    have hm' : m'.fifo = [] := by
      obtain ⟨m₀, hresumes, -, -, -, rfl⟩ := admitted_eq_some hadm
      rcases hresumes with rfl | ⟨-, -, rfl⟩ <;> exact hfifo
    have hwalk := (walk_stops m' order now).2.trans hm'
    rw [enterWith_of_admitted _ hadm, afterWalk]
    cases (m'.walk order now).2.trades.getLast? with
    | none => exact hwalk
    | some last => exact fifo_triggerStops _ _ _ _ hwalk

/-- No action of a call wakes a stop. -/
theorem Acts.fifo {c : Call} {s : Stage} (h : Acts m c s) : s.market.fifo = m.fifo := by
  cases h <;> rfl

/-- No call leaves a woken stop behind. -/
theorem fifo_call (m : Market) (c : Call) (hfifo : m.fifo = []) : (m.call c).fifo = [] := by
  cases c with
  | addOrder order now => exact fifo_enter m order now true hfifo
  | modifyOrder id requester price quantity now =>
    rw [call, modifyOrder]
    by_cases howned : (!m.ownedBy id requester) = true
    · rw [if_pos howned]
      exact hfifo
    · rw [if_neg howned]
      cases m.restingOrder? id with
      | none => exact hfifo
      | some order =>
        simp only
        split_ifs
        · exact hfifo
        · exact hfifo
        · exact hfifo
        · exact hfifo
        · exact fifo_enter _ _ _ _ hfifo
  | cancelOrder id requester now => exact (cancelOrder_acts m id requester now).fifo.trans hfifo
  | placeStopOrder stop now => exact (placeStopOrder_acts m stop now).fifo.trans hfifo
  | cancelStopOrder id requester now =>
    exact (cancelStopOrder_acts m id requester now).fifo.trans hfifo
  | modifyStopOrder id requester stopPrice limitPrice quantity now =>
    exact (modifyStopOrder_acts m id requester stopPrice limitPrice quantity now).fifo.trans hfifo

/-- A resumption leaves the FIFO alone. -/
theorem Resumes.fifo {m m₀ : Market} (h : Resumes now m m₀) : m₀.fifo = m.fifo := by
  rcases h with rfl | ⟨-, -, rfl⟩ <;> rfl

/-- A call keeps a market well-formed. -/
theorem wf_call (c : Call) (hwf : m.Wf []) (hfifo : m.fifo = []) : (m.call c).Wf [] := by
  obtain ⟨m₀, s, hresumes, hact, hsteps, -⟩ := call_steps c hwf hfifo
  exact hsteps.wf ((hwf.resumes hresumes).act (hresumes.fifo.trans hfifo) hact)

/-- A run keeps a market well-formed, with an empty FIFO. -/
theorem wf_run (calls : List Call) (hwf : m.Wf []) (hfifo : m.fifo = []) :
    (m.run calls).Wf [] ∧ (m.run calls).fifo = [] := by
  induction calls generalizing m with
  | nil => exact ⟨hwf, hfifo⟩
  | cons c calls ih => exact ih (wf_call c hwf hfifo) (fifo_call m c hfifo)

/-! ## What calls keep -/

/-- A property of stages that calls with a property `C` keep. -/
structure CallInvariant (C : Call → Prop) (I : Stage → Prop) : Prop where
  /-- Lifting a halt keeps it. -/
  resume : ∀ {m : Market} {now : ℤ}, m.Wf [] → m.halted = true → m.haltUntil ≤ now → I (.idle m) →
    I (.idle (m.resume now))
  /-- The action of a call keeps it. -/
  act : ∀ {m : Market} {c : Call} {s : Stage}, C c → m.Wf [] → m.fifo = [] → Acts m c s → I (.idle m) → I s
  /-- A step keeps it. -/
  step : ∀ {s s' : Stage} {now : ℤ}, s.Wf → Step now s s' → I s → I s'

namespace CallInvariant

variable {C : Call → Prop}

/-- Steps keep it. -/
theorem steps {s s' : Stage} (hI : CallInvariant C I) (hs : Steps now s s') (hwf : s.Wf) (h : I s) :
    I s' :=
  (hs.invariant (I := fun s => s.Wf ∧ I s)
    (fun hstep h => ⟨h.1.step hstep, hI.step h.1 hstep h.2⟩) ⟨hwf, h⟩).2

/-- A call keeps the property, and its walks begin with it. -/
theorem call {c : Call} (hI : CallInvariant C I) (hc : C c) (hwf : m.Wf []) (hfifo : m.fifo = [])
    (h : I (.idle m)) : I (.idle (m.call c)) ∧ ∀ e ∈ m.callEntries c, I e.start := by
  obtain ⟨m₀, s, hresumes, hact, hsteps, hvisits⟩ := call_steps c hwf hfifo
  have hwf₀ := hwf.resumes hresumes
  have hfifo₀ := hresumes.fifo.trans hfifo
  have h₀ : I (.idle m₀) := by
    rcases hresumes with rfl | ⟨hhalt, huntil, rfl⟩
    · exact h
    · exact hI.resume hwf hhalt huntil h
  have hs := hI.act hc hwf₀ hfifo₀ hact h₀
  have hs_wf := hwf₀.act hfifo₀ hact
  exact ⟨hI.steps hsteps hs_wf hs, fun e he => hI.steps (hvisits e he).2 hs_wf hs⟩

/-- A run keeps the property, and its walks begin with it. -/
theorem run (hI : CallInvariant C I) (calls : List Call) (hC : ∀ c ∈ calls, C c) (hwf : m.Wf [])
    (hfifo : m.fifo = []) (h : I (.idle m)) :
    I (.idle (m.run calls)) ∧ ∀ e ∈ m.runEntries calls, I e.start := by
  induction calls generalizing m with
  | nil => exact ⟨h, by simp [runEntries]⟩
  | cons c calls ih =>
    obtain ⟨hcall, hentries⟩ := hI.call (hC c List.mem_cons_self) hwf hfifo h
    obtain ⟨hrun, hentries'⟩ := ih (fun c hc => hC c (List.mem_cons_of_mem _ hc)) (wf_call c hwf hfifo)
      (fifo_call m c hfifo) hcall
    refine ⟨hrun, fun e he => ?_⟩
    -- The walks of the first call, and those of the others.
    rcases List.mem_append.mp he with he | he
    · exact hentries e he
    · exact hentries' e he

end CallInvariant

end Market

end OrderBookEngine
