import OrderBookEngine.Lib.History
import OrderBookEngine.Market.Events
import OrderBookEngine.Refine.Effects

/-!
# Nothing trades while halted

A halt is in force from its `Halted` event to the next `Resumed` event (`haltedSince`). In between
nothing is accepted, replaced, fired or traded (`Orderly`), and no earlier than the halt expires is it
lifted. What does not put quantity on the market is not affected (`Unaffected`), and takes effect
(`TakesEffect`).
-/

namespace OrderBookEngine

/-- The time of the halt that is in force after a stream of events. -/
def haltedSince (events : List EngineEvent) : Option ℤ :=
  events.foldl (fun since e =>
    match e.kind with
    | .halted => some e.ts
    | .resumed => none
    | _ => since) none

/-- The kinds of event that a halt suspends. A second `Halted` event is one of them. -/
def EventKind.suspended : EventKind → Bool
  | .halted | .trade | .accepted | .replaced | .stopTriggered => true
  | _ => false

/-- An event is not one that is suspended, and does not lift a halt before it expires. -/
def Orderly (haltDurationMs : ℤ) (before : List EngineEvent) (e : EngineEvent) : Prop :=
  (e.kind.suspended = true → haltedSince before = none) ∧
    (e.kind = .resumed → ∃ since, haltedSince before = some since ∧ since + haltDurationMs ≤ e.ts)

/-- One more event starts, ends or leaves the halt. -/
theorem haltedSince_concat (events : List EngineEvent) (e : EngineEvent) :
    haltedSince (events ++ [e]) =
      match e.kind with
      | .halted => some e.ts
      | .resumed => none
      | _ => haltedSince events := by
  unfold haltedSince
  rw [List.foldl_append]
  rfl

namespace Market

variable {m : Market} {now : ℤ} {s s' : Stage} {cfg : Config}

/-- The stream is orderly, and a halt is in force exactly if the market is halted. -/
structure Halts (cfg : Config) (s : Stage) : Prop where
  /-- The configuration stays. -/
  cfg_eq : s.market.cfg = cfg
  /-- Halts and resumptions are orderly. -/
  orderly : History.Each (Orderly cfg.haltDurationMs) s.market.events
  /-- The stream tells since when the book has been halted. -/
  since : haltedSince s.market.events =
    if s.market.halted then some (s.market.haltUntil - cfg.haltDurationMs) else none

/-- Two sessions agree on the halt. -/
structure SameHalt (s s' : Session) : Prop where
  /-- The configuration is the same. -/
  cfg : s'.cfg = s.cfg
  /-- Both are halted, or neither. -/
  halted : s'.halted = s.halted
  /-- The end of the halt is the same. -/
  haltUntil : s'.haltUntil = s.haltUntil

/-- A book that is not halted has no halt in its stream. -/
theorem Halts.since_none (h : Halts cfg s) (hhalt : s.market.halted = false) :
    haltedSince s.market.events = none := by
  rw [h.since, hhalt]
  rfl

/-- A halted book has one, and it began the halt's duration before its end. -/
theorem Halts.since_some (h : Halts cfg s) (hhalt : s.market.halted = true) :
    haltedSince s.market.events = some (s.market.haltUntil - cfg.haltDurationMs) := by
  rw [h.since, hhalt]
  rfl

/-- An event that neither starts nor lifts a halt. -/
theorem Halts.note (h : Halts cfg s) (e : EngineEvent)
    (hevents : s'.market.events = s.market.events ++ [e])
    (hsame : SameHalt s.market.toSession s'.market.toSession)
    (hk : e.kind ≠ .halted ∧ e.kind ≠ .resumed)
    (hsuspended : e.kind.suspended = true → s.market.halted = false) : Halts cfg s' := by
  refine ⟨hsame.cfg.trans h.cfg_eq, ?_, ?_⟩
  · rw [hevents, History.each_concat]
    exact ⟨h.orderly, fun hs => h.since_none (hsuspended hs), fun hr => absurd hr hk.2⟩
  · have hskip : haltedSince (s.market.events ++ [e]) = haltedSince s.market.events := by
      rw [haltedSince_concat]
      cases hkind : e.kind <;> first | rfl | exact absurd hkind hk.1 | exact absurd hkind hk.2
    rw [hevents, hskip, h.since, hsame.halted, hsame.haltUntil]

/-- A change without an event. -/
theorem Halts.silent (h : Halts cfg s) (hevents : s'.market.events = s.market.events)
    (hsame : SameHalt s.market.toSession s'.market.toSession) : Halts cfg s' := by
  refine ⟨hsame.cfg.trans h.cfg_eq, ?_, ?_⟩
  · rw [hevents]
    exact h.orderly
  · rw [hevents, h.since, hsame.halted, hsame.haltUntil]

/-- A trade leaves the halt alone. -/
theorem sameHalt_trade (w : Walk) (now : ℤ) (x : RestingOrder) (xs : List RestingOrder)
    (outside breach : Option ℤ) :
    SameHalt w.market.toSession (w.trade now x xs outside breach).market.toSession := by
  rw [Walk.toSession_trade]
  simp only
  split_ifs <;> exact ⟨rfl, rfl, rfl⟩

/-- An order that comes to rest leaves the halt alone. -/
theorem sameHalt_restOrder {m' : Market} {order : Order} (h : m.restOrder order now = some m') :
    SameHalt m.toSession m'.toSession := by
  obtain ⟨-, rfl⟩ := restOrder_eq_some h
  exact ⟨rfl, rfl, rfl⟩

/-- One step keeps the record of the halts. -/
theorem Halts.step (hwf : s.Wf) (hstep : Step now s s') (h : Halts cfg s) : Halts cfg s' := by
  cases hstep with
  | reenter =>
    exact h.note _ rfl ⟨rfl, rfl, rfl⟩ (by simp [Order.event]) fun _ => hwf.2.1
  | @trade w x xs outside breach meets band =>
    exact h.note _ (w.events_trade now x xs outside breach) (sameHalt_trade ..) (by simp [tradeEvent])
      fun _ => hwf.2.1
  | @halt w x xs meets band =>
    have hevents : (w.halt x now).market.events = w.market.events ++
        [({ w.incoming.event .halted now with price := some x.price }).numbered w.market.nextSeq] := rfl
    have hcfg : w.market.cfg = cfg := h.cfg_eq
    have hnone : haltedSince w.market.events = none := h.since_none hwf.2.1
    refine ⟨hcfg, ?_, ?_⟩
    · show History.Each _ (w.halt x now).market.events
      rw [hevents, History.each_concat]
      exact ⟨h.orderly, fun _ => hnone, fun hr => (by cases hr)⟩
    · -- The halt expires at its own time plus the configured duration.
      show haltedSince (w.halt x now).market.events =
        some (now + w.market.cfg.haltDurationMs - cfg.haltDurationMs)
      rw [hevents, haltedSince_concat, hcfg, add_sub_cancel_right]
      rfl
  | limit meets band => exact h.silent rfl ⟨rfl, rfl, rfl⟩
  | filled quantity => exact h.silent rfl ⟨rfl, rfl, rfl⟩
  | rest quantity type runOut room =>
    exact h.note _ (events_restOrder room) (sameHalt_restOrder room) (by simp [Order.event])
      (by simp [Order.event, EventKind.suspended])
  | expire quantity =>
    exact h.note _ rfl ⟨rfl, rfl, rfl⟩ (by simp [Order.event])
      (by simp [Order.event, EventKind.suspended])
  | restAtBandEdge type valid room =>
    exact h.note _ (events_restOrder room) (sameHalt_restOrder room) (by simp [Order.event])
      (by simp [Order.event, EventKind.suspended])
  | expireStopped =>
    exact h.note _ rfl ⟨rfl, rfl, rfl⟩ (by simp [Order.event])
      (by simp [Order.event, EventKind.suspended])
  | finish => exact h.silent rfl ⟨rfl, rfl, rfl⟩
  | @absorb m trades _ last last_eq =>
    refine h.silent (events_absorb m trades last) ?_
    show SameHalt m.toSession (m.absorb trades last).toSession
    rw [toSession_absorb]
    exact ⟨rfl, rfl, rfl⟩
  | fire fifo halted =>
    exact h.note _ rfl ⟨rfl, rfl, rfl⟩ (by simp [StopOrder.event]) fun _ => halted
  | sendBack halted => exact h.silent rfl ⟨rfl, rfl, rfl⟩

/-- A call begins with the record as it was. -/
theorem Halts.act {c : Call} (hact : Acts m c s) (h : Halts cfg (.idle m)) : Halts cfg s := by
  cases hact with
  | refuse kind => exact h
  | submit fresh halted valid =>
    exact h.note _ rfl ⟨rfl, rfl, rfl⟩ (by simp [Order.event]) fun _ => halted
  | replace halted found change valid =>
    exact h.note _ rfl ⟨rfl, rfl, rfl⟩ (by simp [Order.event]) fun _ => halted
  | reject => exact h.note _ rfl ⟨rfl, rfl, rfl⟩ (by simp) (by simp [EventKind.suspended])
  | rejectStop => exact h.note _ rfl ⟨rfl, rfl, rfl⟩ (by simp) (by simp [EventKind.suspended])
  | placeStop fresh valid ahead =>
    exact h.note _ rfl ⟨rfl, rfl, rfl⟩ (by simp [StopOrder.event])
      (by simp [StopOrder.event, EventKind.suspended])
  | cancelStop found =>
    exact h.note _ rfl ⟨rfl, rfl, rfl⟩ (by simp [StopOrder.event])
      (by simp [StopOrder.event, EventKind.suspended])
  | modifyStop found valid ahead =>
    exact h.note _ rfl ⟨rfl, rfl, rfl⟩ (by simp [StopOrder.event])
      (by simp [StopOrder.event, EventKind.suspended])
  | _ =>
    exact h.note _ rfl ⟨rfl, rfl, rfl⟩ (by simp [Order.event])
      (by simp [Order.event, EventKind.suspended])

/-- A halt is lifted when it has expired. -/
theorem Halts.resume (h : Halts cfg (.idle m)) (hhalt : m.halted = true) (huntil : m.haltUntil ≤ now) :
    Halts cfg (.idle (m.resume now)) := by
  have hsince : haltedSince m.events = some (m.haltUntil - cfg.haltDurationMs) := h.since_some hhalt
  refine ⟨h.cfg_eq, ?_, ?_⟩
  · refine History.each_concat.mpr ⟨h.orderly, fun hs => (by cases hs), fun _ => ⟨_, hsince, ?_⟩⟩
    show m.haltUntil - cfg.haltDurationMs + cfg.haltDurationMs ≤ now
    omega
  · exact haltedSince_concat _ _

/-- In every stage of a run the halts are recorded. -/
theorem halts_invariant (cfg : Config) : CallInvariant (fun _ => True) (Halts cfg) where
  resume _ hhalt huntil h := h.resume hhalt huntil
  act _ _ _ hact h := h.act hact
  step hwf hstep h := h.step hwf hstep

/-- After every run the halts are recorded. -/
theorem halts_run (cfg : Config) (calls : List Call) : Halts cfg (.idle ((make cfg).run calls)) :=
  ((halts_invariant cfg).run calls (fun _ _ => trivial) (wf_make cfg) rfl
    ⟨rfl, History.each_nil, rfl⟩).1

end Market

namespace Book

variable {b : Book} {now : ℤ}

/-- The same book while its symbol is not halted. -/
def awake (b : Book) : Book := { b with halted := false }

/-- A result with the halt as it was. -/
def keepHalt {ρ : Type} (b : Book) (r : Book × ρ) : Book × ρ := ({ r.1 with halted := b.halted }, r.2)

/-- The operations that a halt does not affect: they do what they would do without it. -/
structure Unaffected (b : Book) : Prop where
  /-- An order can be cancelled. -/
  cancel : ∀ id requester now,
    b.cancelOrder id requester now = b.keepHalt (b.awake.cancelOrder id requester now)
  /-- Its quantity can be reduced in place. -/
  reduce : ∀ id requester price quantity now p, b.idIndex id = some p →
    Reduces (b.node p).order price quantity →
    b.modifyOrder id requester price quantity now =
      b.keepHalt (b.awake.modifyOrder id requester price quantity now)
  /-- A stop can be placed. -/
  placeStop : ∀ stop now, b.placeStopOrder stop now = b.keepHalt (b.awake.placeStopOrder stop now)
  /-- A stop can be cancelled. -/
  cancelStop : ∀ id requester now,
    b.cancelStopOrder id requester now = b.keepHalt (b.awake.cancelStopOrder id requester now)
  /-- A stop can be modified. -/
  modifyStop : ∀ id requester stopPrice limitPrice quantity now,
    b.modifyStopOrder id requester stopPrice limitPrice quantity now =
      b.keepHalt (b.awake.modifyStopOrder id requester stopPrice limitPrice quantity now)

/-- What these operations do, once they have passed their checks. -/
structure TakesEffect (b : Book) : Prop where
  /-- The owner of a resting order takes it out. -/
  cancel : ∀ id requester now, b.ownedBy id requester = true → (b.idIndex id).isSome →
    (b.cancelOrder id requester now).2 = .none ∧
      b.Withdraws (b.cancelOrder id requester now).1 .cancelled id
  /-- The owner of a resting order gives it a smaller quantity in its place, or takes it out. -/
  reduce : ∀ id requester price quantity now p, b.ownedBy id requester = true → b.idIndex id = some p →
    Session.validateOrderFields { (b.node p).order with price := some price, quantity } = .none →
    Reduces (b.node p).order price quantity →
    let left := quantity - (b.node p).order.filled
    let r := b.modifyOrder id requester price quantity now
    r.2.rejectReason = .none ∧
      (left ≤ 0 ∧ b.Withdraws r.1 .cancelled id ∨ 0 < left ∧ b.Shrinks r.1 id left)
  /-- A new stop waits, as long as there is a priority for it. -/
  placeStop : ∀ stop now, Session.validateStopFields stop = .none → b.idInUse stop.id = false →
    b.wouldTriggerNow stop.side stop.stopPrice = false → (b.placeStopOrder stop now).1.Fits →
    (b.placeStopOrder stop now).2 = .none ∧ b.Arms (b.placeStopOrder stop now).1 .stopAccepted stop
  /-- The owner of a dormant stop takes it out. -/
  cancelStop : ∀ id requester now, b.ownedBy id requester = true → (b.stopIndex id).isSome →
    (b.cancelStopOrder id requester now).2 = .none ∧
      b.Withdraws (b.cancelStopOrder id requester now).1 .stopCancelled id
  /-- The owner of a dormant stop changes it, as long as there is a priority for it. -/
  modifyStop : ∀ stop ∈ b.dormant, ∀ requester stopPrice limitPrice quantity now,
    b.ownedBy stop.id requester = true →
    Session.validateStopFields { stop with stopPrice, limitPrice, quantity } = .none →
    b.wouldTriggerNow stop.side stopPrice = false →
    (b.modifyStopOrder stop.id requester stopPrice limitPrice quantity now).1.Fits →
    let r := b.modifyStopOrder stop.id requester stopPrice limitPrice quantity now
    r.2 = .none ∧ b.Arms r.1 .stopModified { stop with stopPrice, limitPrice, quantity }

/-- In every book of a run these operations take effect, halted or not. -/
theorem Refines.takesEffect {m : Market} (h : b.Refines m) (hwf : m.Wf []) (hfits : b.Fits) :
    TakesEffect b where
  cancel _ _ now howned hresting := h.cancelOrder_withdraws hwf howned hresting now
  reduce _ _ _ _ now _ howned hidx hvalid hreduces :=
    h.modifyOrder_reduces hwf howned hidx hvalid hreduces hfits now
  placeStop _ _ hvalid hfresh hahead hfits' := h.placeStopOrder_arms hvalid hfresh hahead hfits'
  cancelStop _ _ now howned hdormant := h.cancelStopOrder_withdraws hwf howned hdormant hfits now
  modifyStop _ hdormant _ _ _ _ _ howned hvalid hahead hfits' :=
    h.modifyStopOrder_arms hwf howned hdormant hvalid hahead hfits'

/-- The halt makes no difference to these calls. -/
theorem unaffected (b : Book) : Unaffected b where
  cancel id requester now := by
    have howned : b.awake.ownedBy id requester = b.ownedBy id requester := rfl
    have hidx : b.awake.idIndex id = b.idIndex id := rfl
    unfold cancelOrder
    rw [howned, hidx]
    cases b.ownedBy id requester <;> cases b.idIndex id <;> rfl
  reduce id requester price quantity now p hidx hreduces := by
    have howned : b.awake.ownedBy id requester = b.ownedBy id requester := rfl
    have hidx' : b.awake.idIndex id = some p := hidx
    have hnode : b.awake.node p = b.node p := rfl
    unfold modifyOrder
    rw [howned, hidx, hidx']
    simp only [hnode]
    cases b.ownedBy id requester with
    | false => rfl
    | true =>
      simp only [Bool.not_true, Bool.false_eq_true, if_false]
      split_ifs with hbad hnone hplace
      · rfl
      · rfl
      · rfl
      -- Only a change that takes priority asks whether the book is halted.
      all_goals exact absurd hreduces (not_or.mpr ⟨hnone, hplace⟩)
  placeStop stop now := by
    have huse : b.awake.idInUse stop.id = b.idInUse stop.id := rfl
    have htrigger : b.awake.wouldTriggerNow stop.side stop.stopPrice =
      b.wouldTriggerNow stop.side stop.stopPrice := rfl
    unfold placeStopOrder
    simp only [huse, htrigger]
    split_ifs <;> rfl
  cancelStop id requester now := by
    have howned : b.awake.ownedBy id requester = b.ownedBy id requester := rfl
    have hidx : b.awake.stopIndex id = b.stopIndex id := rfl
    have hstops : ∀ side, b.awake.stopsFor side = b.stopsFor side := fun _ => rfl
    unfold cancelStopOrder
    rw [howned, hidx]
    cases b.ownedBy id requester with
    | false => rfl
    | true =>
      cases b.stopIndex id with
      | none => rfl
      | some location =>
        simp only [hstops]
        cases (b.stopsFor location.side).find? location.key <;> rfl
  modifyStop id requester stopPrice limitPrice quantity now := by
    have howned : b.awake.ownedBy id requester = b.ownedBy id requester := rfl
    have hidx : b.awake.stopIndex id = b.stopIndex id := rfl
    have hstops : ∀ side, b.awake.stopsFor side = b.stopsFor side := fun _ => rfl
    have htrigger : ∀ side p, b.awake.wouldTriggerNow side p = b.wouldTriggerNow side p :=
      fun _ _ => rfl
    unfold modifyStopOrder
    rw [howned, hidx]
    cases b.ownedBy id requester with
    | false => rfl
    | true =>
      cases b.stopIndex id with
      | none => rfl
      | some location =>
        simp only [hstops, htrigger]
        cases (b.stopsFor location.side).find? location.key with
        | none => rfl
        | some old =>
          simp only
          split_ifs <;> rfl

/-- What `add_order` does before a halt expires. -/
theorem addOrder_halted (hhalt : b.halted = true) (hearly : now < b.haltUntil) (order : Order) :
    b.addOrder order now =
      ({ b with
          toSession := b.emitRejected order.id order.ownerId order.side order.price order.quantity none
            .symbolHalted now },
        { trades := [], unacceptedQuantity := order.quantity, rejectReason := .symbolHalted }) := by
  have hvalidate : b.validateNewOrder order now = (b.toSession, .symbolHalted) := by
    unfold Session.validateNewOrder
    rw [if_pos hhalt, if_pos hearly]
  unfold addOrder addOrderCore addOrderCoreWith
  rw [hvalidate]
  rfl

/-- What `modify_order` does before a halt expires, where it would put quantity on the market. -/
theorem modifyOrder_halted (hhalt : b.halted = true) (hearly : now < b.haltUntil) {id : OrderId}
    {p : Ptr} (hidx : b.idIndex id = some p) {price quantity : ℤ}
    (hchange : ¬ Reduces (b.node p).order price quantity) (requester : OwnerId) :
    ∃ why ≠ RejectReason.none,
      b.modifyOrder id requester price quantity now =
        (b, { trades := [], unacceptedQuantity := quantity, rejectReason := why }) ∧
      (b.ownedBy id requester = true →
        Session.validateOrderFields { (b.node p).order with price := some price, quantity } = .none →
          why = .symbolHalted) := by
  obtain ⟨hpos, hplace⟩ := not_or.mp hchange
  unfold modifyOrder
  rw [hidx]
  cases b.ownedBy id requester with
  | false => exact ⟨.unknownOrder, by simp, rfl, by simp⟩
  | true =>
    simp only [Bool.not_true, Bool.false_eq_true, if_false]
    -- A valid change that takes priority gets as far as the halt.
    by_cases hbad : Session.validateOrderFields
        { (b.node p).order with price := some price, quantity } = .none
    · refine ⟨.symbolHalted, by simp, ?_, fun _ _ => rfl⟩
      rw [if_neg (not_not.mpr hbad), if_neg hpos, if_neg hplace]
      unfold Session.validateNewOrder
      rw [if_pos hhalt, if_pos hearly]
      rfl
    · exact ⟨_, hbad, if_pos hbad, fun _ h => absurd h hbad⟩

/-- **Nothing trades while halted.** The stream of every run is orderly. While a halt is in force and
has not expired, no order is added, and no order is replaced; what puts no quantity on the market is
not affected, and takes effect. -/
theorem nothing_trades_halted (cfg : Config) (calls : List Call)
    (hfits : ((Book.make cfg).run calls).Fits) :
    let b := (Book.make cfg).run calls
    History.Each (Orderly cfg.haltDurationMs) b.events ∧
    b.halted = (haltedSince b.events).isSome ∧
    ∀ since, haltedSince b.events = some since →
      (∀ order now, now < since + cfg.haltDurationMs →
        b.addOrder order now =
          ({ b with
              toSession := b.emitRejected order.id order.ownerId order.side order.price order.quantity
                none .symbolHalted now },
            { trades := [], unacceptedQuantity := order.quantity, rejectReason := .symbolHalted })) ∧
      (∀ id requester price quantity now p, now < since + cfg.haltDurationMs →
        b.idIndex id = some p → ¬ Reduces (b.node p).order price quantity →
        ∃ why ≠ RejectReason.none,
          b.modifyOrder id requester price quantity now =
            (b, { trades := [], unacceptedQuantity := quantity, rejectReason := why }) ∧
          (b.ownedBy id requester = true →
            Session.validateOrderFields { (b.node p).order with price := some price, quantity } =
              .none → why = .symbolHalted)) ∧
      Unaffected b ∧ TakesEffect b := by
  intro b
  have h : b.Refines ((Market.make cfg).run calls) := run_refines cfg calls hfits
  have hhalts := Market.halts_run cfg calls
  have hevents : b.events = ((Market.make cfg).run calls).events := by rw [h.represents.session]
  -- The stream and the flags of the book tell the same of the halt.
  have hsince : haltedSince b.events =
      if b.halted then some (b.haltUntil - cfg.haltDurationMs) else none := by
    rw [h.represents.session]
    exact hhalts.since
  refine ⟨hevents ▸ hhalts.orderly, ?_, fun since hin => ?_⟩
  · rw [hsince]
    cases b.halted <;> rfl
  · rw [hsince] at hin
    cases hhalt : b.halted with
    | false =>
      rw [hhalt] at hin
      cases hin
    | true =>
      rw [hhalt] at hin
      -- The end of the halt, told from the time of its event.
      have huntil : since + cfg.haltDurationMs = b.haltUntil := by
        rw [← Option.some.inj hin]
        omega
      rw [huntil]
      exact ⟨fun order now hearly => addOrder_halted hhalt hearly order,
        fun id requester price quantity now p hearly hidx hchange =>
          modifyOrder_halted hhalt hearly hidx hchange requester, unaffected b,
        h.takesEffect (reachable_run cfg calls).wf hfits⟩

/-- A sweep that goes on outside the band trips a halt, the next order lifts it when it has expired, and another
sweep trips a second one. An ask is left to rest. -/
def haltedTwice : List Call :=
  let sell (id : OrderId) (price : ℤ) : Call :=
    .addOrder { id, ownerId := 1, side := .sell, type := .limit, price := some price, quantity := 1 } 0
  let buy (id : OrderId) (now : ℤ) : Call :=
    .addOrder { id, ownerId := 2, side := .buy, type := .market, price := none, quantity := 1 } now
  [sell 1 100, sell 2 200, sell 3 300, sell 4 400, buy 5 0, buy 6 0, buy 7 0, buy 8 20, buy 9 20]

/-- The second halt of `haltedTwice` is in force at the end, over an order that rests. -/
theorem nothing_trades_halted_twice :
    let b := (Book.make { poolCapacity := 4, gracePeriodMs := 0, haltDurationMs := 10 }).run haltedTwice
    History.Each (Orderly 10) b.events ∧ haltedSince b.events = some 20 ∧ (b.idIndex 4).isSome ∧
    (∀ order now, now < 20 + 10 →
      b.addOrder order now =
        ({ b with
            toSession := b.emitRejected order.id order.ownerId order.side order.price order.quantity
              none .symbolHalted now },
          { trades := [], unacceptedQuantity := order.quantity, rejectReason := .symbolHalted })) ∧
    (∀ id requester price quantity now p, now < 20 + 10 →
      b.idIndex id = some p → ¬ Reduces (b.node p).order price quantity →
      ∃ why ≠ RejectReason.none,
        b.modifyOrder id requester price quantity now =
          (b, { trades := [], unacceptedQuantity := quantity, rejectReason := why }) ∧
        (b.ownedBy id requester = true →
          Session.validateOrderFields { (b.node p).order with price := some price, quantity } =
            .none → why = .symbolHalted)) ∧
    Unaffected b ∧ TakesEffect b := by
  intro b
  obtain ⟨horderly, -, hin⟩ := nothing_trades_halted
    { poolCapacity := 4, gracePeriodMs := 0, haltDurationMs := 10 } haltedTwice (fits_run rfl _)
  have hsince : haltedSince b.events = some 20 := by decide +kernel
  exact ⟨horderly, hsince, by decide +kernel, hin 20 hsince⟩

end Book

end OrderBookEngine
