import OrderBookEngine.Market.Answers
import OrderBookEngine.Market.Ledger
import OrderBookEngine.Properties.Lifecycle
import OrderBookEngine.Refine.Effects

/-!
# Ownership answers are exact

The owner of an id is that of the event that first accepted it, and stays with the order or the stop
through every phase. Anyone else gets the answer of an empty book; the owner gets an answer that says
exactly where the id is, and a cancellation of what is there takes it out.
-/

namespace OrderBookEngine

/-- An event that accepts an id, as a test. -/
def accepting (id : OrderId) (e : EngineEvent) : Bool :=
  (e.kind = .accepted || e.kind = .stopAccepted) && e.orderId = id

/-- The owner on the event that first accepted an id. -/
def acceptedOwner (id : OrderId) (events : List EngineEvent) : Option OwnerId :=
  (events.find? (accepting id)).map EngineEvent.ownerId

/-- An id was once placed as a stop. -/
def PlacedStop (id : OrderId) (events : List EngineEvent) : Prop :=
  ∃ e ∈ events, e.kind = .stopAccepted ∧ e.orderId = id

/-- One more event gives an owner to an id that has none. -/
theorem acceptedOwner_append (id : OrderId) (events : List EngineEvent) (e : EngineEvent) :
    acceptedOwner id (events ++ [e]) =
      (acceptedOwner id events).or (if accepting id e then some e.ownerId else none) := by
  unfold acceptedOwner
  rw [List.find?_append, Option.map_or]
  congr 1
  by_cases h : accepting id e = true
  · rw [List.find?_cons_of_pos h, if_pos h]
    rfl
  · rw [List.find?_cons_of_neg h, if_neg h]
    rfl

/-- Orders and stops have the owner of their id. -/
def owners : Ledger (Option OwnerId) where
  init := none
  after id owner e := owner.or (if accepting id e then some e.ownerId else none)
  Resting _ x owner := owner = some x.ownerId
  Dormant stop owner := owner = some stop.ownerId
  Flying order owner := owner = some order.ownerId
  Walking order owner := owner = some order.ownerId
  Closed _ _ := True

/-- The account of an id is the owner that it was accepted for. -/
theorem owners_account (id : OrderId) (events : List EngineEvent) :
    owners.account id events = acceptedOwner id events := by
  induction events using List.reverseRecOn with
  | nil => rfl
  | append_singleton events e ih => rw [owners.account_append, ih, acceptedOwner_append]; rfl

/-- An owner stays. -/
theorem owners_after {id : OrderId} {owner : Option OwnerId} {who : OwnerId} {e : EngineEvent}
    (h : owner = some who) : owners.after id owner e = some who := by
  rw [h]
  rfl

/-- Every step of a call keeps the owners. -/
theorem owners_rules : owners.Rules fun _ => True where
  quiet {id a e} h := by
    have hnot : accepting id e = false := by
      unfold Names at h
      unfold accepting
      cases hk : e.kind <;> simp_all
    show a.or _ = a
    rw [hnot]
    exact Option.or_none
  submit {order} _ _ _ _ := by
    show (none : Option OwnerId).or (if accepting order.id _ then _ else _) = _
    rw [if_pos (by simp [accepting, Order.event])]
    rfl
  reenter h _ := owners_after h
  aggressor _ _ h := owners_after h
  passive _ _ h _ := owners_after h
  exhaust _ _ _ _ := trivial
  filled _ _ := trivial
  expire _ := trivial
  rest h _ _ _ := owners_after h
  restAtBandEdge h _ _ _ := owners_after h
  fire {stop} _ _ _ h := by
    have hid : stop.firedOrder.ownerId = stop.ownerId := by
      unfold StopOrder.firedOrder
      cases stop.limitPrice <;> rfl
    show _ = some stop.firedOrder.ownerId
    rw [hid]
    exact owners_after h
  cancel _ := trivial
  reduce h _ _ := owners_after h
  replace h _ := owners_after h
  placeStop {stop} _ _ _ := by
    show (none : Option OwnerId).or (if accepting stop.id _ then _ else _) = _
    rw [if_pos (by simp [accepting, StopOrder.event])]
    rfl
  cancelStop _ := trivial
  modifyStop h _ howner _ _ := by
    show _ = some _
    rw [howner]
    exact owners_after h

/-- Dormant stops were placed as stops. -/
def stopIds : Ledger Bool where
  init := false
  after id seen e := seen || (e.kind = .stopAccepted && e.orderId = id)
  Resting _ _ _ := True
  Dormant _ seen := seen = true
  Flying _ _ := True
  Walking _ _ := True
  Closed _ _ := True

/-- The account of an id says whether it was placed as a stop. -/
theorem stopIds_account (id : OrderId) (events : List EngineEvent) :
    stopIds.account id events = true ↔ PlacedStop id events := by
  induction events using List.reverseRecOn with
  | nil => simp [Ledger.account, stopIds, PlacedStop]
  | append_singleton events e ih =>
    rw [stopIds.account_append]
    show (stopIds.account id events || _) = true ↔ _
    rw [Bool.or_eq_true, ih]
    simp [PlacedStop, or_and_right, exists_or]

/-- Every step of a call keeps the ids of the stops. -/
theorem stopIds_rules : stopIds.Rules fun _ => True where
  quiet {id a e} h := by
    have hnot : (decide (e.kind = .stopAccepted) && decide (e.orderId = id)) = false := by
      unfold Names at h
      cases hk : e.kind <;> simp_all
    show (a || _) = a
    rw [hnot, Bool.or_false]
  submit _ _ := trivial
  reenter _ _ := trivial
  aggressor _ _ _ := trivial
  passive _ _ _ _ := trivial
  exhaust _ _ _ _ := trivial
  filled _ _ := trivial
  expire _ := trivial
  rest _ _ _ _ := trivial
  restAtBandEdge _ _ _ _ := trivial
  fire _ := trivial
  cancel _ := trivial
  reduce _ _ _ := trivial
  replace _ _ := trivial
  placeStop _ := by simp [stopIds, StopOrder.event]
  cancelStop _ := trivial
  modifyStop h _ _ _ _ := by
    show (_ || _) = true
    rw [show _ = true from h, Bool.true_or]

namespace Market

variable {m : Market} {now : ℤ} {s s' : Stage}

/-- The recorded owners are those of the stream. -/
theorem Reachable.ownerOf_eq {cfg : Config} (h : Reachable cfg s) (id : OrderId) :
    s.market.ownerOf id = acceptedOwner id s.market.events := by
  refine h.logged (Q := fun s => s.ownerOf id = acceptedOwner id s.events)
    (fun s s' hs h => by rw [hs.ownerOf, hs.events]; exact h) (fun s e h => ?_) rfl
  have hevents : (s.emit e).events = s.events ++ [e.numbered s.nextSeq] := rfl
  have howner : (e.numbered s.nextSeq).ownerId = e.ownerId := rfl
  rw [hevents, acceptedOwner_append, ← h, howner]
  -- `emit` writes an owner for the two kinds that accept an id, and the fold looks at the same two.
  by_cases hk : e.kind = .accepted ∨ e.kind = .stopAccepted
  · by_cases hid : e.orderId = id
    · have hacc : accepting id (e.numbered s.nextSeq) = true := by
        show accepting id e = true
        simpa [accepting, hid] using hk
      rw [if_pos hacc, ← hid]
      -- The first owner of an id stays, in the map as in the fold.
      cases hs : s.ownerOf e.orderId with
      | none => simp [s.ownerOf_emit_of_unowned hk hs]
      | some who => simp [s.ownerOf_emit_of_owned hk hs, hs]
    · have hacc : accepting id (e.numbered s.nextSeq) = false := by
        show accepting id e = false
        simp [accepting, hid]
      rw [hacc, if_neg Bool.false_ne_true, Option.or_none]
      cases hs : s.ownerOf e.orderId with
      | none => rw [s.ownerOf_emit_of_unowned hk hs, Function.update_of_ne (Ne.symm hid)]
      | some who => rw [s.ownerOf_emit_of_owned hk hs]
  · have hacc : accepting id (e.numbered s.nextSeq) = false := by
      have hkinds : ¬ e.kind = .accepted ∧ ¬ e.kind = .stopAccepted := not_or.mp hk
      show accepting id e = false
      simp [accepting, hkinds.1, hkinds.2]
    rw [s.ownerOf_emit_of_ne hk, hacc, if_neg Bool.false_ne_true, Option.or_none]

/-- An order that comes to rest is not seen as a stop. -/
theorem stopIdsSeen_restOrder {m' : Market} {order : Order} (h : m.restOrder order now = some m') :
    m'.stopIdsSeen = m.stopIdsSeen := by
  obtain ⟨-, rfl⟩ := restOrder_eq_some h
  rfl

/-- The engine's steps place no stop. -/
theorem Step.stopIdsSeen (h : Step now s s') : s'.market.stopIdsSeen = s.market.stopIdsSeen := by
  cases h with
  | @trade w x xs outside breach meets band =>
    show (w.trade now x xs outside breach).market.stopIdsSeen = _
    rw [Walk.toSession_trade]
    simp only
    split_ifs <;> rfl
  | rest quantity type runOut room => exact stopIdsSeen_restOrder room
  | restAtBandEdge type valid room => exact stopIdsSeen_restOrder room
  | @absorb m trades _ last last_eq =>
    show (m.absorb trades last).stopIdsSeen = _
    rw [toSession_absorb]
    rfl
  | _ => rfl

/-- The ids seen as stops are those that the stream has placed. -/
def SeesStops (s : Stage) : Prop :=
  ∀ id, s.market.stopIdsSeen id = true ↔ PlacedStop id s.market.events

/-- Only an accepted stop is placed. -/
theorem placedStop_append {id : OrderId} {events es : List EngineEvent}
    (h : ∀ e ∈ es, e.kind ≠ .stopAccepted) :
    PlacedStop id (events ++ es) ↔ PlacedStop id events := by
  unfold PlacedStop
  constructor
  · rintro ⟨e, he, hk⟩
    rcases List.mem_append.mp he with he | he
    · exact ⟨e, he, hk⟩
    · exact absurd hk.1 (h e he)
  · rintro ⟨e, he, hk⟩
    exact ⟨e, List.mem_append_left _ he, hk⟩

/-- In every run the stops seen are those placed. -/
theorem seesStops_invariant (cfg : Config) : Invariant cfg SeesStops where
  start id := by simp [make, Stage.market, PlacedStop]
  resume {m now} _ h id := by
    refine (h id).trans (Iff.symm ?_)
    refine placedStop_append fun e he => ?_
    simp [List.mem_singleton.mp he]
  act {m c s} _ hact h id := by
    -- An event of another kind places no stop.
    have hone : ∀ e : EngineEvent, e.kind ≠ .stopAccepted →
        (m.stopIdsSeen id = true ↔ PlacedStop id (m.events ++ [e])) := fun e hk =>
      (h id).trans (placedStop_append fun e' he' => List.mem_singleton.mp he' ▸ hk).symm
    cases hact with
    | refuse kind => exact h id
    | @placeStop stop now fresh valid ahead =>
      show Function.update m.stopIdsSeen stop.id true id = true ↔
        PlacedStop id (m.events ++ [(stop.event .stopAccepted now).numbered m.nextSeq])
      by_cases hid : id = stop.id
      · rw [hid, Function.update_self]
        refine ⟨fun _ => ⟨_, List.mem_append_right _ (List.mem_singleton_self _), rfl, rfl⟩, fun _ => rfl⟩
      · rw [Function.update_of_ne hid]
        refine (h id).trans ?_
        unfold PlacedStop
        constructor
        · rintro ⟨e, he, hk⟩
          exact ⟨e, List.mem_append_left _ he, hk⟩
        · rintro ⟨e, he, hk⟩
          rcases List.mem_append.mp he with he | he
          · exact ⟨e, he, hk⟩
          · rw [List.mem_singleton.mp he] at hk
            exact absurd hk.2.symm hid
    | _ => exact hone _ (by simp [Order.event, StopOrder.event])
  step hstep h id := by
    obtain ⟨es, hes, hkinds⟩ := hstep.appends
    rw [hstep.stopIdsSeen, hes, h id]
    refine (placedStop_append fun e he hk => ?_).symm
    have := hkinds e he
    simp [hk, EventKind.ofStep] at this

end Market

namespace Book

/-- What a requester who does not own an id is told: what an empty book says, by a book that does not
change. -/
structure Strangers (cfg : Config) (b : Book) (id : OrderId) (requester : OwnerId) : Prop where
  /-- A cancellation is refused. -/
  cancel : ∀ now, b.cancelOrder id requester now = (b, .unknownOrder) ∧
    ((make cfg).cancelOrder id requester now).2 = .unknownOrder
  /-- The cancellation of a stop is refused. -/
  cancelStop : ∀ now, b.cancelStopOrder id requester now = (b, .unknownOrder) ∧
    ((make cfg).cancelStopOrder id requester now).2 = .unknownOrder
  /-- A modification is refused. -/
  modify : ∀ price quantity now, ∃ result, result.rejectReason = RejectReason.unknownOrder ∧
    b.modifyOrder id requester price quantity now = (b, result) ∧
    ((make cfg).modifyOrder id requester price quantity now).2 = result
  /-- The modification of a stop is refused. -/
  modifyStop : ∀ stopPrice limitPrice quantity now,
    b.modifyStopOrder id requester stopPrice limitPrice quantity now = (b, .unknownOrder) ∧
    ((make cfg).modifyStopOrder id requester stopPrice limitPrice quantity now).2 = .unknownOrder

/-- The answers of an operation on an id that is present, finished, or neither. -/
structure Classifies (why : RejectReason) (here gone never : Prop) : Prop where
  /-- Any other answer tells that the id is here. -/
  here_iff : why ≠ .tooLate ∧ why ≠ .unknownOrder ↔ here
  /-- Too late tells that the id is gone. -/
  gone_iff : why = .tooLate ↔ gone
  /-- Unknown tells that the id was never here. -/
  never_iff : why = .unknownOrder ↔ never

/-- What the owner of an id is told. -/
structure Owners (b : Book) (id : OrderId) (requester : OwnerId) : Prop where
  /-- A cancellation succeeds exactly for a resting order. -/
  cancel : ∀ now, ((b.cancelOrder id requester now).2 = .none ↔ (b.idIndex id).isSome) ∧
    Classifies (b.cancelOrder id requester now).2 (b.idIndex id).isSome (b.finalState id).isSome
      (b.stopIndex id).isSome
  /-- A cancellation that succeeds takes out the order, and nothing else. -/
  cancelled : ∀ now, (b.cancelOrder id requester now).2 = .none →
    b.Withdraws (b.cancelOrder id requester now).1 .cancelled id
  /-- A modification is too late exactly for a finished id. -/
  modify : ∀ price quantity now,
    Classifies (b.modifyOrder id requester price quantity now).2.rejectReason (b.idIndex id).isSome
      (b.finalState id).isSome (b.stopIndex id).isSome
  /-- The cancellation of a stop succeeds exactly for a dormant stop. -/
  cancelStop : ∀ now, ((b.cancelStopOrder id requester now).2 = .none ↔ (b.stopIndex id).isSome) ∧
    Classifies (b.cancelStopOrder id requester now).2 (b.stopIndex id).isSome
      (PlacedStop id b.events ∧ b.stopIndex id = none) (¬ PlacedStop id b.events)
  /-- The cancellation of a stop that succeeds takes out the stop, and nothing else. -/
  stopCancelled : ∀ now, (b.cancelStopOrder id requester now).2 = .none →
    b.Withdraws (b.cancelStopOrder id requester now).1 .stopCancelled id
  /-- The modification of a stop is too late exactly for a stop that is gone. -/
  modifyStop : ∀ stopPrice limitPrice quantity now,
    Classifies (b.modifyStopOrder id requester stopPrice limitPrice quantity now).2
      (b.stopIndex id).isSome (PlacedStop id b.events ∧ b.stopIndex id = none)
      (¬ PlacedStop id b.events)

variable {b : Book} {m : Market} {id : OrderId} {requester : OwnerId}

/-- Where an id in one place can be. -/
theorem place_cases (h : b.places id = 1) :
    (b.idIndex id).isSome ∧ b.stopIndex id = none ∧ b.finalState id = none ∨
      b.idIndex id = none ∧ (b.stopIndex id).isSome ∧ b.finalState id = none ∨
        b.idIndex id = none ∧ b.stopIndex id = none ∧ (b.finalState id).isSome := by
  unfold places at h
  cases hr : b.idIndex id <;> cases hs : b.stopIndex id <;> cases hf : b.finalState id <;>
    simp [hr, hs, hf] at h ⊢

/-- Whoever does not own an id is a stranger to it. -/
theorem strangers (cfg : Config) (hb : b.ownedBy id requester = false) : Strangers cfg b id requester := by
  have hmake : (make cfg).ownedBy id requester = false := rfl
  refine ⟨fun now => ⟨?_, ?_⟩, fun now => ⟨?_, ?_⟩,
    fun price quantity now => ⟨⟨[], quantity, .unknownOrder, none⟩, rfl, ?_, ?_⟩,
    fun stopPrice limitPrice quantity now => ⟨?_, ?_⟩⟩
  · rw [cancelOrder, hb]
    rfl
  · rw [cancelOrder, hmake]
    rfl
  · rw [cancelStopOrder, hb]
    rfl
  · rw [cancelStopOrder, hmake]
    rfl
  · rw [modifyOrder, hb]
    rfl
  · rw [modifyOrder, hmake]
    rfl
  · rw [modifyStopOrder, hb]
    rfl
  · rw [modifyStopOrder, hmake]
    rfl

/-- The answers about orders, from those on an id that rests and on one that does not. -/
theorem classifies_order (hplace : b.places id = 1) {why : RejectReason}
    (here : (b.idIndex id).isSome → why ≠ .tooLate ∧ why ≠ .unknownOrder)
    (gone : b.idIndex id = none →
      why = if (b.finishedOrders id).isSome then .tooLate else .unknownOrder) :
    Classifies why (b.idIndex id).isSome (b.finalState id).isSome (b.stopIndex id).isSome := by
  have hfinal : b.finalState id = b.finishedOrders id := rfl
  rcases place_cases hplace with ⟨hr, hs, hf⟩ | ⟨hr, hs, hf⟩ | ⟨hr, hs, hf⟩
  · obtain ⟨hlate, hunknown⟩ := here hr
    exact ⟨by simp [hlate, hunknown, hr], by simp [hlate, hf], by simp [hunknown, hs]⟩
  · have hwhy := gone hr
    rw [← hfinal, hf] at hwhy
    exact ⟨by simp [hwhy, hr], by simp [hwhy, hf], by simp [hwhy, hs]⟩
  · have hwhy := gone hr
    rw [← hfinal, if_pos hf] at hwhy
    exact ⟨by simp [hwhy, hr], by simp [hwhy, hf], by simp [hwhy, hs]⟩

/-- The answers about stops, likewise. -/
theorem classifies_stop (seen : b.stopIdsSeen id = true ↔ PlacedStop id b.events)
    (placed : (b.stopIndex id).isSome → PlacedStop id b.events) {why : RejectReason}
    (here : (b.stopIndex id).isSome → why ≠ .tooLate ∧ why ≠ .unknownOrder)
    (gone : b.stopIndex id = none → why = b.stopGoneReason id) :
    Classifies why (b.stopIndex id).isSome (PlacedStop id b.events ∧ b.stopIndex id = none)
      (¬ PlacedStop id b.events) := by
  rw [Session.stopGoneReason] at gone
  cases hs : b.stopIndex id with
  | some location =>
    have hs' : (b.stopIndex id).isSome := by simp [hs]
    obtain ⟨hlate, hunknown⟩ := here hs'
    exact ⟨by simp [hlate, hunknown], by simp [hlate], by simp [hunknown, placed hs']⟩
  | none =>
    have hwhy := gone hs
    by_cases hp : PlacedStop id b.events
    · rw [if_pos (seen.mpr hp)] at hwhy
      exact ⟨by simp [hwhy], by simp [hwhy, hp], by simp [hwhy, hp]⟩
    · rw [if_neg (mt seen.mp hp)] at hwhy
      exact ⟨by simp [hwhy], by simp [hwhy, hp], by simp [hwhy, hp]⟩

/-- An owner's cancellation is answered by where the id is. -/
theorem cancelOrder_answer (hb : b.ownedBy id requester = true) (now : ℤ) :
    (b.cancelOrder id requester now).2 =
      if (b.idIndex id).isSome then .none
      else if (b.finishedOrders id).isSome then .tooLate else .unknownOrder := by
  rw [cancelOrder, hb]
  cases b.idIndex id <;> rfl

/-- An owner's cancellation of a stop is answered by where the stop is. -/
theorem cancelStopOrder_answer (hb : b.ownedBy id requester = true) (now : ℤ) :
    (b.cancelStopOrder id requester now).2 =
      if (b.stopIndex id).isSome then .none else b.stopGoneReason id := by
  rw [cancelStopOrder, hb]
  cases b.stopIndex id with
  | none => rfl
  | some location =>
    simp only [Bool.not_true, Bool.false_eq_true, if_false, Option.isSome_some, if_true]
    cases (b.stopsFor location.side).find? location.key <;> rfl

/-- A change of a resting order is never said to come too late. -/
theorem modifyOrder_answer (h : b.Refines m) (hwf : m.Wf []) (hb : b.ownedBy id requester = true)
    (hr : (b.idIndex id).isSome) (price quantity now : ℤ) :
    (b.modifyOrder id requester price quantity now).2.rejectReason ≠ .tooLate ∧
      (b.modifyOrder id requester price quantity now).2.rejectReason ≠ .unknownOrder := by
  have howned : m.ownedBy id requester = true := by rwa [← h.represents.session]
  have hfound : (m.restingOrder? id).isSome := by
    rcases h.represents.lookup id with ⟨h1, -⟩ | ⟨p, -, h2⟩
    · simp [h1] at hr
    · simp [h2]
  rw [(modifyOrder_represents h.represents h.drainingStops id requester price quantity now).1]
  have hcases := Market.modifyOrder_cases hwf h.fifo id requester price quantity now
  generalize m.modifyOrder id requester price quantity now = r at hcases
  cases hcases with
  | unowned owned => simp [howned] at owned
  | notResting owned found => simp [found] at hfound
  | invalid owned found fields bad => rcases bad with rfl | rfl <;> simp
  | halted => simp
  | withdraw => simp
  | reduce => simp
  | replace owned found pos change valid resumes halted enter why => rcases why with why | why <;> simp [why]

/-- A change of a dormant stop is never said to come too late. -/
theorem modifyStopOrder_answer (hb : b.ownedBy id requester = true) (hs : (b.stopIndex id).isSome)
    (stopPrice : ℤ) (limitPrice : Option ℤ) (quantity now : ℤ) :
    (b.modifyStopOrder id requester stopPrice limitPrice quantity now).2 ≠ .tooLate ∧
      (b.modifyStopOrder id requester stopPrice limitPrice quantity now).2 ≠ .unknownOrder := by
  have hfields : ∀ stop, Session.validateStopFields stop ≠ .tooLate ∧
      Session.validateStopFields stop ≠ .unknownOrder := fun stop => by
    unfold Session.validateStopFields
    split_ifs <;> simp
  obtain ⟨location, hlocation⟩ := Option.isSome_iff_exists.mp hs
  rw [modifyStopOrder, hb, hlocation]
  simp only [Bool.not_true, Bool.false_eq_true, if_false]
  cases (b.stopsFor location.side).find? location.key with
  | none => simp
  | some old =>
    simp only
    split_ifs with hbad htrigger
    · exact hfields _
    · simp
    · simp
    · simp

/-- An owner's cancellation succeeds for a resting order. -/
theorem cancelOrder_eq_none (hb : b.ownedBy id requester = true) (now : ℤ) :
    (b.cancelOrder id requester now).2 = .none ↔ (b.idIndex id).isSome := by
  rw [cancelOrder_answer hb now]
  split_ifs with hr hf <;> simp [hr]

/-- An owner's cancellation of a stop succeeds for a dormant stop. -/
theorem cancelStopOrder_eq_none (hb : b.ownedBy id requester = true) (now : ℤ) :
    (b.cancelStopOrder id requester now).2 = .none ↔ (b.stopIndex id).isSome := by
  rw [cancelStopOrder_answer hb now, Session.stopGoneReason]
  split_ifs with hs hf <;> simp [hs]

/-- What the owner of an accepted id is told. -/
theorem owners_answers (h : b.Refines m) (hwf : m.Wf []) (hfits : b.Fits) (hplace : b.places id = 1)
    (hb : b.ownedBy id requester = true)
    (seen : b.stopIdsSeen id = true ↔ PlacedStop id b.events)
    (placed : (b.stopIndex id).isSome → PlacedStop id b.events) : Owners b id requester where
  cancel now := by
    have hanswer := cancelOrder_answer hb now
    refine ⟨cancelOrder_eq_none hb now, classifies_order hplace (fun hr => ?_) fun hr => ?_⟩
    · rw [hanswer, if_pos hr]
      simp
    · rw [hanswer, if_neg (by simp [hr])]
  cancelled now hnone := (h.cancelOrder_withdraws hwf hb ((cancelOrder_eq_none hb now).mp hnone) now).2
  modify price quantity now := by
    refine classifies_order hplace (fun hr => modifyOrder_answer h hwf hb hr price quantity now)
      fun hr => ?_
    rw [modifyOrder, hb, hr]
    rfl
  cancelStop now := by
    have hanswer := cancelStopOrder_answer hb now
    refine ⟨cancelStopOrder_eq_none hb now, classifies_stop seen placed (fun hs => ?_) fun hs => ?_⟩
    · rw [hanswer, if_pos hs]
      simp
    · rw [hanswer, if_neg (by simp [hs])]
  stopCancelled now hnone :=
    (h.cancelStopOrder_withdraws hwf hb ((cancelStopOrder_eq_none hb now).mp hnone) hfits now).2
  modifyStop stopPrice limitPrice quantity now := by
    refine classifies_stop seen placed
      (fun hs => modifyStopOrder_answer hb hs stopPrice limitPrice quantity now) fun hs => ?_
    rw [modifyStopOrder, hb, hs]
    rfl

/-- **Ownership answers are exact.** Anyone but the owner recorded at the acceptance of an id is told
what an empty book says, and changes nothing; the owner is told where the id is, and can take it out. That
owner is the one of the resting order or the dormant stop. -/
theorem ownership_exact (cfg : Config) (calls : List Call)
    (hfits : ((Book.make cfg).run calls).Fits) :
    let b := (Book.make cfg).run calls
    (∀ id requester, acceptedOwner id b.events ≠ some requester → Strangers cfg b id requester) ∧
    (∀ id requester, acceptedOwner id b.events = some requester → Owners b id requester) ∧
    (∀ id, b.ownerOf id = acceptedOwner id b.events) ∧
    (∀ side, ∀ x ∈ b.collect side, b.ownerOf x.orderId = some x.ownerId ∧
      ∀ requester now, (b.cancelOrder x.orderId requester now).2 = .none ↔ requester = x.ownerId) ∧
    ∀ stop ∈ b.dormant, b.ownerOf stop.id = some stop.ownerId ∧
      ∀ requester now, (b.cancelStopOrder stop.id requester now).2 = .none ↔
        requester = stop.ownerId := by
  intro b
  have h : b.Refines ((Market.make cfg).run calls) := run_refines cfg calls hfits
  have hreach := reachable_run cfg calls
  set m := (Market.make cfg).run calls
  have hevents : b.events = m.events := by rw [h.represents.session]
  have hownerOf : ∀ id, b.ownerOf id = acceptedOwner id b.events := fun id => by
    rw [h.represents.session]
    exact hreach.ownerOf_eq id
  have hownedBy : ∀ {id requester}, b.ownerOf id = some requester → b.ownedBy id requester = true :=
    fun hid => by simp [Session.ownedBy, hid]
  have hplaced : ∀ {id}, (b.stopIndex id).isSome → PlacedStop id b.events := fun {id} hs => by
    rw [h.represents.stopIndex_isSome, Market.stop?_isSome] at hs
    obtain ⟨stop, hstop, rfl⟩ := List.mem_map.mp hs
    rw [hevents, ← stopIds_account]
    exact (stopIds_rules.run cfg calls fun _ _ => trivial).dormant stop
      (List.mem_append_right _ hstop)
  have hseen : ∀ id, b.stopIdsSeen id = true ↔ PlacedStop id b.events := by
    rw [h.represents.session]
    exact hreach.invariant (Market.seesStops_invariant cfg)
  have hstrangers : ∀ id requester, acceptedOwner id b.events ≠ some requester →
      Strangers cfg b id requester := fun id requester hid => by
    rw [← hownerOf] at hid
    exact strangers cfg (by simpa [Session.ownedBy] using hid)
  have howners : ∀ id requester, acceptedOwner id b.events = some requester →
      Owners b id requester := fun id requester hid => by
    rw [← hownerOf] at hid
    refine owners_answers h hreach.wf hfits ?_ (hownedBy hid) (hseen id) hplaced
    rw [h.places_eq hreach.wf, if_pos]
    rw [← h.represents.session, hid]
    rfl
  refine ⟨hstrangers, howners, hownerOf, fun side x hx => ?_, fun stop hstop => ?_⟩
  · rw [h.represents.collect_eq] at hx
    have howner : acceptedOwner x.orderId b.events = some x.ownerId := by
      rw [hevents, ← owners_account]
      exact (owners_rules.run cfg calls fun _ _ => trivial).resting side x hx
    refine ⟨(hownerOf _).trans howner, fun requester now => ⟨fun hnone => ?_, ?_⟩⟩
    -- Anyone else is a stranger, and strangers are refused.
    · by_contra hne
      have hcancel := (hstrangers x.orderId requester (by simpa [howner] using Ne.symm hne)).cancel now
      rw [hcancel.1] at hnone
      cases hnone
    · rintro rfl
      refine (((howners _ _ howner).cancel now).1).mpr ?_
      -- The owner's cancel finds the order, which is at its place in the index.
      rcases h.represents.lookup x.orderId with ⟨-, hfound⟩ | ⟨p, hidx, -⟩
      · have hids : x.orderId ∈ m.bids.map RestingOrder.orderId ++ m.asks.map RestingOrder.orderId := by
          cases side with
          | buy => exact List.mem_append_left _ (List.mem_map_of_mem hx)
          | sell => exact List.mem_append_right _ (List.mem_map_of_mem hx)
        have hmem := Market.restingOrder?_isSome.mpr hids
        simp [hfound] at hmem
      · simp [hidx]
  · rw [h.represents.dormant_perm.mem_iff] at hstop
    have howner : acceptedOwner stop.id b.events = some stop.ownerId := by
      rw [hevents, ← owners_account]
      exact (owners_rules.run cfg calls fun _ _ => trivial).dormant stop
        (List.mem_append_right _ hstop)
    refine ⟨(hownerOf _).trans howner, fun requester now => ⟨fun hnone => ?_, ?_⟩⟩
    · by_contra hne
      have hcancel := (hstrangers stop.id requester
        (by simpa [howner] using Ne.symm hne)).cancelStop now
      rw [hcancel.1] at hnone
      cases hnone
    · rintro rfl
      refine (((howners _ _ howner).cancelStop now).1).mpr ?_
      rw [h.represents.stopIndex_isSome, Market.stop?_isSome]
      exact List.mem_map_of_mem hstop

/-- A stop that fires and fills, an order of another owner that rests with what is left of it, and a stop that
stays dormant. -/
theorem ownership_exact_four :
    let b := (Book.make { poolCapacity := 4 }).run
      [.addOrder { id := 1, ownerId := 1, side := .buy, type := .limit, price := some 100,
                   quantity := 5 } 0,
       .placeStopOrder { id := 2, ownerId := 2, side := .sell, stopPrice := 100, quantity := 1 } 1,
       .placeStopOrder { id := 3, ownerId := 3, side := .sell, stopPrice := 90, quantity := 1 } 2,
       .addOrder { id := 4, ownerId := 2, side := .sell, type := .limit, price := some 100,
                   quantity := 1 } 3]
    (b.collect .buy).map RestingOrder.orderId = [1] ∧ b.dormant.map StopOrder.id = [3] ∧
    (∀ id requester, acceptedOwner id b.events ≠ some requester →
      Strangers { poolCapacity := 4 } b id requester) ∧
    (∀ id requester, acceptedOwner id b.events = some requester → Owners b id requester) ∧
    (∀ id, b.ownerOf id = acceptedOwner id b.events) ∧
    (∀ side, ∀ x ∈ b.collect side, b.ownerOf x.orderId = some x.ownerId ∧
      ∀ requester now, (b.cancelOrder x.orderId requester now).2 = .none ↔ requester = x.ownerId) ∧
    ∀ stop ∈ b.dormant, b.ownerOf stop.id = some stop.ownerId ∧
      ∀ requester now, (b.cancelStopOrder stop.id requester now).2 = .none ↔
        requester = stop.ownerId :=
  ⟨by decide +kernel, by decide +kernel, ownership_exact { poolCapacity := 4 } _ (fits_run rfl _)⟩

end Book

end OrderBookEngine
