import Mathlib.Data.Set.Function
import OrderBookEngine.Server.Feeds

/-!
# The registry of subscriptions

A slot is a kind of stream and a gateway. The table and the two maps by gateway say the same: each slot
that is held is held by the one open subscription of that kind to that gateway, and every open
subscription holds its slot (`Consistent`). A subscription leaves the table when it ends (`Settled`), so
what a handler does late, under the id of an old subscription, reaches no newer one.
-/

namespace OrderBookEngine

/-- An end leaves a subscription ended. -/
theorem Subscription.endWith_ended (s : Subscription) {reason : EndReason} (h : reason ≠ .none) :
    (s.endWith reason).endReason ≠ .none := by
  unfold endWith
  split_ifs with hended
  · exact hended
  · exact h
  · exact h

namespace Feed

variable {f : Feed}

/-- A subscription that has left the table has ended. -/
def Settled (f : Feed) : Prop := f.entry = none → f.sub.endReason ≠ .none

/-- An offer leaves a settled feed settled. -/
theorem Settled.offer (h : f.Settled) (item : FeedItem) : (f.offer item).Settled := by
  unfold Feed.offer
  split_ifs
  · intro hentry
    rw [(f.sub.tryPush_spec item).2.2.1]
    exact h hentry
  · exact fun _ => Subscription.endWith_ended _ (by simp)

/-- A feed that leaves is settled. -/
theorem Settled.leave (h : f.Settled) {reason : EndReason} (hreason : reason ≠ .none) :
    (f.leave reason).Settled := by
  unfold Feed.leave
  cases hentry : f.entry with
  | none => exact h
  | some entry => exact fun _ => Subscription.endWith_ended _ hreason

/-- An output leaves a settled feed settled. -/
theorem Settled.take (h : f.Settled) (output : Output) : (f.take output).Settled := by
  unfold Feed.take
  cases hentry : f.entry with
  | none => exact h
  | some entry =>
    cases output with
    | marketEvent event =>
      simp only
      split_ifs
      · exact h.offer _
      · exact h
    | reply reply =>
      simp only
      split_ifs
      · exact h.offer _
      · exact h
    | snapshotReady ready =>
      simp only
      split_ifs
      · exact h
      · cases entry.live ready.symbol with
        | none => exact h
        | some state =>
          simp only
          split_ifs
          · exact h
          · -- The entry stays, with another state of the symbol.
            exact Settled.offer (fun hnone => by cases hnone) _
    | outboxClosed => exact h.leave (by simp)

/-- Every action leaves a settled feed settled. -/
theorem Settled.act (h : f.Settled) (a : Publisher.Action) : (f.act a).Settled := by
  cases a with
  | take output => exact h.take output
  | subscribe gatewayId symbols fromSeq => exact h
  | subscribeReplies gatewayId => exact h
  | unsubscribe id =>
    unfold Feed.act
    simp only
    split_ifs
    · exact h.leave (by simp)
    · exact h
  | nextFor id =>
    unfold Feed.act
    simp only
    split_ifs
    · intro hentry
      rw [f.sub.nextFor_spec.2.2.1]
      exact h hentry
    · exact h

/-- A subscription that is not in the table does not come back. -/
theorem entry_act (h : f.entry = none) (a : Publisher.Action) : (f.act a).entry = none := by
  have hleave : ∀ reason, (f.leave reason).entry = none := fun reason => (f.leave_spec reason).1
  cases a with
  | take output =>
    unfold Feed.act Feed.take
    simp only [h]
  | subscribe gatewayId symbols fromSeq => exact h
  | subscribeReplies gatewayId => exact h
  | unsubscribe id =>
    unfold Feed.act
    simp only
    split_ifs
    · exact hleave _
    · exact h
  | nextFor id =>
    unfold Feed.act
    simp only
    split_ifs
    · exact h
    · exact h

end Feed

namespace Publisher

variable {p p' : Publisher} {a : Action} {symbols : List SymbolId} {options : PublisherOptions}

/-! ## Slots -/

/-- The subscription that holds a slot. -/
def holder (p : Publisher) (slot : SubscriberKind × GatewayId) : Option SubscriberId :=
  p.byGateway slot.1 slot.2

/-- The ids that have been handed out. -/
def Handed (p : Publisher) (id : SubscriberId) : Prop := 1 ≤ id ∧ id < p.nextId

/-- The table and the maps by gateway are in bijection. -/
structure Consistent (p : Publisher) : Prop where
  /-- Every slot that is held is held by one subscription of the table, and every one holds one. -/
  bijection : Set.BijOn p.holder {slot | (p.holder slot).isSome} (some '' {id | id ∈ p.subscribers})
  /-- A slot is held by the subscription of its kind and gateway. -/
  holds : ∀ kind gatewayId id, p.holder (kind, gatewayId) = some id ↔
    ∃ entry, p.subscribers.lookup id = some entry ∧ entry.kind = kind ∧
      (p.subs id).gatewayId = gatewayId
  /-- The subscriptions of the table are those that have not ended. -/
  open_ : ∀ id, id ∈ p.subscribers ↔ p.Handed id ∧ (p.subs id).endReason = .none

/-- A request of a kind from a gateway is granted, unless its symbols or its sequence numbers are
refused. -/
def Grants (p : Publisher) (gatewayId : GatewayId) : SubscriberKind → Prop
  | .market => ∀ asked fromSeq, (∀ symbol ∈ p.asked asked, symbol ∈ p.symbolList) →
      (∀ symbol seq, fromSeq.lookup symbol = some seq → symbol ∈ p.asked asked ∧ 1 ≤ seq) →
      ¬ p.Gone fromSeq →
      ∃ p' snapshots,
        p.subscribe gatewayId asked fromSeq = .ok (p', { subscription := some p.nextId }, snapshots) ∧
        p'.holder (.market, gatewayId) = some p.nextId
  | .replies => ∃ p',
      p.subscribeReplies gatewayId = (p', { subscription := some p.nextId }) ∧
      p'.holder (.replies, gatewayId) = some p.nextId

/-- What the handlers and the gateways rely on. -/
structure Orderly (p : Publisher) : Prop extends Consistent p where
  /-- A late `unsubscribe` does nothing, and none reaches another subscription. -/
  late : ∀ id, id ∉ p.subscribers → p.unsubscribe id = p
  /-- To unsubscribe reaches no other subscription, and frees no other slot. -/
  apart : ∀ id x, x ≠ id → (p.unsubscribe id).feed x = p.feed x ∧
    ∀ slot, p.holder slot = some x → (p.unsubscribe id).holder slot = some x
  /-- A refusal is counted at most. -/
  refused : ∀ gatewayId asked fromSeq p' result snapshots,
    p.subscribe gatewayId asked fromSeq = .ok (p', result, snapshots) → result.error ≠ .none →
    p' = { p with stats := p'.stats }
  /-- A refusal of replies changes nothing. -/
  refusedReplies : ∀ gatewayId, (p.subscribeReplies gatewayId).2.error ≠ .none →
    (p.subscribeReplies gatewayId).1 = p
  /-- Until the publisher is closed, a slot that is free can be taken. -/
  grants : p.closed = false → ∀ kind gatewayId, gatewayId ≠ "" → p.holder (kind, gatewayId) = none →
    p.Grants gatewayId kind
  /-- A closed publisher has no subscription, and every slot is free. -/
  shut : p.closed = true → p.subscribers = ∅ ∧ ∀ slot, p.holder slot = none

/-! ## Along a run -/

/-- Ids are handed out from one on, and a subscription that has left the table has ended. -/
structure Settled (p : Publisher) : Prop where
  /-- Ids are handed out from one on. -/
  started : 0 < p.nextId
  /-- Nobody has the id zero. -/
  zero : p.subscribers.lookup 0 = none
  /-- Every feed that was handed out is settled. -/
  feed : ∀ id, p.Handed id → (p.feed id).Settled

/-- Every action leaves the publisher settled. -/
theorem Settled.act (hwf : p.Wf) (hact : p.act a = .ok p') (h : p.Settled) : p'.Settled := by
  obtain ⟨_, hact', -, hfeed, hnext, -⟩ := act_spec hwf a
  obtain rfl := Except.ok.inj (hact.symm.trans hact')
  refine ⟨h.started.trans_le hnext, ?_, fun id hid => ?_⟩
  · have hzero : (p'.feed 0).entry = none := by
      rw [hfeed 0 h.started]
      exact Feed.entry_act h.zero a
    exact hzero
  · by_cases hold : id < p.nextId
    · rw [hfeed id hold]
      exact (h.feed id ⟨hid.1, hold⟩).act a
    · -- A subscription that is handed out is in the table.
      rcases (act_hands hwf hact).feed hwf with hsame | ⟨hsucc, entry, sub, hnew⟩
      · exact absurd (hsame ▸ hid.2) hold
      · have hid' : id = p.nextId := by
          have hlt := hid.2
          rw [hsucc] at hlt
          exact le_antisymm (Nat.lt_succ_iff.mp hlt) (not_lt.mp hold)
        rw [hid', hnew]
        exact fun hnone => by cases hnone

/-- A new publisher is settled. -/
theorem settled_make (h : make symbols options = .ok p) : p.Settled := by
  unfold make at h
  split_ifs at h
  obtain rfl := Except.ok.inj h
  refine ⟨Nat.one_pos, rfl, fun id hid => ?_⟩
  exact absurd (lt_of_le_of_lt hid.1 hid.2) (lt_irrefl 1)

/-- A subscription is in the table if it has an entry. -/
theorem mem_subscribers_iff {id : SubscriberId} :
    id ∈ p.subscribers ↔ ∃ entry, p.subscribers.lookup id = some entry := by
  rw [← AList.lookup_isSome, Option.isSome_iff_exists]

/-- The slots are those of the entries. -/
theorem Wf.holds (h : p.Wf) (kind : SubscriberKind) (gatewayId : GatewayId) (id : SubscriberId) :
    p.holder (kind, gatewayId) = some id ↔ ∃ entry, p.subscribers.lookup id = some entry ∧
      entry.kind = kind ∧ (p.subs id).gatewayId = gatewayId := by
  constructor
  · exact h.entry kind gatewayId id
  · rintro ⟨entry, hentry, rfl, rfl⟩
    exact (h.registered id entry hentry).2

/-- A settled publisher is consistent. -/
theorem Settled.consistent (h : p.Settled) (hwf : p.Wf) : p.Consistent := by
  constructor
  case bijection =>
    refine ⟨?_, ?_, ?_⟩
    · intro slot hslot
      obtain ⟨id, hid⟩ := Option.isSome_iff_exists.mp hslot
      obtain ⟨entry, hentry, -⟩ := hwf.entry slot.1 slot.2 id hid
      exact ⟨id, mem_subscribers_iff.mpr ⟨entry, hentry⟩, hid.symm⟩
    · -- A subscription has one kind and one gateway.
      intro slot hslot slot' _ hsame
      obtain ⟨id, hid⟩ := Option.isSome_iff_exists.mp hslot
      obtain ⟨entry, hentry, hkind, hgateway⟩ := hwf.entry slot.1 slot.2 id hid
      obtain ⟨entry', hentry', hkind', hgateway'⟩ := hwf.entry slot'.1 slot'.2 id (hsame.symm.trans hid)
      obtain rfl := Option.some.inj (hentry.symm.trans hentry')
      exact Prod.ext (hkind.symm.trans hkind') (hgateway.symm.trans hgateway')
    · rintro _ ⟨id, hid, rfl⟩
      obtain ⟨entry, hentry⟩ := mem_subscribers_iff.mp hid
      have hholds := (hwf.registered id entry hentry).2
      exact ⟨(entry.kind, (p.subs id).gatewayId), Option.isSome_of_eq_some hholds, hholds⟩
  case holds => exact hwf.holds
  case open_ =>
    intro id
    constructor
    · intro hid
      obtain ⟨entry, hentry⟩ := mem_subscribers_iff.mp hid
      -- A registered id has been handed out, and ids start at one.
      refine ⟨⟨Nat.one_le_iff_ne_zero.mpr ?_, ?_⟩, (hwf.registered id entry hentry).1⟩
      · rintro rfl
        exact absurd (h.zero.symm.trans hentry) (by simp)
      · by_contra hlate
        exact absurd ((hwf.fresh id (not_lt.mp hlate)).symm.trans hentry) (by simp)
    · rintro ⟨hhanded, hopen⟩
      by_contra hout
      refine h.feed id hhanded ?_ hopen
      by_contra hsome
      obtain ⟨entry, hentry⟩ := Option.ne_none_iff_exists'.mp hsome
      exact hout (mem_subscribers_iff.mpr ⟨entry, hentry⟩)

/-- A free slot is granted. -/
theorem Wf.grants (h : p.Wf) (hclosed : p.closed = false) (kind : SubscriberKind)
    (gatewayId : GatewayId) (hgateway : gatewayId ≠ "") (hfree : p.holder (kind, gatewayId) = none) :
    p.Grants gatewayId kind := by
  have hheld : ∀ {q : Publisher} {sub : Subscription} {entry : Subscriber} {id : SubscriberId}, q.Wf →
      q.feed id = ⟨some entry, sub⟩ → q.holder (entry.kind, sub.gatewayId) = some id := by
    intro q sub entry id hq hfeed
    obtain rfl : q.subs id = sub := congrArg Feed.sub hfeed
    exact (hq.registered id entry (congrArg Feed.entry hfeed)).2
  cases kind with
  | market =>
    intro asked fromSeq hknown hwanted hkept
    have hpasses : p.Passes gatewayId asked fromSeq := ⟨hgateway, hknown, hwanted, hclosed, hfree⟩
    obtain ⟨p', result, snapshots, hsubscribe, hcases⟩ := p.subscribe_spec gatewayId asked fromSeq
    cases hcases with
    | refused fails => exact absurd hpasses fails
    | tooOld _ gone => exact absurd gone hkept
    | registered stats passes =>
      obtain ⟨hwf, hfeed, -⟩ := passes.register_spec h stats
      exact ⟨_, _, hsubscribe, hheld hwf hfeed⟩
  | replies =>
    have hpasses : p.PassesReplies gatewayId := ⟨hgateway, hclosed, hfree⟩
    obtain ⟨hwf, hfeed, -⟩ := hpasses.register_spec h
    exact ⟨_, subscribeReplies_registered hpasses, hheld hwf hfeed⟩

/-- To unsubscribe late does nothing. -/
theorem unsubscribe_late {id : SubscriberId} (h : id ∉ p.subscribers) : p.unsubscribe id = p := by
  have hnone : p.subscribers.lookup id = none := AList.lookup_eq_none.mpr h
  simp only [unsubscribe, drop, hnone]

/-- A settled publisher is orderly. -/
theorem Settled.orderly (h : p.Settled) (hwf : p.Wf) : p.Orderly := by
  constructor
  case toConsistent => exact h.consistent hwf
  case late => exact fun id => unsubscribe_late
  case grants => exact hwf.grants
  case apart =>
    intro id x hx
    -- Unsubscribing touches the subscription of its own id alone.
    have hfeed : (p.unsubscribe id).feed x = p.feed x := (feed_drop p id .unsubscribed x).trans (if_neg hx)
    refine ⟨hfeed, fun slot hslot => ?_⟩
    obtain ⟨entry, hentry, hkind, hgateway⟩ := hwf.entry slot.1 slot.2 x hslot
    exact ((hwf.drop id .unsubscribed).holds slot.1 slot.2 x).mpr
      ⟨entry, (congrArg Feed.entry hfeed).trans hentry, hkind,
        (congrArg (Subscription.gatewayId ∘ Feed.sub) hfeed).trans hgateway⟩
  case refused =>
    intro gatewayId asked fromSeq p' result snapshots hsubscribe herror
    obtain ⟨_, _, _, hsubscribe', hcases⟩ := p.subscribe_spec gatewayId asked fromSeq
    obtain ⟨rfl, rfl, rfl⟩ : p' = _ ∧ result = _ ∧ snapshots = _ := by
      simpa using hsubscribe.symm.trans hsubscribe'
    cases hcases with
    | refused => rfl
    | tooOld => rfl
    | registered => exact absurd rfl herror
  case refusedReplies =>
    intro gatewayId herror
    by_cases hpasses : p.PassesReplies gatewayId
    · rw [subscribeReplies_registered hpasses] at herror
      exact absurd rfl herror
    · exact (subscribeReplies_refused hpasses).1
  case shut =>
    intro hclosed
    -- After the end of the outbox no subscription is left, and so no slot is held.
    have hempty : ∀ id, p.subscribers.lookup id = none := hwf.shut hclosed
    constructor
    · refine AList.ext (List.eq_nil_iff_forall_not_mem.mpr fun entry hentry => ?_)
      have hlookup : p.subscribers.lookup entry.1 = some entry.2 := AList.mem_lookup_iff.mpr hentry
      exact absurd ((hempty entry.1).symm.trans hlookup) (by simp)
    · intro slot
      by_contra hheld
      obtain ⟨id, hid⟩ := Option.ne_none_iff_exists'.mp hheld
      obtain ⟨entry, hentry, -⟩ := hwf.entry slot.1 slot.2 id hid
      exact absurd ((hempty id).symm.trans hentry) (by simp)

/-- **The registry.** Every action of a run is carried out: no lookup fails. After each, the registry is
consistent and its handlers and gateways can rely on it, and once the outbox has been closed it is
closed. -/
theorem registry_consistent (symbols : List SymbolId) (options : PublisherOptions) (p₀ : Publisher)
    (hmake : make symbols options = .ok p₀) (actions : List Action) :
    ∃ p, p₀.run actions = .ok p ∧ p.Orderly ∧ (.take .outboxClosed ∈ actions → p.closed = true) := by
  obtain ⟨hwf₀, -⟩ := wf_make hmake
  have hkept : ∀ (q : Publisher) (a : Action) (q' : Publisher), q.Wf → q.act a = .ok q' →
      q.Settled → q'.Settled := fun q a q' hwf hact h => h.act hwf hact
  obtain ⟨p, hrun, hwf, hsettled⟩ := run_invariant hkept hwf₀ (settled_make hmake) actions
  refine ⟨p, hrun, hsettled.orderly hwf, fun hmem => ?_⟩
  -- The run goes through the closing of the outbox.
  obtain ⟨before, after, rfl⟩ := List.append_of_mem hmem
  obtain ⟨q, hbefore, hq, -⟩ := run_invariant (I := fun _ => True) (fun _ _ _ _ _ _ => trivial) hwf₀
    trivial before
  obtain ⟨q', hclose, hq', -⟩ := act_spec hq (.take .outboxClosed)
  have hclosed' : q'.closed = true := (settings_act hq hclose).2.trans (Bool.or_true _)
  have hstays : ∀ (r : Publisher) (a : Action) (r' : Publisher), r.Wf → r.act a = .ok r' →
      r.closed = true → r'.closed = true := fun r a r' hr hact hclosed => by
    rw [(settings_act hr hact).2, hclosed, Bool.true_or]
  obtain ⟨p', hafter, -, hclosed⟩ := run_invariant hstays hq' hclosed' after
  have hwhole : p₀.run (before ++ .take .outboxClosed :: after) = .ok p' := by
    unfold run at hbefore hafter ⊢
    rw [List.foldlM_append, hbefore]
    show q.act (.take .outboxClosed) >>= _ = _
    rw [hclose]
    exact hafter
  obtain rfl := Except.ok.inj (hrun.symm.trans hwhole)
  exact hclosed

/-- A gateway whose stream was dropped has subscribed again before the handler of the old one leaves. -/
theorem registry_consistent_late :
    ∃ p, Publisher.run { symbolList := [1], options := { queueCapacity := 1 } }
        [.subscribeReplies "gateway", .unsubscribe 1, .subscribeReplies "gateway", .unsubscribe 1] =
          .ok p ∧ p.Orderly ∧ p.holder (.replies, "gateway") = some 2 := by
  obtain ⟨p, hrun, h, -⟩ := registry_consistent [1] { queueCapacity := 1 }
    { symbolList := [1], options := { queueCapacity := 1 } } rfl
    [.subscribeReplies "gateway", .unsubscribe 1, .subscribeReplies "gateway", .unsubscribe 1]
  refine ⟨p, hrun, h, ?_⟩
  rw [← Except.ok.inj hrun]
  rfl

end Publisher

end OrderBookEngine
