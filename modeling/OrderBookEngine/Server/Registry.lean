import OrderBookEngine.Server.Publisher

/-!
# The table of subscribers

`Publisher.Wf` says that the table and the two maps by gateway agree, so what a step does to one
subscriber depends on that subscriber alone: its `Feed`, which is its subscription with its entry in the
table. `take_spec` says what an output does to each feed.
-/

namespace OrderBookEngine

namespace Subscription

variable {s : Subscription} {item : FeedItem}

/-- An end keeps the id. -/
@[simp] theorem id_endWith (s : Subscription) (reason : EndReason) : (s.endWith reason).id = s.id := by
  unfold endWith
  split_ifs <;> rfl

/-- An end keeps the gateway. -/
@[simp] theorem gatewayId_endWith (s : Subscription) (reason : EndReason) :
    (s.endWith reason).gatewayId = s.gatewayId := by
  unfold endWith
  split_ifs <;> rfl

/-- A push changes the queue only. -/
theorem tryPush_spec (s : Subscription) (item : FeedItem) :
    (s.tryPush item).1.id = s.id ∧ (s.tryPush item).1.gatewayId = s.gatewayId ∧
      (s.tryPush item).1.endReason = s.endReason ∧ (s.tryPush item).1.popped = s.popped ∧
      (s.tryPush item).1.capacity = s.capacity := by
  unfold tryPush
  split_ifs <;> exact ⟨rfl, rfl, rfl, rfl, rfl⟩

/-- A consumer changes the queue only. -/
theorem nextFor_spec (s : Subscription) :
    s.nextFor.1.id = s.id ∧ s.nextFor.1.gatewayId = s.gatewayId ∧
      s.nextFor.1.endReason = s.endReason ∧
      s.nextFor.1.popped ++ s.nextFor.1.items = s.popped ++ s.items := by
  unfold nextFor
  cases hitems : s.items with
  | nil => exact ⟨rfl, rfl, rfl, by rw [hitems]⟩
  | cons item items => exact ⟨rfl, rfl, rfl, by simp⟩

/-- A subscription with more in its queue. -/
def enqueue (s : Subscription) (items : List FeedItem) : Subscription :=
  { s with items := s.items ++ items }

/-- No item changes nothing. -/
@[simp] theorem enqueue_nil (s : Subscription) : s.enqueue [] = s := by
  unfold enqueue
  rw [List.append_nil]

/-- Two lists are queued one after another. -/
@[simp] theorem enqueue_enqueue (s : Subscription) (items items' : List FeedItem) :
    (s.enqueue items).enqueue items' = s.enqueue (items ++ items') := by
  unfold enqueue
  rw [List.append_assoc]

/-- What is queued is added to the queue. -/
theorem length_enqueue (s : Subscription) (items : List FeedItem) :
    (s.enqueue items).items.length = s.items.length + items.length := List.length_append

/-- With room in the queue, an item is queued. -/
theorem tryPush_of_room (hopen : s.endReason = .none) (hroom : s.items.length < s.capacity)
    (item : FeedItem) : s.tryPush item = (s.enqueue [item], true) := by
  unfold tryPush
  rw [if_neg (not_not.mpr hopen), if_neg (not_le.mpr hroom)]
  rfl

end Subscription

/-- A subscription, with its entry in the table while it has one. -/
structure Feed where
  /-- Its entry, while it is in the table. -/
  entry : Option Subscriber
  /-- The subscription itself. -/
  sub : Subscription

namespace Feed

/-- A subscriber that is offered an item while its queue is full is dropped. -/
def offer (f : Feed) (item : FeedItem) : Feed :=
  if (f.sub.tryPush item).2 then { f with sub := (f.sub.tryPush item).1 }
  else { entry := none, sub := (f.sub.tryPush item).1.endWith .slowConsumer }

/-- A feed that leaves the table ends. -/
def leave (f : Feed) (reason : EndReason) : Feed :=
  match f.entry with
  | none => f
  | some _ => { entry := none, sub := f.sub.endWith reason }

/-- A feed at an output that the publisher takes. -/
def take (f : Feed) (output : Output) : Feed :=
  match f.entry with
  | none => f
  | some entry =>
    match output with
    | .marketEvent event => if entry.wants event then f.offer (.marketEvent event) else f
    | .reply reply =>
      if entry.kind = .replies ∧ f.sub.gatewayId = reply.gatewayId then f.offer (.reply reply) else f
    | .snapshotReady ready =>
      if ready.subscriber ≠ f.sub.id then f
      else
        match entry.live ready.symbol with
        | none => f
        | some state =>
          if state.live then f
          else
            let live := Function.update entry.live ready.symbol (some { state with live := true })
            { f with entry := some { entry with live } }.offer (.snapshotReady ready)
    | .outboxClosed => f.leave .shutdown

/-- A feed at an action of the publisher. -/
def act (f : Feed) : Publisher.Action → Feed
  | .take output => f.take output
  | .subscribe _ _ _ | .subscribeReplies _ => f
  | .unsubscribe id => if id = f.sub.id then f.leave .unsubscribed else f
  | .nextFor id => if id = f.sub.id then { f with sub := f.sub.nextFor.1 } else f

/-- A feed that leaves has no entry, and keeps its id and its gateway. -/
theorem leave_spec (f : Feed) (reason : EndReason) :
    (f.leave reason).entry = none ∧ (f.leave reason).sub.id = f.sub.id ∧
      (f.leave reason).sub.gatewayId = f.sub.gatewayId := by
  unfold leave
  cases hentry : f.entry with
  | none => exact ⟨hentry, rfl, rfl⟩
  | some _ => exact ⟨rfl, Subscription.id_endWith _ _, Subscription.gatewayId_endWith _ _⟩

/-- A feed leaves once. -/
theorem leave_leave (f : Feed) (reason : EndReason) : (f.leave reason).leave reason = f.leave reason := by
  unfold leave
  cases hentry : f.entry <;> simp [hentry]

end Feed

namespace Publisher

variable {p p' : Publisher} {id x : SubscriberId} {reason : EndReason} {item : FeedItem}
  {event : MarketEvent} {output : Output} {sub : Subscription} {entry : Subscriber}

/-- The map of a kind, by gateway. -/
def byGateway (p : Publisher) : SubscriberKind → GatewayId → Option SubscriberId
  | .market => p.marketByGateway
  | .replies => p.repliesByGateway

/-- The feed of an id. -/
def feed (p : Publisher) (id : SubscriberId) : Feed where
  entry := p.subscribers.lookup id
  sub := p.subs id

/-- The table and the maps by gateway agree. -/
structure Wf (p : Publisher) : Prop where
  /-- Every subscription has its own id. -/
  id_eq : ∀ id, (p.subs id).id = id
  /-- No id is in the table that has not been handed out. -/
  fresh : ∀ id, p.nextId ≤ id → p.subscribers.lookup id = none
  /-- What is in the table is open, and holds its slot. -/
  registered : ∀ id entry, p.subscribers.lookup id = some entry →
    (p.subs id).endReason = .none ∧ p.byGateway entry.kind (p.subs id).gatewayId = some id
  /-- What holds a slot is in the table, for that kind and gateway. -/
  entry : ∀ kind gatewayId id, p.byGateway kind gatewayId = some id →
    ∃ entry, p.subscribers.lookup id = some entry ∧ entry.kind = kind ∧
      (p.subs id).gatewayId = gatewayId
  /-- A subscriber to replies has no symbols. -/
  mute : ∀ id entry, p.subscribers.lookup id = some entry → entry.kind = .replies →
    entry.live = fun _ => none
  /-- A closed publisher has an empty table. -/
  shut : p.closed = true → ∀ id, p.subscribers.lookup id = none

/-- What the subscribers do not touch. -/
structure SameRecord (p p' : Publisher) : Prop where
  /-- The symbols are the same. -/
  symbolList : p'.symbolList = p.symbolList
  /-- The options are the same. -/
  options : p'.options = p.options
  /-- The next id is the same. -/
  nextId : p'.nextId = p.nextId
  /-- Both are closed, or neither. -/
  closed : p'.closed = p.closed
  /-- The events kept are the same. -/
  history : p'.history = p.history
  /-- The last numbers are the same. -/
  lastSeq : p'.lastSeq = p.lastSeq
  /-- What has been taken is the same. -/
  routed : p'.routed = p.routed

/-- A publisher has the record of itself. -/
theorem SameRecord.refl (p : Publisher) : SameRecord p p := ⟨rfl, rfl, rfl, rfl, rfl, rfl, rfl⟩

/-- What is the same twice is the same. -/
theorem SameRecord.trans {p'' : Publisher} (h : SameRecord p p') (h' : SameRecord p' p'') :
    SameRecord p p'' :=
  ⟨h'.symbolList.trans h.symbolList, h'.options.trans h.options, h'.nextId.trans h.nextId,
    h'.closed.trans h.closed, h'.history.trans h.history, h'.lastSeq.trans h.lastSeq,
    h'.routed.trans h.routed⟩

/-! ## Pushing and dropping -/

/-- A push keeps the record. -/
theorem sameRecord_tryPush (p : Publisher) (id : SubscriberId) (item : FeedItem) :
    SameRecord p (p.tryPush id item).1 := ⟨rfl, rfl, rfl, rfl, rfl, rfl, rfl⟩

/-- A push is a push on the subscription of the id. -/
theorem subs_tryPush (p : Publisher) (id : SubscriberId) (item : FeedItem) :
    (p.tryPush id item).1.subs = Function.update p.subs id ((p.subs id).tryPush item).1 := rfl

/-- Subscriptions may change in their queues. -/
theorem Wf.withSubs (h : p.Wf) {subs : SubscriberId → Subscription}
    (hid : ∀ id, (subs id).id = id) (hgateway : ∀ id, (subs id).gatewayId = (p.subs id).gatewayId)
    (hend : ∀ id, (subs id).endReason = (p.subs id).endReason) : Wf { p with subs } where
  id_eq := hid
  fresh := h.fresh
  registered id entry hentry := by
    obtain ⟨hopen, hgate⟩ := h.registered id entry hentry
    refine ⟨(hend id).trans hopen, ?_⟩
    show p.byGateway entry.kind (subs id).gatewayId = _
    rw [hgateway]
    exact hgate
  entry kind gatewayId id hgate := by
    obtain ⟨entry, hentry, hkind, hsub⟩ := h.entry kind gatewayId id hgate
    exact ⟨entry, hentry, hkind, (hgateway id).trans hsub⟩
  mute := h.mute
  shut := h.shut

/-- Another queue of a subscription keeps the table in order. -/
theorem Wf.withSub (h : p.Wf) (id : SubscriberId) (hid : sub.id = (p.subs id).id)
    (hgateway : sub.gatewayId = (p.subs id).gatewayId)
    (hend : sub.endReason = (p.subs id).endReason) : Wf { p with subs := Function.update p.subs id sub } := by
  have hkeeps : ∀ x, (Function.update p.subs id sub x).id = (p.subs x).id ∧
      (Function.update p.subs id sub x).gatewayId = (p.subs x).gatewayId ∧
      (Function.update p.subs id sub x).endReason = (p.subs x).endReason := by
    intro x
    by_cases hx : x = id
    · rw [hx, Function.update_self]
      exact ⟨hid, hgateway, hend⟩
    · rw [Function.update_of_ne hx]
      exact ⟨rfl, rfl, rfl⟩
  exact h.withSubs (fun x => (hkeeps x).1.trans (h.id_eq x)) (fun x => (hkeeps x).2.1)
    fun x => (hkeeps x).2.2

/-- A push keeps the table in order. -/
theorem Wf.tryPush (h : p.Wf) (id : SubscriberId) (item : FeedItem) : (p.tryPush id item).1.Wf := by
  obtain ⟨hid, hgateway, hend, -, -⟩ := (p.subs id).tryPush_spec item
  exact h.withSub id hid hgateway hend

/-- A drop keeps the record. -/
theorem sameRecord_drop (p : Publisher) (id : SubscriberId) (reason : EndReason) :
    SameRecord p (p.drop id reason) := by
  unfold drop
  cases p.subscribers.lookup id with
  | none => exact SameRecord.refl p
  | some entry =>
    simp only
    cases entry.kind <;> exact ⟨rfl, rfl, rfl, rfl, rfl, rfl, rfl⟩

/-- A drop makes one feed leave. -/
theorem feed_drop (p : Publisher) (id : SubscriberId) (reason : EndReason) (x : SubscriberId) :
    (p.drop id reason).feed x = if x = id then (p.feed x).leave reason else p.feed x := by
  unfold drop
  cases hentry : p.subscribers.lookup id with
  | none =>
    split_ifs with hx
    · unfold Feed.leave feed
      rw [hx, hentry]
    · rfl
  | some entry =>
    have hfeed : ∀ q : Publisher, q.subs = Function.update p.subs id ((p.subs id).endWith reason) →
        q.subscribers = p.subscribers.erase id →
          q.feed x = if x = id then (p.feed x).leave reason else p.feed x := by
      intro q hsubs hsubscribers
      unfold feed Feed.leave
      rw [hsubs, hsubscribers]
      split_ifs with hx
      · rw [hx, Function.update_self, AList.lookup_erase, hentry]
      · rw [Function.update_of_ne hx, AList.lookup_erase_ne hx]
    simp only
    cases entry.kind <;> exact hfeed _ rfl rfl

/-- A drop frees the slot of its own subscription. -/
theorem byGateway_drop (hentry : p.subscribers.lookup id = some entry) (kind : SubscriberKind)
    (gatewayId : GatewayId) :
    (p.drop id reason).byGateway kind gatewayId =
      if kind = entry.kind ∧ gatewayId = (p.subs id).gatewayId then none
      else p.byGateway kind gatewayId := by
  unfold drop
  simp only [hentry, Subscription.gatewayId_endWith]
  cases entry.kind <;> cases kind <;> simp [byGateway, Function.update_apply]

/-- A drop keeps the table in order. -/
theorem Wf.drop (h : p.Wf) (id : SubscriberId) (reason : EndReason) : (p.drop id reason).Wf := by
  cases hentry : p.subscribers.lookup id with
  | none =>
    have hsame : p.drop id reason = p := by
      unfold Publisher.drop
      rw [hentry]
    rwa [hsame]
  | some gone =>
    have hfeed := feed_drop p id reason
    have hrest : ∀ x, x ≠ id → (p.drop id reason).feed x = p.feed x := fun x hx => by
      rw [hfeed, if_neg hx]
    have hgone : (p.drop id reason).feed id = (p.feed id).leave reason := by
      rw [hfeed, if_pos rfl]
    obtain ⟨hnone, hid, hgateway⟩ := (p.feed id).leave_spec reason
    rw [← hgone] at hnone hid hgateway
    have hrecord := sameRecord_drop p id reason
    -- What is in the table after the drop was in it before, and is not what was dropped.
    have hlookup : ∀ x entry, (p.drop id reason).subscribers.lookup x = some entry →
        x ≠ id ∧ p.subscribers.lookup x = some entry := by
      intro x entry hx
      have hne : x ≠ id := by
        rintro rfl
        change (p.drop x reason).subscribers.lookup x = none at hnone
        rw [hnone] at hx
        cases hx
      exact ⟨hne, (congrArg Feed.entry (hrest x hne)).symm.trans hx⟩
    have hother : ∀ x entry, x ≠ id → p.subscribers.lookup x = some entry →
        ¬ (entry.kind = gone.kind ∧ (p.subs x).gatewayId = (p.subs id).gatewayId) := by
      rintro x entry hne hx ⟨hkind, hsame⟩
      have hx' := (h.registered x entry hx).2
      rw [hkind, hsame, (h.registered id gone hentry).2] at hx'
      exact hne (Option.some.inj hx').symm
    constructor
    case id_eq =>
      intro x
      by_cases hx : x = id
      · rw [hx]
        exact hid.trans (h.id_eq id)
      · exact (congrArg (Subscription.id ∘ Feed.sub) (hrest x hx)).trans (h.id_eq x)
    case fresh =>
      intro x hx
      rw [hrecord.nextId] at hx
      by_contra hsome
      obtain ⟨entry, hsome⟩ := Option.ne_none_iff_exists'.mp hsome
      have hbefore := (hlookup x entry hsome).2
      rw [h.fresh x hx] at hbefore
      cases hbefore
    case registered =>
      intro x entry hx
      obtain ⟨hne, hx⟩ := hlookup x entry hx
      have hsub : (p.drop id reason).subs x = p.subs x := congrArg Feed.sub (hrest x hne)
      rw [hsub, byGateway_drop hentry, if_neg (hother x entry hne hx)]
      exact h.registered x entry hx
    case entry =>
      intro kind gatewayId x hgate
      rw [byGateway_drop hentry] at hgate
      split_ifs at hgate with hcleared
      obtain ⟨entry, hx, hkind, hsub⟩ := h.entry kind gatewayId x hgate
      have hne : x ≠ id := by
        rintro rfl
        rw [hentry] at hx
        obtain rfl := Option.some.inj hx
        exact hcleared ⟨hkind.symm, hsub.symm⟩
      refine ⟨entry, (congrArg Feed.entry (hrest x hne)).trans hx, hkind, ?_⟩
      exact (congrArg (Subscription.gatewayId ∘ Feed.sub) (hrest x hne)).trans hsub
    case mute => exact fun x entry hx => h.mute x entry (hlookup x entry hx).2
    case shut =>
      intro hclosed x
      rw [hrecord.closed] at hclosed
      by_contra hsome
      obtain ⟨entry, hsome⟩ := Option.ne_none_iff_exists'.mp hsome
      have hbefore := (hlookup x entry hsome).2
      rw [h.shut hclosed x] at hbefore
      cases hbefore

/-- A slow subscriber that is dropped leaves as one. -/
theorem feed_dropSlow (p : Publisher) (id x : SubscriberId) :
    (p.dropSlow id).feed x = if x = id then (p.feed x).leave .slowConsumer else p.feed x :=
  feed_drop _ id .slowConsumer x

/-- A slow subscriber that is dropped keeps the record. -/
theorem sameRecord_dropSlow (p : Publisher) (id : SubscriberId) : SameRecord p (p.dropSlow id) :=
  have hcount : SameRecord p p.countSlow := ⟨rfl, rfl, rfl, rfl, rfl, rfl, rfl⟩
  hcount.trans (sameRecord_drop p.countSlow id .slowConsumer)

/-- A well-formed table does not depend on the counters and the records. -/
theorem Wf.congr (h : p.Wf) (hsubs : p'.subs = p.subs) (hsubscribers : p'.subscribers = p.subscribers)
    (hmarket : p'.marketByGateway = p.marketByGateway)
    (hreplies : p'.repliesByGateway = p.repliesByGateway) (hnext : p'.nextId = p.nextId)
    (hclosed : p'.closed = p.closed) : p'.Wf := by
  have hgate : p'.byGateway = p.byGateway := by
    funext kind
    cases kind
    · exact hmarket
    · exact hreplies
  constructor
  case id_eq => rw [hsubs]; exact h.id_eq
  case fresh => rw [hnext, hsubscribers]; exact h.fresh
  case registered => rw [hsubs, hsubscribers, hgate]; exact h.registered
  case entry => rw [hsubs, hsubscribers, hgate]; exact h.entry
  case mute => rw [hsubscribers]; exact h.mute
  case shut => rw [hclosed, hsubscribers]; exact h.shut

/-- A slow subscriber that is dropped keeps the table in order. -/
theorem Wf.dropSlow (h : p.Wf) (id : SubscriberId) : (p.dropSlow id).Wf :=
  have hcount : p.countSlow.Wf := h.congr rfl rfl rfl rfl rfl rfl
  hcount.drop id .slowConsumer

/-- All slow subscribers are dropped, and no other. -/
theorem dropAll_spec (ids : List SubscriberId) :
    (∀ x, (ids.foldl dropSlow p).feed x =
      if x ∈ ids then (p.feed x).leave .slowConsumer else p.feed x) ∧
    SameRecord p (ids.foldl dropSlow p) ∧ (p.Wf → (ids.foldl dropSlow p).Wf) := by
  induction ids generalizing p with
  | nil => exact ⟨fun x => by simp, SameRecord.refl p, id⟩
  | cons id ids ih =>
    obtain ⟨hfeed, hrecord, hwf⟩ := ih (p := p.dropSlow id)
    refine ⟨fun x => ?_, (sameRecord_dropSlow p id).trans hrecord, fun h => hwf (h.dropSlow id)⟩
    rw [List.foldl_cons, hfeed, feed_dropSlow]
    by_cases hid : x = id
    · rw [if_pos hid, if_pos (List.mem_cons.mpr (Or.inl hid)), Feed.leave_leave, ite_self]
    · rw [if_neg hid]
      simp only [List.mem_cons, hid, false_or]

/-! ## Routing -/

/-- The loop over the subscribers pushes to each that wants the event, and finds the ones too slow. -/
theorem offerEvents_spec (event : MarketEvent) {entries : List (Σ _ : SubscriberId, Subscriber)}
    (hkeys : entries.NodupKeys) (p : Publisher) (slow : List SubscriberId) :
    let r := entries.foldl (offerEvent event) (p, slow)
    r.1 = { p with subs := r.1.subs } ∧
    (∀ id, r.1.subs id = if (entries.dlookup id).any (·.wants event) then
        ((p.subs id).tryPush (.marketEvent event)).1 else p.subs id) ∧
    ∀ id, id ∈ r.2 ↔ id ∈ slow ∨ (entries.dlookup id).any (·.wants event) ∧
      ((p.subs id).tryPush (.marketEvent event)).2 = false := by
  induction entries generalizing p slow with
  | nil => exact ⟨rfl, fun id => by simp, fun id => by simp⟩
  | cons first entries ih =>
    obtain ⟨k, entry⟩ := first
    obtain ⟨hout, hkeys⟩ := List.nodupKeys_cons.mp hkeys
    -- No later entry has the key, so this pass is the only one for it.
    have hnone : entries.dlookup k = none := List.dlookup_eq_none.mpr hout
    have hother : ∀ id, id ≠ k → List.dlookup id (⟨k, entry⟩ :: entries) = entries.dlookup id :=
      fun id hne => List.dlookup_cons_ne _ _ hne
    intro r
    cases hwants : entry.wants event with
    | false =>
      have hstep : r = entries.foldl (offerEvent event) (p, slow) := by
        show entries.foldl _ (offerEvent event (p, slow) ⟨k, entry⟩) = _
        simp [offerEvent, hwants]
      obtain ⟨hsame, hsubs, hslow⟩ := ih hkeys p slow
      rw [hstep]
      refine ⟨hsame, fun id => ?_, fun id => ?_⟩
      · rw [hsubs]
        by_cases hid : id = k
        · rw [hid, hnone, List.dlookup_cons_eq]
          simp [hwants]
        · rw [hother id hid]
      · rw [hslow]
        by_cases hid : id = k
        · rw [hid, hnone, List.dlookup_cons_eq]
          simp [hwants]
        · rw [hother id hid]
    | true =>
      set pushed := (p.tryPush k (.marketEvent event)).2 with hpushed
      have hstep : r = entries.foldl (offerEvent event)
          ((p.tryPush k (.marketEvent event)).1, if pushed then slow else slow ++ [k]) := by
        show entries.foldl _ (offerEvent event (p, slow) ⟨k, entry⟩) = _
        simp only [offerEvent, hwants, if_true]
        cases hp : (p.tryPush k (.marketEvent event)).2 <;> simp [hpushed, hp]
      obtain ⟨hsame, hsubs, hslow⟩ := ih hkeys (p.tryPush k (.marketEvent event)).1
        (if pushed then slow else slow ++ [k])
      rw [← hstep] at hsame hsubs hslow
      refine ⟨hsame.trans rfl, fun id => ?_, fun id => ?_⟩
      · rw [hsubs, subs_tryPush]
        by_cases hid : id = k
        · rw [hid, hnone, List.dlookup_cons_eq, Function.update_self]
          simp [hwants]
        · rw [hother id hid, Function.update_of_ne hid]
      · rw [hslow, subs_tryPush]
        by_cases hid : id = k
        · rw [hid, hnone, List.dlookup_cons_eq, Function.update_self]
          have hp : pushed = ((p.subs k).tryPush (.marketEvent event)).2 := rfl
          cases hpush : ((p.subs k).tryPush (.marketEvent event)).2 <;> simp [hp, hpush, hwants]
        · rw [hother id hid, Function.update_of_ne hid]
          split_ifs <;> simp [hid]

/-- An event reaches the feeds that want it, and is recorded. -/
theorem routeEvent_spec (p : Publisher) (event : MarketEvent) :
    (∀ x, (p.routeEvent event).feed x = (p.feed x).take (.marketEvent event)) ∧
    SameRecord (p.remember event) (p.routeEvent event) ∧ (p.Wf → (p.routeEvent event).Wf) := by
  -- First the event is offered to all subscribers, then those that are slow are dropped.
  set q : Publisher := { p.remember event with
    stats := { p.stats with eventsRouted := p.stats.eventsRouted + 1 } } with hq
  set r := q.subscribers.entries.foldl (offerEvent event) (q, []) with hr
  have hroute : p.routeEvent event = r.2.foldl dropSlow r.1 := rfl
  obtain ⟨hpushes, hsubs, hslow⟩ := offerEvents_spec event q.subscribers.nodupKeys q []
  obtain ⟨hfeed, hrecord, hwf⟩ := dropAll_spec (p := r.1) r.2
  have hsame : r.1 = { q with subs := r.1.subs } := hpushes
  have hlookup : r.1.subscribers = p.subscribers := by rw [hsame]; rfl
  rw [hroute]
  refine ⟨fun x => ?_, ?_, fun h => hwf ?_⟩
  · -- A subscriber is slow if it wants the event and has no room for it.
    have hx : x ∈ r.2 ↔ (p.subscribers.lookup x).any (·.wants event) = true ∧
        ((p.subs x).tryPush (.marketEvent event)).2 = false := by
      rw [hslow x]
      simp only [List.not_mem_nil, false_or]
      rfl
    have hsub : r.1.subs x = if (p.subscribers.lookup x).any (·.wants event) then
        ((p.subs x).tryPush (.marketEvent event)).1 else p.subs x := hsubs x
    rw [hfeed]
    unfold feed Feed.take Feed.offer Feed.leave
    rw [hlookup, hsub]
    simp only [hx]
    cases hentry : p.subscribers.lookup x with
    | none => simp
    | some entry =>
      cases hwants : entry.wants event <;>
        cases hpush : ((p.subs x).tryPush (.marketEvent event)).2 <;> simp [hwants]
  · refine SameRecord.trans ?_ hrecord
    rw [hsame]
    exact ⟨rfl, rfl, rfl, rfl, rfl, rfl, rfl⟩
  · have hbefore : q.Wf := h.congr rfl rfl rfl rfl rfl rfl
    rw [hsame]
    have hpushed : ∀ x, (r.1.subs x).id = (q.subs x).id ∧
        (r.1.subs x).gatewayId = (q.subs x).gatewayId ∧
        (r.1.subs x).endReason = (q.subs x).endReason := by
      intro x
      obtain ⟨hid, hgateway, hend, -, -⟩ := (q.subs x).tryPush_spec (.marketEvent event)
      have hx : r.1.subs x = _ := hsubs x
      rw [hx]
      split_ifs
      · exact ⟨hid, hgateway, hend⟩
      · exact ⟨rfl, rfl, rfl⟩
    exact hbefore.withSubs (fun x => (hpushed x).1.trans (hbefore.id_eq x))
      (fun x => (hpushed x).2.1) fun x => (hpushed x).2.2

/-- The push of one item, and the drop of a subscriber that is too slow for it. -/
theorem offer_spec (hentry : p.subscribers.lookup id = some entry) (item : FeedItem) :
    let p' := if (p.tryPush id item).2 then (p.tryPush id item).1
      else (p.tryPush id item).1.dropSlow id
    (∀ x, p'.feed x = if x = id then (p.feed x).offer item else p.feed x) ∧
    SameRecord p p' ∧ (p.Wf → p'.Wf) := by
  intro p'
  have hfeed : ∀ x, (p.tryPush id item).1.feed x =
      if x = id then { p.feed x with sub := ((p.subs id).tryPush item).1 } else p.feed x := by
    intro x
    unfold feed
    rw [subs_tryPush]
    split_ifs with hx
    · rw [hx, Function.update_self]
      rfl
    · rw [Function.update_of_ne hx]
      rfl
  have hpush : (p.tryPush id item).2 = ((p.subs id).tryPush item).2 := rfl
  -- There is room for the item, or the subscriber is dropped as too slow.
  cases hpushed : ((p.subs id).tryPush item).2 with
  | true =>
    have hp' : p' = (p.tryPush id item).1 := if_pos (hpush.trans hpushed)
    rw [hp']
    refine ⟨fun x => ?_, sameRecord_tryPush p id item, fun h => h.tryPush id item⟩
    rw [hfeed]
    split_ifs with hx
    · subst hx
      exact (if_pos hpushed).symm
    · rfl
  | false =>
    have hp' : p' = (p.tryPush id item).1.dropSlow id := if_neg (by rw [hpush, hpushed]; simp)
    rw [hp']
    refine ⟨fun x => ?_, (sameRecord_tryPush p id item).trans (sameRecord_dropSlow _ id),
      fun h => (h.tryPush id item).dropSlow id⟩
    rw [feed_dropSlow, hfeed]
    split_ifs with hx
    · subst hx
      unfold Feed.leave Feed.offer feed
      simp only [hentry]
      exact (if_neg (by rw [hpushed]; simp)).symm
    · rfl

/-- A reply goes to the one subscriber to the replies of its gateway. -/
theorem routeReply_spec (h : p.Wf) (reply : Reply) :
    ∃ p', p.routeReply reply = .ok p' ∧ (∀ x, p'.feed x = (p.feed x).take (.reply reply)) ∧
      SameRecord p p' ∧ p'.Wf := by
  -- The map of the gateways and the entries agree on who gets the reply.
  have hmine : ∀ x entry, p.subscribers.lookup x = some entry →
      (entry.kind = .replies ∧ (p.subs x).gatewayId = reply.gatewayId ↔
        p.repliesByGateway reply.gatewayId = some x) := by
    intro x entry hx
    constructor
    · rintro ⟨hkind, hgateway⟩
      have hgate := (h.registered x entry hx).2
      rwa [hkind, hgateway] at hgate
    · intro hgate
      obtain ⟨entry', hx', hkind, hgateway⟩ := h.entry .replies reply.gatewayId x hgate
      rw [hx] at hx'
      exact ⟨Option.some.inj hx' ▸ hkind, hgateway⟩
  have htake : ∀ x, (p.feed x).take (.reply reply) =
      if p.repliesByGateway reply.gatewayId = some x then (p.feed x).offer (.reply reply)
      else p.feed x := by
    intro x
    unfold Feed.take feed
    cases hx : p.subscribers.lookup x with
    | none =>
      rw [if_neg]
      intro hgate
      obtain ⟨entry, hentry, -⟩ := h.entry .replies reply.gatewayId x hgate
      rw [hx] at hentry
      cases hentry
    | some entry => simp only [hmine x entry hx]
  unfold routeReply
  cases hgate : p.repliesByGateway reply.gatewayId with
  | none =>
    refine ⟨_, rfl, fun x => ?_, ⟨rfl, rfl, rfl, rfl, rfl, rfl, rfl⟩, h.congr rfl rfl rfl rfl rfl rfl⟩
    rw [htake, hgate, if_neg (by simp)]
    rfl
  | some id =>
    obtain ⟨entry, hentry, -⟩ := h.entry .replies reply.gatewayId id hgate
    obtain ⟨hfeed, hrecord, hwf⟩ := offer_spec hentry (.reply reply)
    simp only [hentry]
    refine ⟨_, rfl, fun x => ?_, hrecord, hwf h⟩
    rw [hfeed, htake, hgate]
    by_cases hx : x = id
    · rw [if_pos hx, hx, if_pos rfl]
    · rw [if_neg hx, if_neg fun he => hx (Option.some.inj he).symm]

/-- The state of a market subscriber's symbols may change. -/
theorem Wf.withLive (h : p.Wf) (hentry : p.subscribers.lookup id = some entry)
    (hkind : entry.kind = .market) (live : SymbolId → Option SymbolState) :
    Wf { p with subscribers := p.subscribers.insert id { entry with live } } := by
  set q : Publisher := { p with subscribers := p.subscribers.insert id { entry with live } }
  -- The entry of one subscriber changes, in the states of its symbols only.
  have hsame : q.subscribers.lookup id = some { entry with live } := AList.lookup_insert _
  have hother : ∀ x, x ≠ id → q.subscribers.lookup x = p.subscribers.lookup x :=
    fun x hx => AList.lookup_insert_ne hx
  constructor
  case id_eq => exact h.id_eq
  case fresh =>
    intro x hx
    have hne : x ≠ id := by
      rintro rfl
      rw [h.fresh _ hx] at hentry
      cases hentry
    rw [hother x hne]
    exact h.fresh x hx
  case registered =>
    intro x entry' hx
    by_cases hid : x = id
    · subst hid
      obtain rfl := Option.some.inj (hsame.symm.trans hx)
      exact h.registered x entry hentry
    · rw [hother x hid] at hx
      exact h.registered x entry' hx
  case entry =>
    intro kind gatewayId x hgate
    obtain ⟨old, hold, hold', hgateway⟩ := h.entry kind gatewayId x hgate
    by_cases hid : x = id
    · subst hid
      obtain rfl := Option.some.inj (hentry.symm.trans hold)
      exact ⟨_, hsame, hold', hgateway⟩
    · exact ⟨old, (hother x hid).trans hold, hold', hgateway⟩
  case mute =>
    intro x entry' hx hreplies
    by_cases hid : x = id
    · subst hid
      obtain rfl := Option.some.inj (hsame.symm.trans hx)
      rw [hkind] at hreplies
      cases hreplies
    · rw [hother x hid] at hx
      exact h.mute x entry' hx hreplies
  case shut =>
    intro hclosed
    rw [h.shut hclosed id] at hentry
    cases hentry

/-- A snapshot goes to the subscriber that asked, if it waits for it. -/
theorem routeSnapshot_spec (h : p.Wf) (ready : SnapshotReady) :
    (∀ x, (p.routeSnapshot ready).feed x = (p.feed x).take (.snapshotReady ready)) ∧
      SameRecord p (p.routeSnapshot ready) ∧ (p.routeSnapshot ready).Wf := by
  have hother : ∀ x, x ≠ ready.subscriber → (p.feed x).take (.snapshotReady ready) = p.feed x := by
    intro x hx
    unfold Feed.take
    cases (p.feed x).entry with
    | none => rfl
    | some entry => exact if_pos fun he => hx (he.trans (h.id_eq x)).symm
  -- Unless it is waited for, the snapshot changes nothing.
  have hstay : p.routeSnapshot ready = p →
      (p.feed ready.subscriber).take (.snapshotReady ready) = p.feed ready.subscriber →
      (∀ x, (p.routeSnapshot ready).feed x = (p.feed x).take (.snapshotReady ready)) ∧
        SameRecord p (p.routeSnapshot ready) ∧ (p.routeSnapshot ready).Wf := by
    intro hsame htake
    rw [hsame]
    refine ⟨fun x => ?_, SameRecord.refl p, h⟩
    by_cases hx : x = ready.subscriber
    · rw [hx, htake]
    · rw [hother x hx]
  cases hentry : p.subscribers.lookup ready.subscriber with
  | none =>
    refine hstay ?_ ?_
    · simp only [routeSnapshot, hentry]
    · simp only [Feed.take, feed, hentry]
  | some entry =>
    cases hstate : entry.live ready.symbol with
    | none =>
      refine hstay ?_ ?_
      · simp only [routeSnapshot, hentry, hstate]
      · simp only [Feed.take, feed, hentry, hstate, ite_self]
    | some state =>
      cases hlive : state.live with
      | true =>
        refine hstay ?_ ?_
        · simp only [routeSnapshot, hentry, hstate, hlive, if_true]
        · simp only [Feed.take, feed, hentry, hstate, hlive, if_true, ite_self]
      | false =>
        have hkind : entry.kind = .market := by
          cases hkind : entry.kind with
          | market => rfl
          | replies =>
            rw [h.mute ready.subscriber entry hentry hkind] at hstate
            cases hstate
        set live := Function.update entry.live ready.symbol (some { state with live := true }) 
        set q : Publisher := { p with
          subscribers := p.subscribers.insert ready.subscriber { entry with live } } with hq
        have hqentry : q.subscribers.lookup ready.subscriber = some { entry with live } :=
          AList.lookup_insert _
        have hroute : p.routeSnapshot ready = if (q.tryPush ready.subscriber (.snapshotReady ready)).2
            then (q.tryPush ready.subscriber (.snapshotReady ready)).1
            else (q.tryPush ready.subscriber (.snapshotReady ready)).1.dropSlow ready.subscriber := by
          simp only [routeSnapshot, hentry, hstate, hlive, Bool.false_eq_true, if_false]
          rfl
        obtain ⟨hfeed, hrecord, hwf⟩ := offer_spec hqentry (.snapshotReady ready)
        rw [hroute]
        refine ⟨fun x => ?_, ?_, hwf (h.withLive hentry hkind live)⟩
        · rw [hfeed]
          by_cases hx : x = ready.subscriber
          · have hmine : ¬ ready.subscriber ≠ (p.subs ready.subscriber).id :=
              not_not.mpr (h.id_eq _).symm
            rw [if_pos hx, hx]
            simp only [Feed.take, feed, hentry, hstate, hlive, hqentry, hmine, if_false,
              Bool.false_eq_true]
            rfl
          · rw [if_neg hx, hother x hx]
            unfold feed
            rw [hq, AList.lookup_insert_ne hx]
        · have hset : SameRecord p q := ⟨rfl, rfl, rfl, rfl, rfl, rfl, rfl⟩
          exact hset.trans hrecord

/-- When the outbox is closed, every subscriber leaves. -/
theorem close_spec (h : p.Wf) :
    (∀ x, p.close.feed x = (p.feed x).take .outboxClosed) ∧ p.close.Wf := by
  -- The loop ends each subscription in the table once.
  have hends : ∀ (entries : List (Σ _ : SubscriberId, Subscriber)) (subs : SubscriberId → Subscription),
      entries.NodupKeys → ∀ x,
        entries.foldl (fun subs entry => Function.update subs entry.1
          ((subs entry.1).endWith .shutdown)) subs x =
        if (entries.dlookup x).isSome then (subs x).endWith .shutdown else subs x := by
    intro entries
    induction entries with
    | nil => intro subs _ x; simp
    | cons first entries ih =>
      intro subs hkeys x
      obtain ⟨k, entry⟩ := first
      obtain ⟨hout, hkeys⟩ := List.nodupKeys_cons.mp hkeys
      rw [List.foldl_cons, ih _ hkeys]
      by_cases hx : x = k
      · rw [hx, List.dlookup_eq_none.mpr hout, List.dlookup_cons_eq, Function.update_self]
        simp
      · rw [List.dlookup_cons_ne _ _ hx, Function.update_of_ne hx]
  have hsubs : ∀ x, p.close.subs x =
      if (p.subscribers.lookup x).isSome then (p.subs x).endWith .shutdown else p.subs x :=
    hends p.subscribers.entries p.subs p.subscribers.nodupKeys
  refine ⟨fun x => ?_, ?_⟩
  · unfold Feed.take Feed.leave feed
    rw [hsubs]
    cases p.subscribers.lookup x <;> rfl
  · constructor
    case id_eq =>
      intro x
      rw [hsubs]
      split_ifs
      · exact (Subscription.id_endWith _ _).trans (h.id_eq x)
      · exact h.id_eq x
    case entry => exact fun kind gatewayId x hgate => by cases kind <;> cases hgate
    case fresh => exact fun x _ => rfl
    case registered => exact fun x entry hx => by cases hx
    case mute => exact fun x entry hx => by cases hx
    case shut => exact fun _ x => rfl

/-- What the publisher keeps of an output besides the subscribers. -/
def record (p : Publisher) (output : Output) : Publisher :=
  let p := { p with routed := p.routed ++ [output] }
  match output with
  | .marketEvent event => p.remember event
  | .outboxClosed => { p with closed := true }
  | _ => p

/-- **Taking.** The publisher takes every output, and each feed sees it by itself. -/
theorem take_spec (h : p.Wf) (output : Output) :
    ∃ p', p.take output = .ok p' ∧ p'.Wf ∧ (∀ x, p'.feed x = (p.feed x).take output) ∧
      SameRecord (if p.closed then p else p.record output) p' := by
  unfold take
  by_cases hclosed : p.closed = true
  · rw [if_pos hclosed, if_pos hclosed]
    refine ⟨p, rfl, h, fun x => ?_, SameRecord.refl p⟩
    unfold Feed.take feed
    rw [h.shut hclosed x]
  · have hrouted : Wf { p with routed := p.routed ++ [output] } := h.congr rfl rfl rfl rfl rfl rfl
    rw [if_neg hclosed, if_neg hclosed]
    cases output with
    | marketEvent event =>
      obtain ⟨hfeed, hrecord, hwf⟩ :=
        routeEvent_spec { p with routed := p.routed ++ [.marketEvent event] } event
      exact ⟨_, rfl, hwf hrouted, hfeed, hrecord⟩
    | reply reply =>
      obtain ⟨p', hroute, hfeed, hrecord, hwf⟩ := routeReply_spec hrouted reply
      exact ⟨p', hroute, hwf, hfeed, hrecord⟩
    | snapshotReady ready =>
      obtain ⟨hfeed, hrecord, hwf⟩ := routeSnapshot_spec hrouted ready
      exact ⟨_, rfl, hwf, hfeed, hrecord⟩
    | outboxClosed =>
      obtain ⟨hfeed, hwf⟩ := close_spec hrouted
      exact ⟨_, rfl, hwf, hfeed, rfl, rfl, rfl, rfl, rfl, rfl, rfl⟩

end Publisher

end OrderBookEngine
