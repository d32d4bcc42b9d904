import OrderBookEngine.Properties.Subscriptions

/-!
# Replies are private

What a gateway does with its streams of replies along a run is its `Own`: their ids, and the actions
that concern them, renumbered as if no other subscription had been made. A publisher that is given only
those actions has the same streams (`Mirrors`), so two runs with the same ones cannot be told apart by
the gateway, whatever else goes on in them.
-/

namespace OrderBookEngine

/-- An output that concerns the streams of replies of a gateway. -/
def Output.concerns (gatewayId : GatewayId) : Output → Bool
  | .reply r => r.gatewayId = gatewayId
  | .outboxClosed => true
  | _ => false

/-! ## Ids do not matter -/

namespace Subscription

/-- A subscription under another id. -/
def withId (s : Subscription) (id : SubscriberId) : Subscription := { s with id }

/-- What a consumer can see of its subscription: what it has taken, what is queued, and the reason for
the end. -/
def view (s : Subscription) : List FeedItem × List FeedItem × EndReason :=
  (s.popped, s.items, s.endReason)

/-- The end of a subscription does not depend on its id. -/
theorem endWith_withId (s : Subscription) (id : SubscriberId) (reason : EndReason) :
    (s.withId id).endWith reason = (s.endWith reason).withId id := by
  unfold endWith withId
  simp only
  split_ifs <;> rfl

/-- A push does not depend on the id. -/
theorem tryPush_withId (s : Subscription) (id : SubscriberId) (item : FeedItem) :
    (s.withId id).tryPush item = ((s.tryPush item).1.withId id, (s.tryPush item).2) := by
  unfold tryPush withId
  simp only
  split_ifs <;> rfl

/-- A pop does not depend on the id. -/
theorem nextFor_withId (s : Subscription) (id : SubscriberId) :
    (s.withId id).nextFor.1 = s.nextFor.1.withId id := by
  obtain ⟨_, _, _, items, _, _⟩ := s
  cases items <;> rfl

end Subscription

namespace Feed

variable {f f' : Feed} {g : GatewayId} {a : Publisher.Action} {output : Output}

/-- A feed under another id. -/
def withId (f : Feed) (id : SubscriberId) : Feed := { f with sub := f.sub.withId id }

/-- What a feed is offered does not depend on its id. -/
theorem offer_withId (f : Feed) (id : SubscriberId) (item : FeedItem) :
    (f.withId id).offer item = (f.offer item).withId id := by
  have hpush : (f.withId id).sub.tryPush item = _ := f.sub.tryPush_withId id item
  unfold offer
  rw [hpush]
  simp only [Subscription.endWith_withId]
  split_ifs <;> rfl

/-- How a feed leaves does not depend on its id. -/
theorem leave_withId (f : Feed) (id : SubscriberId) (reason : EndReason) :
    (f.withId id).leave reason = (f.leave reason).withId id := by
  have hentry : (f.withId id).entry = f.entry := rfl
  unfold leave
  rw [hentry]
  cases f.entry with
  | none => rfl
  | some entry => exact congrArg (Feed.mk none) (f.sub.endWith_withId id reason)

/-- A feed of a stream of replies of a gateway. -/
structure OfReplies (g : GatewayId) (f : Feed) : Prop where
  /-- Its entry in the table is one for replies. -/
  entry : ∀ entry, f.entry = some entry → entry = { kind := .replies }
  /-- It is the gateway's. -/
  gatewayId : f.sub.gatewayId = g

/-- A reply is offered to the open feed of its gateway. -/
theorem OfReplies.take_reply (h : f.OfReplies g) (reply : Reply) :
    f.take (.reply reply) =
      if f.entry.isSome ∧ reply.gatewayId = g then f.offer (.reply reply) else f := by
  unfold Feed.take
  cases hentry : f.entry with
  | none => simp
  | some entry =>
    obtain rfl := h.entry entry hentry
    simp [h.gatewayId, eq_comm]

/-- An output that does not concern the gateway leaves its streams alone. -/
theorem OfReplies.take_of_not_concerns (h : f.OfReplies g) (hout : output.concerns g = false) :
    f.take output = f := by
  cases output with
  | reply reply =>
    rw [h.take_reply, if_neg]
    exact fun hd => of_decide_eq_false hout hd.2
  | outboxClosed => cases hout
  | marketEvent event =>
    unfold Feed.take
    cases hentry : f.entry with
    | none => rfl
    | some entry =>
      obtain rfl := h.entry entry hentry
      exact if_neg (by simp [Subscriber.wants])
  | snapshotReady ready =>
    unfold Feed.take
    cases hentry : f.entry with
    | none => rfl
    | some entry =>
      obtain rfl := h.entry entry hentry
      exact ite_self f

/-- An offer leaves it a feed of replies. -/
theorem OfReplies.offer (h : f.OfReplies g) (item : FeedItem) : (f.offer item).OfReplies g := by
  have hgateway : (f.sub.tryPush item).1.gatewayId = g := (f.sub.tryPush_spec item).2.1.trans h.gatewayId
  unfold Feed.offer
  split_ifs
  · exact ⟨h.entry, hgateway⟩
  · exact ⟨fun entry hentry => (by cases hentry), (Subscription.gatewayId_endWith _ _).trans hgateway⟩

/-- An end leaves it a feed of replies. -/
theorem OfReplies.leave (h : f.OfReplies g) (reason : EndReason) : (f.leave reason).OfReplies g := by
  obtain ⟨hentry, -, hgateway⟩ := f.leave_spec reason
  exact ⟨fun entry hsome => (by rw [hentry] at hsome; cases hsome), hgateway.trans h.gatewayId⟩

/-- An output leaves it a feed of replies. -/
theorem OfReplies.take (h : f.OfReplies g) (output : Output) : (f.take output).OfReplies g := by
  cases hout : output.concerns g with
  | false =>
    rw [h.take_of_not_concerns hout]
    exact h
  | true =>
    cases output with
    | reply reply =>
      rw [h.take_reply]
      split_ifs
      · exact h.offer _
      · exact h
    | outboxClosed =>
      unfold Feed.take
      cases f.entry with
      | none => exact h
      | some entry => exact h.leave .shutdown
    | marketEvent event => cases hout
    | snapshotReady ready => cases hout

/-- A pop leaves it a feed of replies. -/
theorem OfReplies.nextFor (h : f.OfReplies g) : OfReplies g { f with sub := f.sub.nextFor.1 } :=
  ⟨h.entry, f.sub.nextFor_spec.2.1.trans h.gatewayId⟩

/-- Every action leaves it a feed of replies. -/
theorem OfReplies.act (h : f.OfReplies g) (a : Publisher.Action) : (f.act a).OfReplies g := by
  cases a with
  | take output => exact h.take output
  | subscribe gatewayId symbols fromSeq => exact h
  | subscribeReplies gatewayId => exact h
  | unsubscribe id =>
    show OfReplies g (if id = f.sub.id then _ else _)
    split_ifs
    · exact h.leave _
    · exact h
  | nextFor id =>
    show OfReplies g (if id = f.sub.id then _ else _)
    split_ifs
    · exact h.nextFor
    · exact h

/-! ## What a stream of replies is due -/

/-- A feed that has been given the replies that it is due, or that has ended: for want of room, or with
nothing lost. -/
structure Due (f : Feed) (due : List Reply) : Prop where
  /-- While it is in the table, it has been given all that it is due. -/
  registered : f.entry.isSome → f.sub.endReason = .none ∧ f.sub.popped ++ f.sub.items = due.map .reply
  /-- Once it has ended, it has been given the first of that, or all of it if it was not too slow. -/
  ended : f.entry = none → f.sub.popped ++ f.sub.items <+: due.map .reply ∧
    (f.sub.endReason ≠ .slowConsumer → f.sub.popped ++ f.sub.items = due.map .reply)

variable {due : List Reply}

/-- A reply that is offered is one more that is due. -/
theorem Due.offer (h : f.Due due) (hentry : f.entry.isSome) (reply : Reply) :
    (f.offer (.reply reply)).Due (due ++ [reply]) := by
  obtain ⟨hopen, hitems⟩ := h.registered hentry
  unfold Feed.offer Subscription.tryPush
  rw [if_neg (not_not.mpr hopen)]
  by_cases hfull : f.sub.capacity ≤ f.sub.items.length
  · -- What was queued is lost.
    rw [if_pos hfull]
    have hended : f.sub.endWith .slowConsumer = { f.sub with endReason := .slowConsumer, items := [] } := by
      unfold Subscription.endWith
      rw [if_neg (not_not.mpr hopen), if_pos rfl]
    simp only [Bool.false_eq_true, if_false, hended]
    refine ⟨fun hsome => (by cases hsome), fun _ => ⟨?_, fun hslow => absurd rfl hslow⟩⟩
    rw [List.append_nil, List.map_append, ← hitems, List.append_assoc]
    exact List.prefix_append _ _
  · rw [if_neg hfull]
    refine ⟨fun _ => ⟨hopen, ?_⟩, fun hnone => ?_⟩
    · show f.sub.popped ++ (f.sub.items ++ [.reply reply]) = _
      rw [← List.append_assoc, hitems, List.map_append]
      rfl
    · rw [if_pos rfl] at hnone
      have hnone : f.entry = none := hnone
      rw [hnone] at hentry
      cases hentry

/-- An end that is not for want of room loses nothing. -/
theorem Due.leave (h : f.Due due) {reason : EndReason} (hslow : reason ≠ .slowConsumer) :
    (f.leave reason).Due due := by
  unfold Feed.leave
  cases hentry : f.entry with
  | none => exact h
  | some entry =>
    obtain ⟨hopen, hitems⟩ := h.registered (Option.isSome_of_eq_some hentry)
    refine ⟨fun hsome => (by cases hsome), fun _ => ?_⟩
    have hkept : (f.sub.endWith reason).popped ++ (f.sub.endWith reason).items = due.map .reply := by
      unfold Subscription.endWith
      rw [if_neg (not_not.mpr hopen), if_neg hslow]
      exact hitems
    exact ⟨hkept ▸ List.prefix_rfl, fun _ => hkept⟩

/-- A reply of the gateway is due while the stream is in the table. -/
def dueOf (g : GatewayId) (f : Feed) : Publisher.Action → List Reply
  | .take (.reply reply) => if f.entry.isSome ∧ reply.gatewayId = g then [reply] else []
  | _ => []

/-- Every action gives a feed what it is due. -/
theorem Due.act (h : f.Due due) (hreplies : f.OfReplies g) (a : Publisher.Action) :
    (f.act a).Due (due ++ f.dueOf g a) := by
  have hsame : f.Due (due ++ []) := (List.append_nil due).symm ▸ h
  cases a with
  | take output =>
    cases output with
    | reply reply =>
      show (f.take (.reply reply)).Due (due ++ if _ then _ else _)
      -- A reply of this gateway is due, and is offered as long as the subscription stands.
      rw [hreplies.take_reply]
      split_ifs with hdue
      · exact h.offer hdue.1 reply
      · exact hsame
    | outboxClosed =>
      show (f.take .outboxClosed).Due (due ++ [])
      rw [List.append_nil]
      unfold Feed.take
      cases f.entry with
      | none => exact h
      | some entry => exact h.leave (by simp)
    | marketEvent event =>
      show (f.take (.marketEvent event)).Due (due ++ [])
      rwa [hreplies.take_of_not_concerns rfl]
    | snapshotReady ready =>
      show (f.take (.snapshotReady ready)).Due (due ++ [])
      rwa [hreplies.take_of_not_concerns rfl]
  | subscribe gatewayId symbols fromSeq => exact hsame
  | subscribeReplies gatewayId => exact hsame
  | unsubscribe id =>
    show (if id = f.sub.id then f.leave .unsubscribed else f).Due (due ++ [])
    rw [List.append_nil]
    split_ifs
    · exact h.leave (by simp)
    · exact h
  | nextFor id =>
    show (if id = f.sub.id then { f with sub := f.sub.nextFor.1 } else f).Due (due ++ [])
    rw [List.append_nil]
    split_ifs
    · -- The consumer moves the head of the queue.
      obtain ⟨-, -, hend, hitems⟩ := f.sub.nextFor_spec
      refine ⟨fun hsome => ?_, fun hnone => ?_⟩
      · exact ⟨hend.trans (h.registered hsome).1, hitems.trans (h.registered hsome).2⟩
      · obtain ⟨hleads, hall⟩ := h.ended hnone
        exact ⟨hitems ▸ hleads, fun hslow => hitems.trans (hall (hend ▸ hslow))⟩
    · exact h

/-- What has been popped is a beginning of what was due. -/
theorem Due.popped (h : f.Due due) : f.sub.popped <+: due.map .reply := by
  refine (List.prefix_append f.sub.popped f.sub.items).trans ?_
  cases hentry : f.entry with
  | none => exact (h.ended hentry).1
  | some entry => exact (h.registered (Option.isSome_of_eq_some hentry)).2 ▸ List.prefix_rfl

/-- A feed that was not too slow has been given all that it is due. -/
theorem Due.complete (h : f.Due due) (hslow : f.sub.endReason ≠ .slowConsumer) :
    f.sub.popped ++ f.sub.items = due.map .reply := by
  cases hentry : f.entry with
  | none => exact (h.ended hentry).2 hslow
  | some entry => exact (h.registered (Option.isSome_of_eq_some hentry)).2

/-! ## The same stream under another id -/

/-- It is a feed of replies under every id. -/
theorem OfReplies.withId (h : f.OfReplies g) (id : SubscriberId) : (f.withId id).OfReplies g :=
  ⟨h.entry, h.gatewayId⟩

/-- What concerns its gateway does not depend on the id of a feed. -/
theorem OfReplies.take_withId (h : f.OfReplies g) (hout : output.concerns g = true) (id : SubscriberId) :
    (f.withId id).take output = (f.take output).withId id := by
  cases output with
  | reply reply =>
    rw [(h.withId id).take_reply, h.take_reply, offer_withId]
    exact (apply_ite (fun f' : Feed => f'.withId id) _ _ _).symm
  | outboxClosed =>
    have hleave := f.leave_withId id .shutdown
    have hentry : (f.withId id).entry = f.entry := rfl
    unfold Feed.take
    rw [hentry]
    cases f.entry with
    | none => rfl
    | some entry => exact hleave
  | marketEvent event => cases hout
  | snapshotReady ready => cases hout

/-- To unsubscribe does not depend on the id, if it is named by it. -/
theorem unsubscribe_withId (f : Feed) (id : SubscriberId) {x y : SubscriberId}
    (hsame : y = id ↔ x = f.sub.id) :
    (f.withId id).act (.unsubscribe y) = (f.act (.unsubscribe x)).withId id := by
  show (if y = id then (f.withId id).leave .unsubscribed else f.withId id) = _
  unfold Feed.act
  simp only [hsame, leave_withId]
  split_ifs <;> rfl

/-- To pop does not depend on the id, if it is named by it. -/
theorem nextFor_withId (f : Feed) (id : SubscriberId) {x y : SubscriberId}
    (hsame : y = id ↔ x = f.sub.id) :
    (f.withId id).act (.nextFor y) = (f.act (.nextFor x)).withId id := by
  have hnext : (f.withId id).sub.nextFor.1 = f.sub.nextFor.1.withId id := f.sub.nextFor_withId id
  show (if y = id then { f.withId id with sub := (f.withId id).sub.nextFor.1 } else f.withId id) = _
  unfold Feed.act
  simp only [hsame, hnext]
  split_ifs <;> rfl

/-! ## What an action can put into a feed -/

/-- What is in the table after an action was in it before, with the same kind and gateway. -/
theorem registered_act {entry : Subscriber} (h : (f.act a).entry = some entry) :
    ∃ entry', f.entry = some entry' ∧ entry'.kind = entry.kind ∧
      (f.act a).sub.gatewayId = f.sub.gatewayId := by
  -- An offered item leaves the entry as it is, or ends the subscription.
  have hoffer : ∀ (f' : Feed) (item : FeedItem), (f'.offer item).entry = some entry →
      f'.entry = some entry ∧ (f'.offer item).sub.gatewayId = f'.sub.gatewayId := by
    intro f' item h
    unfold Feed.offer at h ⊢
    split_ifs at h ⊢
    exact ⟨h, (f'.sub.tryPush_spec item).2.1⟩
  have hleave : ∀ reason, (f.leave reason).entry ≠ some entry := fun reason hsome => by
    rw [(f.leave_spec reason).1] at hsome
    cases hsome
  cases a with
  | take output =>
    change (f.take output).entry = some entry at h
    show ∃ entry', _ ∧ _ ∧ (f.take output).sub.gatewayId = _
    unfold Feed.take at h ⊢
    cases hentry : f.entry with
    | none =>
      rw [hentry] at h
      cases hentry.symm.trans h
    | some entry' =>
      rw [hentry] at h
      have hstay : f.entry = some entry → ∃ e, some entry' = some e ∧ e.kind = entry.kind ∧
          f.sub.gatewayId = f.sub.gatewayId := fun he => ⟨entry', rfl, by
        rw [Option.some.inj (hentry.symm.trans he)], rfl⟩
      cases output with
      | marketEvent event =>
        simp only at h ⊢
        split_ifs at h ⊢
        · obtain ⟨he, hgateway⟩ := hoffer f _ h
          rw [hgateway]
          exact hstay he
        · exact hstay h
      | reply reply =>
        simp only at h ⊢
        split_ifs at h ⊢
        · obtain ⟨he, hgateway⟩ := hoffer f _ h
          rw [hgateway]
          exact hstay he
        · exact hstay h
      | snapshotReady ready =>
        simp only at h ⊢
        split_ifs at h ⊢ with hother
        · exact hstay h
        · cases hstate : entry'.live ready.symbol with
          | none =>
            rw [hstate] at h
            exact hstay h
          | some state =>
            simp only [hstate] at h ⊢
            split_ifs at h ⊢
            · exact hstay h
            · -- Only the state of the symbol is another.
              obtain ⟨he, hgateway⟩ := hoffer _ _ h
              have hlive : ∀ live, some { entry' with live } = some entry → entry'.kind = entry.kind :=
                fun live he => by rw [← Option.some.inj he]
              exact ⟨entry', rfl, hlive _ he, hgateway⟩
      | outboxClosed => exact absurd h (hleave _)
  | subscribe gatewayId symbols fromSeq => exact ⟨entry, h, rfl, rfl⟩
  | subscribeReplies gatewayId => exact ⟨entry, h, rfl, rfl⟩
  | unsubscribe id =>
    unfold Feed.act at h ⊢
    simp only at h ⊢
    split_ifs at h ⊢
    · exact absurd h (hleave _)
    · exact ⟨entry, h, rfl, rfl⟩
  | nextFor id =>
    unfold Feed.act at h ⊢
    simp only at h ⊢
    split_ifs at h ⊢
    · exact ⟨entry, h, rfl, f.sub.nextFor_spec.2.1⟩
    · exact ⟨entry, h, rfl, rfl⟩

/-- A reply reaches the streams of replies of its gateway only. -/
theorem given_reply {reply : Reply} (h : .reply reply ∈ (f.act a).given) :
    .reply reply ∈ f.given ∨ ∃ entry, f.entry = some entry ∧ entry.kind = .replies ∧
      f.sub.gatewayId = reply.gatewayId := by
  cases a with
  | take output =>
    change .reply reply ∈ (f.take output).given at h
    unfold Feed.take at h
    cases hentry : f.entry with
    | none =>
      rw [hentry] at h
      exact Or.inl h
    | some entry =>
      rw [hentry] at h
      cases output with
      | marketEvent event =>
        simp only at h
        split_ifs at h
        · -- An event is no reply.
          rcases given_offer f _ _ h with hold | hnew
          · exact Or.inl hold
          · cases hnew
        · exact Or.inl h
      | reply r =>
        simp only at h
        split_ifs at h with hmine
        · rcases given_offer f _ _ h with hold | hnew
          · exact Or.inl hold
          · -- The reply itself, which the entry takes only for its own gateway.
            obtain rfl := FeedItem.reply.inj hnew
            exact Or.inr ⟨entry, rfl, hmine⟩
        · exact Or.inl h
      | snapshotReady ready =>
        simp only at h
        split_ifs at h with hother
        · exact Or.inl h
        · cases hstate : entry.live ready.symbol with
          | none =>
            rw [hstate] at h
            exact Or.inl h
          | some state =>
            simp only [hstate] at h
            split_ifs at h
            · exact Or.inl h
            · rcases given_offer _ _ _ h with hold | hnew
              · exact Or.inl hold
              · cases hnew
      | outboxClosed => exact Or.inl (given_leave f .shutdown _ h)
  | subscribe gatewayId symbols fromSeq => exact Or.inl h
  | subscribeReplies gatewayId => exact Or.inl h
  | unsubscribe id =>
    unfold Feed.act at h
    simp only at h
    split_ifs at h
    · exact Or.inl (given_leave f .unsubscribed _ h)
    · exact Or.inl h
  | nextFor id =>
    unfold Feed.act at h
    simp only at h
    split_ifs at h
    · rw [given, f.sub.nextFor_spec.2.2.2] at h
      exact Or.inl h
    · exact Or.inl h

end Feed

namespace Publisher

variable {p p' q q' : Publisher} {g : GatewayId} {a b : Action} {ids : List SubscriberId}
  {id : SubscriberId} {entry : Subscriber} {symbols : List SymbolId} {options : PublisherOptions}

/-! ## What is a gateway's own -/

/-- The streams of replies of a gateway, in the order in which they are opened. -/
def ownIds (g : GatewayId) (p : Publisher) (ids : List SubscriberId) : Action → List SubscriberId
  | .subscribeReplies gatewayId =>
    if gatewayId = g then ids ++ (p.subscribeReplies g).2.subscription.toList else ids
  | _ => ids

/-- An action that concerns them, with the streams numbered from one. -/
def ownAction (g : GatewayId) (ids : List SubscriberId) : Action → List Action
  | .take output => if output.concerns g then [.take output] else []
  | .subscribe _ _ _ => []
  | .subscribeReplies gatewayId => if gatewayId = g then [.subscribeReplies g] else []
  | .unsubscribe id => if id ∈ ids then [.unsubscribe (ids.idxOf id + 1)] else []
  | .nextFor id => if id ∈ ids then [.nextFor (ids.idxOf id + 1)] else []

/-- What a gateway does with its streams of replies along a run. -/
structure Own where
  /-- The ids of its streams, in order. -/
  ids : List SubscriberId
  /-- What it does. -/
  actions : List Action

/-- The streams and the actions of a gateway, along the run of a publisher. -/
def own (g : GatewayId) : Publisher → List SubscriberId → List Action → Own
  | _, ids, [] => ⟨ids, []⟩
  | p, ids, a :: actions =>
    match p.act a with
    | .ok p' =>
      let rest := own g p' (ownIds g p ids a) actions
      ⟨rest.ids, ownAction g ids a ++ rest.actions⟩
    | .error _ => ⟨ids, []⟩

/-- The replies of a gateway that are routed along a run while a subscription is registered. -/
def repliesWhile (g : GatewayId) (id : SubscriberId) : Publisher → List Action → List Reply
  | _, [] => []
  | p, a :: actions =>
    (p.feed id).dueOf g a ++
      match p.act a with
      | .ok p' => repliesWhile g id p' actions
      | .error _ => []

/-! ## A publisher with nothing else -/

/-- A publisher `q` that has the streams of replies of a gateway in `p` and no other subscription. -/
structure Mirrors (g : GatewayId) (p q : Publisher) (ids : List SubscriberId) : Prop where
  /-- The first publisher is well formed. -/
  wf : p.Wf
  /-- The second one is well formed. -/
  wf' : q.Wf
  /-- The streams have different ids. -/
  nodup : ids.Nodup
  /-- The ids have been given out. -/
  handed : ∀ id ∈ ids, id < p.nextId
  /-- The second publisher has given out an id for each stream. -/
  count : q.nextId = ids.length + 1
  /-- Both are closed, or neither. -/
  closed : q.closed = p.closed
  /-- Their queues have the same capacity. -/
  capacity : q.options.queueCapacity = p.options.queueCapacity
  /-- Each stream is the same at both, but for its id. -/
  streams : ∀ (n : ℕ) (id : SubscriberId), ids[n]? = some id →
    (p.feed id).OfReplies g ∧ q.feed (n + 1) = (p.feed id).withId (n + 1)
  /-- Every stream of the gateway's replies is among them. -/
  mine : ∀ id entry, p.subscribers.lookup id = some entry → entry.kind = .replies →
    (p.subs id).gatewayId = g → id ∈ ids
  /-- The second publisher has no other subscription. -/
  only : ∀ id entry, q.subscribers.lookup id = some entry → ∃ n : ℕ, n < ids.length ∧ id = n + 1

/-- What is in the table after an action was there before, or is new. -/
theorem registered_act (h : p.Wf) (hact : p.act a = .ok p')
    (hentry : p'.subscribers.lookup id = some entry) :
    (id < p.nextId ∧ ∃ entry', p.subscribers.lookup id = some entry' ∧ entry'.kind = entry.kind ∧
      (p'.subs id).gatewayId = (p.subs id).gatewayId) ∨
    id = p.nextId ∧ p'.nextId = p.nextId + 1 := by
  obtain ⟨_, hact', hwf, hfeed, -, -⟩ := act_spec h a
  obtain rfl := Except.ok.inj (hact.symm.trans hact')
  by_cases hold : id < p.nextId
  · refine Or.inl ⟨hold, ?_⟩
    have hfeed' : (p'.feed id).entry = some entry := hentry
    rw [hfeed id hold] at hfeed'
    obtain ⟨entry', hentry', hkind, hgateway⟩ := Feed.registered_act hfeed'
    exact ⟨entry', hentry', hkind, (congrArg (Subscription.gatewayId ∘ Feed.sub) (hfeed id hold)).trans
      hgateway⟩
  · -- An id that was not handed out before is that of this action.
    have hlate : id < p'.nextId := by
      by_contra hout
      rw [hwf.fresh id (not_lt.mp hout)] at hentry
      cases hentry
    have hle : p.nextId ≤ id := not_lt.mp hold
    rcases (act_hands h hact).feed h with hsame | ⟨hsucc, -⟩
    · rw [hsame] at hlate
      exact absurd hlate hold
    · rw [hsucc] at hlate
      exact Or.inr ⟨le_antisymm (Nat.lt_succ_iff.mp hlate) hle, hsucc⟩

namespace Mirrors

/-- The gateway's slot is held by one of its streams. -/
theorem held (h : Mirrors g p q ids) :
    (p.repliesByGateway g).isSome ↔ ∃ (n : ℕ) (id : SubscriberId), ids[n]? = some id ∧ (p.feed id).entry.isSome := by
  constructor
  · intro hheld
    obtain ⟨id, hid⟩ := Option.isSome_iff_exists.mp hheld
    obtain ⟨entry, hentry, hkind, hgateway⟩ := h.wf.entry .replies g id hid
    obtain ⟨n, hn⟩ := List.mem_iff_getElem?.mp (h.mine id entry hentry hkind hgateway)
    exact ⟨n, id, hn, Option.isSome_of_eq_some hentry⟩
  · rintro ⟨n, id, hn, hsome⟩
    obtain ⟨entry, hentry⟩ := Option.isSome_iff_exists.mp hsome
    obtain ⟨hreplies, -⟩ := h.streams n id hn
    obtain rfl := hreplies.entry entry hentry
    have hgate := (h.wf.registered id _ hentry).2
    have hgateway : (p.subs id).gatewayId = g := hreplies.gatewayId
    rw [hgateway] at hgate
    exact Option.isSome_of_eq_some hgate

/-- The slot is held at the second publisher if one of the streams is open at the first. -/
theorem held' (h : Mirrors g p q ids) :
    (q.repliesByGateway g).isSome ↔ ∃ (n : ℕ) (id : SubscriberId), ids[n]? = some id ∧ (p.feed id).entry.isSome := by
  constructor
  · intro hheld
    obtain ⟨x, hx⟩ := Option.isSome_iff_exists.mp hheld
    obtain ⟨entry, hentry, -⟩ := h.wf'.entry .replies g x hx
    obtain ⟨n, hn, rfl⟩ := h.only x entry hentry
    have hsame := (h.streams n ids[n] (List.getElem?_eq_getElem hn)).2
    have hentry' : (p.feed ids[n]).entry = some entry := (congrArg Feed.entry hsame).symm.trans hentry
    exact ⟨n, ids[n], List.getElem?_eq_getElem hn, Option.isSome_of_eq_some hentry'⟩
  · rintro ⟨n, id, hn, hsome⟩
    obtain ⟨entry, hentry⟩ := Option.isSome_iff_exists.mp hsome
    obtain ⟨hreplies, hsame⟩ := h.streams n id hn
    obtain rfl := hreplies.entry entry hentry
    have hentry' : q.subscribers.lookup (n + 1) = some { kind := .replies } :=
      (congrArg Feed.entry hsame).trans hentry
    have hgateway : (q.subs (n + 1)).gatewayId = g :=
      (congrArg (Subscription.gatewayId ∘ Feed.sub) hsame).trans hreplies.gatewayId
    have hgate := (h.wf'.registered (n + 1) _ hentry').2
    rw [hgateway] at hgate
    exact Option.isSome_of_eq_some hgate

/-- Both let the gateway in, or neither. -/
theorem passes_iff (h : Mirrors g p q ids) : q.PassesReplies g ↔ p.PassesReplies g := by
  have hslot : q.repliesByGateway g = none ↔ p.repliesByGateway g = none := by
    rw [← Option.not_isSome_iff_eq_none, ← Option.not_isSome_iff_eq_none, h.held, h.held']
  constructor
  · rintro ⟨hgateway, hopen, hsingle⟩
    exact ⟨hgateway, h.closed.symm.trans hopen, hslot.mp hsingle⟩
  · rintro ⟨hgateway, hopen, hsingle⟩
    exact ⟨hgateway, h.closed.trans hopen, hslot.mpr hsingle⟩

/-- An action that both carry out. -/
theorem both (h : Mirrors g p q ids) (hact : p.act a = .ok p') (hnext : p'.nextId = p.nextId)
    (hact' : q.act b = .ok q') (hnext' : q'.nextId = q.nextId) (hcloses : b.closes = a.closes)
    (hstreams : ∀ (n : ℕ) (id : SubscriberId), ids[n]? = some id → (p.feed id).OfReplies g →
      ((p.feed id).act a).OfReplies g ∧
        ((p.feed id).withId (n + 1)).act b = ((p.feed id).act a).withId (n + 1)) :
    Mirrors g p' q' ids := by
  obtain ⟨_, hpact, hwf, hfeed, -, -⟩ := act_spec h.wf a
  obtain rfl := Except.ok.inj (hact.symm.trans hpact)
  obtain ⟨_, hqact, hwf', hfeed', -, -⟩ := act_spec h.wf' b
  obtain rfl := Except.ok.inj (hact'.symm.trans hqact)
  obtain ⟨hoptions, hclosed⟩ := settings_act h.wf hact
  obtain ⟨hoptions', hclosed'⟩ := settings_act h.wf' hact'
  constructor
  case wf => exact hwf
  case wf' => exact hwf'
  case nodup => exact h.nodup
  case handed => exact fun id hid => hnext.symm ▸ h.handed id hid
  case count => exact hnext'.trans h.count
  case closed => rw [hclosed, hclosed', h.closed, hcloses]
  case capacity => rw [hoptions, hoptions', h.capacity]
  case streams =>
    intro n id hn
    obtain ⟨hreplies, hsame⟩ := h.streams n id hn
    -- Both publishers do the same to the streams of the gateway.
    obtain ⟨hkeeps, hmoves⟩ := hstreams n id hn hreplies
    have hlt : n + 1 < q.nextId := by
      rw [h.count]
      exact Nat.succ_lt_succ (List.getElem?_eq_some_iff.mp hn).1
    rw [hfeed id (h.handed id (List.mem_of_getElem? hn)), hfeed' (n + 1) hlt, hsame]
    exact ⟨hkeeps, hmoves⟩
  case mine =>
    intro id entry hentry hkind hgateway
    -- No id is handed out, so the subscription was there.
    rcases registered_act h.wf hact hentry with ⟨-, entry', hentry', hkind', hgateway'⟩ | ⟨-, hsucc⟩
    · exact h.mine id entry' hentry' (hkind'.trans hkind) (hgateway'.symm.trans hgateway)
    · rw [hnext] at hsucc
      exact absurd hsucc (Nat.succ_ne_self _).symm
  case only =>
    intro x entry hentry
    rcases registered_act h.wf' hact' hentry with ⟨-, entry', hentry', -⟩ | ⟨-, hsucc⟩
    · exact h.only x entry' hentry'
    · rw [hnext'] at hsucc
      exact absurd hsucc (Nat.succ_ne_self _).symm

/-- An action of no concern to the gateway. -/
theorem alone (h : Mirrors g p q ids) (hact : p.act a = .ok p') (hcloses : a.closes = false)
    (hstay : ∀ id, (p.feed id).OfReplies g → id ∈ ids → (p.feed id).act a = p.feed id)
    (hnew : p'.nextId = p.nextId + 1 → ∀ entry, p'.subscribers.lookup p.nextId = some entry →
      entry.kind = .replies → (p'.subs p.nextId).gatewayId ≠ g) : Mirrors g p' q ids := by
  obtain ⟨_, hpact, hwf, hfeed, hnext, -⟩ := act_spec h.wf a
  obtain rfl := Except.ok.inj (hact.symm.trans hpact)
  obtain ⟨hoptions, hclosed⟩ := settings_act h.wf hact
  constructor
  case wf => exact hwf
  case wf' => exact h.wf'
  case nodup => exact h.nodup
  case handed => exact fun id hid => (h.handed id hid).trans_le hnext
  case count => exact h.count
  case closed => rw [hclosed, hcloses, Bool.or_false, h.closed]
  case capacity => rw [hoptions, h.capacity]
  -- The streams of the gateway are not touched, and the action opens none of them.
  case streams =>
    intro n id hn
    have hmem := List.mem_of_getElem? hn
    rw [hfeed id (h.handed id hmem), hstay id (h.streams n id hn).1 hmem]
    exact h.streams n id hn
  case mine =>
    intro id entry hentry hkind hgateway
    rcases registered_act h.wf hact hentry with ⟨-, entry', hentry', hkind', hgateway'⟩ | ⟨rfl, hsucc⟩
    · exact h.mine id entry' hentry' (hkind'.trans hkind) (hgateway'.symm.trans hgateway)
    · exact absurd hgateway (hnew hsucc entry hentry hkind)
  case only => exact h.only

/-- The gateway opens a stream of replies. -/
theorem opens (h : Mirrors g p q ids) (hpasses : p.PassesReplies g) :
    Mirrors g (p.register (p.newRepliesSub g) { kind := .replies })
      (q.register (q.newRepliesSub g) { kind := .replies }) (ids ++ [p.nextId]) := by
  have hpasses' := h.passes_iff.mpr hpasses
  obtain ⟨hwf, hfeed, hother, hrecord⟩ := hpasses.register_spec h.wf
  obtain ⟨hwf', hfeed', hother', hrecord'⟩ := hpasses'.register_spec h.wf'
  set p' := p.register (p.newRepliesSub g) { kind := .replies }
  set q' := q.register (q.newRepliesSub g) { kind := .replies }
  have hnext : p'.nextId = p.nextId + 1 := hrecord.nextId
  have hnext' : q'.nextId = q.nextId + 1 := hrecord'.nextId
  have hnotin : p.nextId ∉ ids := fun hmem => lt_irrefl _ (h.handed _ hmem)
  constructor
  case wf => exact hwf
  case wf' => exact hwf'
  case nodup => exact List.nodup_append.mpr ⟨h.nodup, List.nodup_singleton _, fun x hx y hy hxy =>
    hnotin (List.mem_singleton.mp hy ▸ hxy ▸ hx)⟩
  case handed =>
    intro id hid
    rw [hnext]
    rcases List.mem_append.mp hid with hid | hid
    · exact (h.handed id hid).trans (Nat.lt_succ_self _)
    · rw [List.mem_singleton.mp hid]
      exact Nat.lt_succ_self _
  case count => rw [hnext', h.count, List.length_append, List.length_singleton]
  case closed => exact hrecord'.closed.trans (h.closed.trans hrecord.closed.symm)
  case capacity => rw [hrecord'.options, hrecord.options]; exact h.capacity
  case streams =>
    intro n id hn
    rw [List.getElem?_append] at hn
    split_ifs at hn with hlt
    · -- A stream that was there.
      have hid : id ≠ p.nextId := (h.handed id (List.mem_of_getElem? hn)).ne
      have hn' : n + 1 ≠ q.nextId := by
        rw [h.count]
        exact fun heq => hlt.ne (Nat.succ.inj heq)
      rw [hother id hid, hother' (n + 1) hn']
      exact h.streams n id hn
    · -- The stream that has just been opened, on both sides.
      have hlength : n = ids.length ∧ p.nextId = id := by
        rw [List.getElem?_singleton] at hn
        split_ifs at hn with hzero
        exact ⟨by omega, Option.some.inj hn⟩
      obtain ⟨rfl, rfl⟩ := hlength
      rw [hfeed, ← h.count, hfeed']
      refine ⟨⟨fun entry hentry => (Option.some.inj hentry).symm, rfl⟩, ?_⟩
      unfold Feed.withId Subscription.withId newRepliesSub
      rw [h.capacity]
  case mine =>
    intro id entry hentry hkind hgateway
    by_cases hid : id = p.nextId
    · rw [hid]
      exact List.mem_append_right _ (List.mem_singleton_self _)
    · have hold := hother id hid
      have hentry' : p.subscribers.lookup id = some entry := (congrArg Feed.entry hold).symm.trans hentry
      have hgateway' : (p.subs id).gatewayId = g :=
        (congrArg (Subscription.gatewayId ∘ Feed.sub) hold).symm.trans hgateway
      exact List.mem_append_left _ (h.mine id entry hentry' hkind hgateway')
  case only =>
    intro x entry hentry
    rw [List.length_append, List.length_singleton]
    by_cases hx : x = q.nextId
    · exact ⟨ids.length, Nat.lt_succ_self _, hx.trans h.count⟩
    · have hentry' : q.subscribers.lookup x = some entry :=
        (congrArg Feed.entry (hother' x hx)).symm.trans hentry
      obtain ⟨n, hn, rfl⟩ := h.only x entry hentry'
      exact ⟨n, hn.trans (Nat.lt_succ_self _), rfl⟩

/-- The number of a stream. -/
theorem idxOf_iff (h : Mirrors g p q ids) {n : ℕ} {x : SubscriberId} (hid : id ∈ ids)
    (hn : ids[n]? = some x) : ids.idxOf id + 1 = n + 1 ↔ id = (p.feed x).sub.id := by
  have hx : (p.feed x).sub.id = x := h.wf.id_eq x
  have hidx : ids[ids.idxOf id]? = some id := List.getElem?_idxOf hid
  rw [hx, Nat.add_right_cancel_iff]
  constructor
  · rintro rfl
    exact Option.some.inj (hidx.symm.trans hn)
  · rintro rfl
    exact (List.getElem?_inj (List.idxOf_lt_length_of_mem hid) h.nodup).mp (hidx.trans hn.symm)

/-- An action that is no request, carried out by both. -/
theorem echo (h : Mirrors g p q ids) (hact : p.act a = .ok p') (hcloses : b.closes = a.closes)
    (hnext : p'.nextId = p.nextId) (hnext' : ∀ q', Hands q b q' → q'.nextId = q.nextId)
    (hmoves : ∀ (n : ℕ) (id : SubscriberId), ids[n]? = some id → (p.feed id).OfReplies g →
      ((p.feed id).withId (n + 1)).act b = ((p.feed id).act a).withId (n + 1)) :
    ∃ q', q.run [b] = .ok q' ∧ Mirrors g p' q' ids := by
  obtain ⟨q', hact', -⟩ := act_spec h.wf' b
  refine ⟨q', ?_, h.both hact hnext hact' (hnext' q' (act_hands h.wf' hact')) hcloses
    fun n id hn hreplies => ⟨hreplies.act a, hmoves n id hn hreplies⟩⟩
  unfold run
  rw [List.foldlM_cons, hact']
  rfl

/-- What the first publisher takes, the second takes if it concerns the gateway. -/
theorem act_take {output : Output} (h : Mirrors g p q ids) (hact : p.act (.take output) = .ok p') :
    ∃ q', q.run (ownAction g ids (.take output)) = .ok q' ∧ Mirrors g p' q' ids := by
  have hnext : ∀ {r r' : Publisher}, Hands r (.take output) r' → r'.nextId = r.nextId := by
    intro r r' hhands
    cases hhands with
    | none nextId => exact nextId
  have hsame := hnext (act_hands h.wf hact)
  simp only [ownAction]
  cases hout : output.concerns g with
  | true =>
    exact h.echo hact rfl hsame (fun _ => hnext) fun n id _ hreplies => hreplies.take_withId hout (n + 1)
  | false =>
    have hcloses : Action.closes (.take output) = false := by
      cases output with
      | outboxClosed => cases hout
      | _ => rfl
    refine ⟨q, rfl, h.alone hact hcloses (fun id hreplies _ => hreplies.take_of_not_concerns hout) ?_⟩
    exact fun hsucc => absurd (hsame.symm.trans hsucc) (Nat.succ_ne_self _).symm

/-- A consumer of the gateway or one of its handlers acts on one stream, under its id. -/
theorem act_own {f : SubscriberId → Action} (h : Mirrors g p q ids) (hact : p.act (f id) = .ok p')
    (hcloses : ∀ x, (f x).closes = false)
    (hnext : ∀ {r r' : Publisher} {x : SubscriberId}, Hands r (f x) r' → r'.nextId = r.nextId)
    (hmoves : ∀ (feed : Feed) (i x y : SubscriberId), (y = i ↔ x = feed.sub.id) →
      (feed.withId i).act (f y) = (feed.act (f x)).withId i)
    (hstay : ∀ (feed : Feed) (x : SubscriberId), x ≠ feed.sub.id → feed.act (f x) = feed) :
    ∃ q', q.run (if id ∈ ids then [f (ids.idxOf id + 1)] else []) = .ok q' ∧ Mirrors g p' q' ids := by
  have hsame := hnext (act_hands h.wf hact)
  split_ifs with hid
  · exact h.echo hact ((hcloses _).trans (hcloses id).symm) hsame (fun _ => hnext)
      fun n x hn _ => hmoves (p.feed x) (n + 1) id _ (h.idxOf_iff hid hn)
  · refine ⟨q, rfl, h.alone hact (hcloses id) (fun x _ hx => hstay (p.feed x) id ?_) fun hsucc =>
      absurd (hsame.symm.trans hsucc) (Nat.succ_ne_self _).symm⟩
    exact fun he => hid (he.trans (h.wf.id_eq x) ▸ hx)

/-- A subscription to events does not concern the second publisher. -/
theorem act_subscribe {gatewayId : GatewayId} {asked : List SymbolId} {fromSeq : FromSeq}
    (h : Mirrors g p q ids) (hact : p.act (.subscribe gatewayId asked fromSeq) = .ok p') :
    Mirrors g p' q ids := by
  refine h.alone hact rfl (fun id _ _ => rfl) fun hsucc entry hentry hkind => ?_
  cases act_hands h.wf hact with
  | none nextId => exact absurd (nextId.symm.trans hsucc) (Nat.succ_ne_self _).symm
  | market stats =>
    -- The new subscription is to the market.
    have hnew : some entry = some _ := hentry.symm.trans (AList.lookup_insert _)
    rw [Option.some.inj hnew] at hkind
    cases hkind

/-- A subscription to replies is made at both, if it is the gateway's. -/
theorem act_subscribeReplies {gatewayId : GatewayId} (h : Mirrors g p q ids)
    (hact : p.act (.subscribeReplies gatewayId) = .ok p') :
    ∃ q', q.run (ownAction g ids (.subscribeReplies gatewayId)) = .ok q' ∧
      Mirrors g p' q' (ownIds g p ids (.subscribeReplies gatewayId)) := by
  have hp' : p' = (p.subscribeReplies gatewayId).1 := (Except.ok.inj hact).symm
  simp only [ownAction, ownIds]
  by_cases hmine : gatewayId = g
  · subst hmine
    rw [if_pos rfl, if_pos rfl]
    refine ⟨(q.subscribeReplies gatewayId).1, rfl, ?_⟩
    by_cases hpasses : p.PassesReplies gatewayId
    · rw [hp', subscribeReplies_registered hpasses, subscribeReplies_registered (h.passes_iff.mpr hpasses)]
      exact h.opens hpasses
    · -- A request that is refused changes nothing, in either.
      obtain ⟨hsame, hnone, -⟩ := subscribeReplies_refused hpasses
      have hsame' := (subscribeReplies_refused fun hp => hpasses (h.passes_iff.mp hp)).1
      rw [hp', hsame, hsame', hnone]
      exact (List.append_nil ids).symm ▸ h
  · rw [if_neg hmine, if_neg hmine]
    refine ⟨q, rfl, h.alone hact rfl (fun id _ _ => rfl) fun hsucc entry _ _ => ?_⟩
    cases act_hands h.wf hact with
    | none nextId => exact absurd (nextId.symm.trans hsucc) (Nat.succ_ne_self _).symm
    | replies _ passes =>
      obtain ⟨-, hfeed, -⟩ := passes.register_spec h.wf
      have hgateway : (((p.register (p.newRepliesSub gatewayId) { kind := .replies }).subs
          p.nextId)).gatewayId = gatewayId := congrArg (Subscription.gatewayId ∘ Feed.sub) hfeed
      exact fun he => hmine (hgateway.symm.trans he)

/-- One action of the publisher, with what of it is the gateway's own. -/
theorem act (h : Mirrors g p q ids) (hact : p.act a = .ok p') :
    ∃ q', q.run (ownAction g ids a) = .ok q' ∧ Mirrors g p' q' (ownIds g p ids a) := by
  cases a with
  | take output => exact h.act_take hact
  | subscribe gatewayId asked fromSeq => exact ⟨q, rfl, h.act_subscribe hact⟩
  | subscribeReplies gatewayId => exact h.act_subscribeReplies hact
  | unsubscribe id =>
    refine h.act_own (f := .unsubscribe) hact (fun _ => rfl) (fun hhands => ?_)
      (fun feed i _ _ => feed.unsubscribe_withId i) (fun feed x hx => if_neg hx)
    cases hhands with
    | none nextId => exact nextId
  | nextFor id =>
    refine h.act_own (f := .nextFor) hact (fun _ => rfl) (fun hhands => ?_)
      (fun feed i _ _ => feed.nextFor_withId i) (fun feed x hx => if_neg hx)
    cases hhands with
    | none nextId => exact nextId

/-- What the gateway sees of its streams is what it would see of them alone. -/
theorem views (h : Mirrors g p q ids) :
    ids.map (fun id => (p.subs id).view) =
      (List.range ids.length).map fun n => (q.subs (n + 1)).view := by
  refine List.ext_getElem? fun n => ?_
  rw [List.getElem?_map, List.getElem?_map]
  by_cases hlt : n < ids.length
  · have hn : ids[n]? = some ids[n] := List.getElem?_eq_getElem hlt
    obtain ⟨-, hsame⟩ := h.streams n ids[n] hn
    have hsub : q.subs (n + 1) = (p.subs ids[n]).withId (n + 1) := congrArg Feed.sub hsame
    rw [hn, List.getElem?_range hlt, Option.map_some, Option.map_some, hsub]
    rfl
  · rw [List.getElem?_eq_none (not_lt.mp hlt), List.getElem?_eq_none (by simpa using hlt)]
    rfl

end Mirrors

/-- A stream of the gateway was there before, or is the one that it is granted. -/
theorem mem_ownIds (h : id ∈ ownIds g p ids a) :
    id ∈ ids ∨ a = .subscribeReplies g ∧ p.PassesReplies g ∧ id = p.nextId := by
  cases a with
  | subscribeReplies gatewayId =>
    simp only [ownIds] at h
    split_ifs at h with hmine
    · subst hmine
      rcases List.mem_append.mp h with hold | hnew
      · exact Or.inl hold
      · by_cases hpasses : p.PassesReplies gatewayId
        · rw [subscribeReplies_registered hpasses] at hnew
          exact Or.inr ⟨rfl, hpasses, List.mem_singleton.mp hnew⟩
        · rw [(subscribeReplies_refused hpasses).2.1] at hnew
          cases hnew
    · exact Or.inl h
  | _ => exact Or.inl h

/-- A stream that was there stays. -/
theorem subset_ownIds (h : id ∈ ids) : id ∈ ownIds g p ids a := by
  cases a with
  | subscribeReplies gatewayId =>
    simp only [ownIds]
    split_ifs
    · exact List.mem_append_left _ h
    · exact h
  | _ => exact h

/-! ## Along a run -/

/-- The gateway's streams have been given what they are due, and nothing else has been given a reply of
the gateway. -/
structure Private (g : GatewayId) (p q : Publisher) (ids : List SubscriberId)
    (dues : SubscriberId → List Reply) : Prop extends Mirrors g p q ids where
  /-- The streams have been given what they are due. -/
  due : ∀ id ∈ ids, (p.feed id).Due (dues id)
  /-- An id that is not given out is due nothing. -/
  early : ∀ id, p.nextId ≤ id → dues id = []
  /-- A reply of the gateway has been given to its streams only. -/
  given : ∀ id < p.nextId, ∀ reply, reply.gatewayId = g → .reply reply ∈ (p.feed id).given → id ∈ ids

variable {dues : SubscriberId → List Reply}

/-- A replay holds no reply. -/
theorem not_reply_newSub {gatewayId : GatewayId} {asked : List SymbolId} {fromSeq : FromSeq}
    {reply : Reply} : .reply reply ∉ (p.newSub gatewayId asked fromSeq).items := by
  intro hmem
  obtain ⟨symbol, -, hmem⟩ := List.mem_flatMap.mp hmem
  unfold replayOf at hmem
  cases hlookup : fromSeq.lookup symbol with
  | none =>
    rw [hlookup] at hmem
    cases hmem
  | some wanted =>
    rw [hlookup] at hmem
    obtain ⟨event, -, heq⟩ := List.mem_map.mp hmem
    cases heq

/-- A subscription that is handed out has been given no reply. -/
theorem given_new (h : p.Wf) (hhands : Hands p a p') (hnew : p'.nextId = p.nextId + 1) {reply : Reply} :
    .reply reply ∉ (p'.feed p.nextId).given := by
  cases hhands with
  | none nextId => exact absurd (nextId.symm.trans hnew) (Nat.succ_ne_self _).symm
  | market stats gatewayId asked fromSeq passes =>
    obtain ⟨-, hfeed, -⟩ := passes.register_spec h stats
    intro hmem
    have hreplayed : .reply reply ∈ (p.newSub gatewayId asked fromSeq).items := by
      have hgiven := congrArg (fun feed : Feed => FeedItem.reply reply ∈ feed.given) hfeed
      exact hgiven.mp hmem
    exact not_reply_newSub hreplayed
  | replies gatewayId passes =>
    obtain ⟨-, hfeed, -⟩ := passes.register_spec h
    rw [hfeed]
    exact List.not_mem_nil

/-- Every action keeps the streams private. -/
theorem Private.act (h : Private g p q ids dues) (hact : p.act a = .ok p') :
    ∃ q', q.run (ownAction g ids a) = .ok q' ∧
      Private g p' q' (ownIds g p ids a) fun id => dues id ++ (p.feed id).dueOf g a := by
  obtain ⟨q', hrun, hmirrors⟩ := h.toMirrors.act hact
  obtain ⟨_, hpact, hwf, hfeed, hnext, -⟩ := act_spec h.wf a
  obtain rfl := Except.ok.inj (hact.symm.trans hpact)
  have hhands := act_hands h.wf hact
  -- Nothing is due to a subscription that is not there yet.
  have hlate : ∀ id, p.nextId ≤ id → dues id ++ (p.feed id).dueOf g a = [] := by
    intro id hid
    have hentry : (p.feed id).entry = none := h.wf.fresh id hid
    rw [h.early id hid, List.nil_append]
    unfold Feed.dueOf
    split
    · rw [hentry]
      exact if_neg (by simp)
    · rfl
  refine ⟨q', hrun, { hmirrors with due := ?_, early := ?_, given := ?_ }⟩
  · intro id hid
    rcases mem_ownIds hid with hold | ⟨rfl, hpasses, rfl⟩
    · obtain ⟨n, hn⟩ := List.mem_iff_getElem?.mp hold
      rw [hfeed id (h.handed id hold)]
      exact (h.due id hold).act (h.streams n id hn).1 a
    · rw [hlate p.nextId le_rfl]
      have hp' : p' = (p.subscribeReplies g).1 := (Except.ok.inj hact).symm
      obtain ⟨-, hnew, -⟩ := hpasses.register_spec h.wf
      rw [hp', subscribeReplies_registered hpasses, hnew]
      exact ⟨fun _ => ⟨rfl, rfl⟩, fun hnone => by cases hnone⟩
  · exact fun id hid => hlate id (hnext.trans hid)
  · intro id hid reply hgateway hmem
    by_cases hold : id < p.nextId
    · rw [hfeed id hold] at hmem
      rcases Feed.given_reply hmem with hbefore | ⟨entry, hentry, hkind, hsub⟩
      · exact subset_ownIds (h.given id hold reply hgateway hbefore)
      · exact subset_ownIds (h.mine id entry hentry hkind (hsub.trans hgateway))
    · rcases hhands.feed h.wf with hsame | ⟨hsucc, -⟩
      · rw [hsame] at hid
        exact absurd hid hold
      · rw [hsucc] at hid
        obtain rfl : id = p.nextId := le_antisymm (Nat.lt_succ_iff.mp hid) (not_lt.mp hold)
        exact absurd hmem (given_new h.wf hhands hsucc)

/-- Every run keeps the streams private. -/
theorem Private.run (h : Private g p q ids dues) (actions : List Action) :
    ∃ p' q', p.run actions = .ok p' ∧ q.run (p.own g ids actions).actions = .ok q' ∧
      Private g p' q' (p.own g ids actions).ids fun id => dues id ++ p.repliesWhile g id actions := by
  induction actions generalizing p q ids dues with
  | nil =>
    refine ⟨p, q, rfl, rfl, ?_⟩
    simp only [repliesWhile, List.append_nil]
    exact h
  | cons a actions ih =>
    obtain ⟨p₁, hact, -⟩ := act_spec h.wf a
    -- What the gateway sees of the action is run on its own publisher.
    obtain ⟨q₁, hown, h₁⟩ := h.act hact
    obtain ⟨p', q', hrun, hrun', h'⟩ := ih h₁
    refine ⟨p', q', ?_, ?_, ?_⟩
    · unfold Publisher.run at hrun ⊢
      rw [List.foldlM_cons, hact]
      exact hrun
    · unfold Publisher.run at hown hrun' ⊢
      simp only [own, hact]
      rw [List.foldlM_append, hown]
      exact hrun'
    · simp only [own, repliesWhile, hact, ← List.append_assoc]
      exact h'

/-- A publisher that is made has nothing to compare. -/
theorem private_make {options' : PublisherOptions} (h : make symbols options = .ok p)
    (hcapacity : options.queueCapacity = options'.queueCapacity) (g : GatewayId) :
    Private g p { symbolList := [], options := options' } [] fun _ => [] := by
  obtain ⟨hwf, -, hoptions, -⟩ := wf_make h
  have hpositive : options'.queueCapacity ≠ 0 := by
    intro hzero
    unfold make at h
    rw [if_pos (hcapacity.trans hzero)] at h
    cases h
  have hmake : make [] options' = .ok { symbolList := [], options := options' } := by
    unfold make
    rw [if_neg hpositive]
    rfl
  have hnone : p.subscribers = ∅ ∧ p.closed = false ∧ ∀ id, (p.feed id).given = [] := by
    unfold make at h
    split_ifs at h
    obtain rfl := Except.ok.inj h
    exact ⟨rfl, rfl, fun id => rfl⟩
  constructor
  case toMirrors =>
    constructor
    case wf => exact hwf
    case wf' => exact (wf_make hmake).1
    case nodup => exact List.nodup_nil
    case handed => exact fun id hid => by cases hid
    case count => rfl
    case closed => exact hnone.2.1.symm
    case capacity => rw [hoptions]; exact hcapacity.symm
    case streams => exact fun n id hn => by cases hn
    case mine => exact fun id entry hentry => by rw [hnone.1] at hentry; cases hentry
    case only => exact fun id entry hentry => by cases hentry
  case due => exact fun id hid => by cases hid
  case early => exact fun id hid => rfl
  case given => exact fun id _ reply _ hmem => by rw [hnone.2.2] at hmem; cases hmem

/-- **Privacy of replies.** A stream of replies of a gateway delivers a beginning of the replies of the
gateway that are routed while it is registered, and all of them unless it overflows. No other
subscription is given a reply of the gateway. What the gateway sees of its streams is the same in any two
runs with the same actions of its own. -/
theorem replies_private (symbols : List SymbolId) (options : PublisherOptions) (p₀ : Publisher)
    (hmake : make symbols options = .ok p₀) (actions : List Action) (g : GatewayId) :
    ∃ p, p₀.run actions = .ok p ∧
      (∀ id ∈ (p₀.own g [] actions).ids, (p.subs id).gatewayId = g ∧
        (p.subs id).popped <+: (p₀.repliesWhile g id actions).map .reply ∧
        ((p.subs id).endReason ≠ .slowConsumer →
          (p.subs id).popped ++ (p.subs id).items = (p₀.repliesWhile g id actions).map .reply)) ∧
      (∀ id, p.Handed id → ∀ reply, reply.gatewayId = g →
        .reply reply ∈ (p.subs id).popped ++ (p.subs id).items → id ∈ (p₀.own g [] actions).ids) ∧
      ∀ symbols' options' p₀' actions', make symbols' options' = .ok p₀' →
        options'.queueCapacity = options.queueCapacity →
        (p₀'.own g [] actions').actions = (p₀.own g [] actions).actions →
        ∃ p', p₀'.run actions' = .ok p' ∧
          (p₀'.own g [] actions').ids.map (fun id => (p'.subs id).view) =
            (p₀.own g [] actions).ids.map fun id => (p.subs id).view := by
  obtain ⟨p, q, hrun, hown, h⟩ := (private_make hmake rfl g).run actions
  refine ⟨p, hrun, fun id hid => ?_, fun id hid => h.given id hid.2, ?_⟩
  · obtain ⟨n, hn⟩ := List.mem_iff_getElem?.mp hid
    have hdue := h.due id hid
    rw [List.nil_append] at hdue
    exact ⟨(h.streams n id hn).1.gatewayId, hdue.popped, hdue.complete⟩
  · intro symbols' options' p₀' actions' hmake' hcapacity hsame
    -- Both runs are compared with the publisher that is given the gateway's own actions only.
    obtain ⟨p', q', hrun', hown', h'⟩ := (private_make hmake' hcapacity g).run actions'
    rw [hsame] at hown'
    obtain rfl := Except.ok.inj (hown.symm.trans hown')
    have hlength : (p₀'.own g [] actions').ids.length = (p₀.own g [] actions).ids.length :=
      Nat.succ.inj (h'.count.symm.trans h.count)
    refine ⟨p', hrun', ?_⟩
    rw [h'.views, h.views, hlength]

/-- A market subscription and an event before the reply, which then goes to the second subscription. -/
theorem replies_private_two :
    let p₀ : Publisher := { symbolList := [1], options := { queueCapacity := 1 } }
    let reply : Reply := { clientOrderId := "first", symbol := 1, rejectReason := .none, gatewayId := "gateway" }
    let event : MarketEvent :=
      { symbol := 1
        event := { sequenceNumber := 1, kind := .cancelled, ts := 0, orderId := 1, ownerId := 1,
                   side := .buy, price := some 100, quantity := 1 } }
    ∃ p p', p₀.run [.subscribeReplies "gateway", .take (.reply reply), .nextFor 1] = .ok p ∧
      p₀.run [.subscribe "gateway" [] ∅, .subscribeReplies "gateway", .take (.marketEvent event),
        .take (.reply reply), .nextFor 2] = .ok p' ∧
      (p.subs 1).popped ++ (p.subs 1).items = [.reply reply] ∧ (p'.subs 2).view = (p.subs 1).view := by
  intro p₀ reply event
  obtain ⟨p, hrun, hdue, -, hsame⟩ := replies_private [1] { queueCapacity := 1 } p₀ rfl
    [.subscribeReplies "gateway", .take (.reply reply), .nextFor 1] "gateway"
  obtain ⟨p', hrun', hviews⟩ := hsame [1] { queueCapacity := 1 } p₀
    [.subscribe "gateway" [] ∅, .subscribeReplies "gateway", .take (.marketEvent event),
      .take (.reply reply), .nextFor 2] rfl rfl rfl
  refine ⟨p, p', hrun, hrun', ?_, List.head_eq_of_cons_eq hviews⟩
  obtain ⟨-, -, hall⟩ := hdue 1 (List.mem_singleton_self 1)
  have hopen : (p.subs 1).endReason ≠ .slowConsumer := by
    rw [← Except.ok.inj hrun]
    decide
  exact hall hopen

end Publisher

end OrderBookEngine
