import OrderBookEngine.Properties.Running
import OrderBookEngine.Properties.Subscriptions
import OrderBookEngine.Server.FeedServer

/-!
# The handlers of the feed server

A handler and the publisher share a subscription and nothing else. `Channel` is what the publisher's thread
keeps of it whatever it routes: what it puts in belongs on the stream of the handler, and it ends a
subscription once. `Handler.Serves` relates the subscription to what the handler has written: all that it
has popped, in order, but the message that it holds, or that it could not write.
-/

namespace OrderBookEngine

/-- An item that a stream of a gateway is for. A snapshot is for the subscriber that has requested it. -/
def SubscriberKind.Carries (kind : SubscriberKind) (gatewayId : GatewayId) (id : SubscriberId)
    (item : FeedItem) : Prop :=
  match kind with
  | .market => (∀ reply, item ≠ .reply reply) ∧ ∀ ready, item = .snapshotReady ready → ready.subscriber = id
  | .replies => ∃ reply, item = .reply reply ∧ reply.gatewayId = gatewayId

/-- An item that belongs on a stream is written there. -/
theorem SubscriberKind.fill_of_carries {kind : SubscriberKind} {gatewayId : GatewayId} {id : SubscriberId}
    {item : FeedItem} (h : kind.Carries gatewayId id item) : ∃ message, kind.fill item = .ok (some message) := by
  cases kind with
  | market =>
    cases item with
    | snapshotReady ready => exact ⟨_, rfl⟩
    | marketEvent event => exact ⟨_, rfl⟩
    | reply reply => exact absurd rfl (h.1 reply)
  | replies =>
    obtain ⟨reply, rfl, -⟩ := h
    exact ⟨_, rfl⟩

namespace Subscription

/-- An end takes nothing that was popped. -/
theorem popped_endWith (s : Subscription) (reason : EndReason) :
    (s.endWith reason).popped = s.popped := by
  unfold endWith
  split_ifs <;> rfl

/-- The first end of an open subscription is the one that it keeps. -/
theorem endWith_of_open {s : Subscription} (h : s.endReason = .none) (reason : EndReason) :
    s.endWith reason =
      { s with endReason := reason, items := if reason = .slowConsumer then [] else s.items } :=
  if_neg (not_not.mpr h)

end Subscription

/-- What a subscription is to the publisher and to the handler of a stream. -/
structure Feed.Channel (f : Feed) (kind : SubscriberKind) (gatewayId : GatewayId) : Prop where
  /-- It is that of the gateway. -/
  gateway : f.sub.gatewayId = gatewayId
  /-- Its entry in the table is of the kind. -/
  kind_eq : ∀ entry, f.entry = some entry → entry.kind = kind
  /-- A stream of replies gets no events. -/
  mute : kind = .replies → ∀ entry, f.entry = some entry → entry.live = fun _ => none
  /-- It is in the table until it ends. -/
  open_ : f.sub.endReason = .none ↔ f.entry.isSome
  /-- It has been given only what the kind carries. -/
  given : ∀ item ∈ f.given, kind.Carries gatewayId f.sub.id item
  /-- What is queued for a slow consumer is lost. -/
  slow : f.sub.endReason = .slowConsumer → f.sub.items = []

namespace Feed.Channel

variable {f : Feed} {kind : SubscriberKind} {gatewayId : GatewayId} {item : FeedItem} {entry : Subscriber}

/-- The publisher takes a subscription out of the table. -/
theorem leave (h : f.Channel kind gatewayId) {reason : EndReason} (hreason : reason ≠ .none) :
    (f.leave reason).Channel kind gatewayId := by
  obtain ⟨hnone, hid, hgateway⟩ := f.leave_spec reason
  constructor
  case gateway => exact hgateway.trans h.gateway
  case kind_eq =>
    intro entry hentry
    rw [hnone] at hentry
    cases hentry
  case mute =>
    intro _ entry hentry
    rw [hnone] at hentry
    cases hentry
  case given =>
    intro item hitem
    rw [hid]
    exact h.given item (Feed.given_leave f reason item hitem)
  case open_ =>
    rw [hnone]
    unfold Feed.leave
    cases hentry : f.entry with
    | none =>
      have hended : ¬ f.sub.endReason = .none := fun he => by
        have hsome := h.open_.mp he
        rw [hentry] at hsome
        cases hsome
      exact iff_of_false hended Bool.false_ne_true
    | some entry => exact iff_of_false (Subscription.endWith_ended _ hreason) Bool.false_ne_true
  case slow =>
    unfold Feed.leave
    cases hentry : f.entry with
    | none => exact h.slow
    | some entry =>
      have hopen : f.sub.endReason = .none := h.open_.mpr (Option.isSome_of_eq_some hentry)
      -- A slow consumer loses what is queued, so its queue is empty for good.
      intro hslow
      rw [Subscription.endWith_of_open hopen] at hslow ⊢
      exact if_pos hslow

/-- The publisher pushes an item that belongs on the stream, or drops the subscription. -/
theorem offer (h : f.Channel kind gatewayId) (hentry : f.entry = some entry)
    (hitem : kind.Carries gatewayId f.sub.id item) : (f.offer item).Channel kind gatewayId := by
  have hopen : f.sub.endReason = .none := h.open_.mpr (Option.isSome_of_eq_some hentry)
  obtain ⟨hid, hgateway, hend, -, -⟩ := f.sub.tryPush_spec item
  have hgiven : ∀ x ∈ (f.offer item).given, kind.Carries gatewayId f.sub.id x := by
    intro x hx
    rcases Feed.given_offer f item x hx with hold | rfl
    · exact h.given x hold
    · exact hitem
  unfold Feed.offer at hgiven ⊢
  have hopen' : (f.sub.tryPush item).1.endReason = .none := hend.trans hopen
  -- The item has been pushed, or the queue was full and the subscriber leaves.
  split_ifs at hgiven ⊢ with hpushed
  · constructor
    case gateway => exact hgateway.trans h.gateway
    case kind_eq => exact h.kind_eq
    case mute => exact h.mute
    case given => exact fun x hx => hid.symm ▸ hgiven x hx
    case open_ => exact iff_of_true hopen' (Option.isSome_of_eq_some hentry)
    case slow =>
      intro hslow
      rw [hopen'] at hslow
      cases hslow
  · constructor
    case gateway => exact (Subscription.gatewayId_endWith _ _).trans (hgateway.trans h.gateway)
    case kind_eq => exact fun _ he => by cases he
    case mute => exact fun _ _ he => by cases he
    case given => exact fun x hx => ((Subscription.id_endWith _ _).trans hid).symm ▸ hgiven x hx
    case open_ =>
      exact iff_of_false (Subscription.endWith_ended _ EndReason.noConfusion) Bool.false_ne_true
    case slow =>
      intro _
      rw [Subscription.endWith_of_open hopen']
      show (if EndReason.slowConsumer = .slowConsumer then [] else (f.sub.tryPush item).1.items) = []
      exact if_pos rfl

/-- The publisher takes an output: a stream of events gets no replies, and a stream of replies gets those of
its gateway. -/
theorem take (h : f.Channel kind gatewayId) (output : Output) : (f.take output).Channel kind gatewayId := by
  unfold Feed.take
  cases hentry : f.entry with
  | none => exact h
  | some entry =>
    have hkind : entry.kind = kind := h.kind_eq entry hentry
    -- Only a market subscriber has the state of a symbol.
    have hmarket : ∀ symbol state, entry.live symbol = some state → kind = .market := by
      intro symbol state hlive
      cases hk : kind with
      | market => rfl
      | replies =>
        rw [h.mute hk entry hentry] at hlive
        cases hlive
    cases output with
    | marketEvent event =>
      simp only
      split_ifs with hwants
      · refine h.offer hentry ?_
        have hsome : ∃ state, entry.live event.symbol = some state := by
          unfold Subscriber.wants at hwants
          cases hlive : entry.live event.symbol with
          | none =>
            rw [hlive] at hwants
            cases hwants
          | some state => exact ⟨state, rfl⟩
        obtain ⟨state, hlive⟩ := hsome
        obtain rfl := hmarket _ _ hlive
        exact ⟨fun _ => FeedItem.noConfusion, fun _ => FeedItem.noConfusion⟩
      · exact h
    | reply reply =>
      simp only
      split_ifs with hmine
      · refine h.offer hentry ?_
        -- Replies are offered to the subscribers of replies alone, of the same gateway.
        obtain rfl : .replies = kind := hmine.1.symm.trans hkind
        exact ⟨reply, rfl, hmine.2.symm.trans h.gateway⟩
      · exact h
    | snapshotReady ready =>
      simp only
      split_ifs with hother
      · exact h
      · cases hlive : entry.live ready.symbol with
        | none => exact h
        | some state =>
          obtain rfl := hmarket _ _ hlive
          simp only
          split_ifs
          · exact h
          · -- The entry changes in the state of the symbol alone.
            have hstate : ∀ live, Channel { f with entry := some { entry with live } } .market gatewayId := by
              intro live
              constructor
              case gateway => exact h.gateway
              case kind_eq =>
                intro entry' he
                obtain rfl := Option.some.inj he
                exact hkind
              case mute => exact fun hk => by cases hk
              case open_ => exact iff_of_true (h.open_.mpr (Option.isSome_of_eq_some hentry)) rfl
              case given => exact h.given
              case slow => exact h.slow
            refine (hstate _).offer rfl ⟨fun _ => FeedItem.noConfusion, fun other he => ?_⟩
            obtain rfl := FeedItem.snapshotReady.inj he
            exact not_not.mp hother
    | outboxClosed => exact h.leave EndReason.noConfusion

/-- The consumer takes the next item, if there is one. -/
theorem nextFor (h : f.Channel kind gatewayId) :
    Channel { f with sub := f.sub.nextFor.1 } kind gatewayId := by
  obtain ⟨hid, hgateway, hend, hitems⟩ := f.sub.nextFor_spec
  constructor
  case gateway => exact hgateway.trans h.gateway
  case kind_eq => exact h.kind_eq
  case mute => exact h.mute
  case open_ => exact hend ▸ h.open_
  case given =>
    intro item hitem
    have hold : item ∈ f.given := by
      unfold Feed.given at hitem ⊢
      rwa [hitems] at hitem
    show kind.Carries gatewayId f.sub.nextFor.1.id item
    rw [hid]
    exact h.given item hold
  case slow =>
    intro hslow
    have hempty : f.sub.items = [] := h.slow (hend.symm.trans hslow)
    show f.sub.nextFor.1.items = []
    unfold Subscription.nextFor
    rw [hempty]
    exact hempty

end Feed.Channel

/-- What nobody but the consumer changes of a subscription. -/
structure Feed.Kept (f f' : Feed) : Prop where
  /-- Nothing more is popped. -/
  popped : f'.sub.popped = f.sub.popped
  /-- An ended subscription does not change. -/
  gone : f.entry = none → f' = f
  /-- It is not unsubscribed. -/
  reason : f'.sub.endReason = .unsubscribed → f.sub.endReason = .unsubscribed

namespace Feed.Kept

variable {f f' f'' : Feed}

/-- A feed keeps itself. -/
theorem refl (f : Feed) : f.Kept f := ⟨rfl, fun _ => rfl, fun h => h⟩

/-- What is kept twice is kept. -/
theorem trans (h : f.Kept f') (h' : f'.Kept f'') : f.Kept f'' where
  popped := h'.popped.trans h.popped
  gone hnone := by
    obtain rfl := h.gone hnone
    exact h'.gone hnone
  reason he := h.reason (h'.reason he)

/-- A subscription that is ended by the publisher is kept. -/
theorem leave (f : Feed) {reason : EndReason} (hreason : reason ≠ .unsubscribed) : f.Kept (f.leave reason) := by
  unfold Feed.leave
  cases hentry : f.entry with
  | none => exact refl f
  | some entry =>
    refine ⟨Subscription.popped_endWith _ _, fun hnone => ?_, fun he => ?_⟩
    · rw [hentry] at hnone
      cases hnone
    · simp only at he
      unfold Subscription.endWith at he
      split_ifs at he
      · exact he
      · exact absurd he hreason
      · exact absurd he hreason

/-- A subscription that is offered an item is kept. -/
theorem offer {entry : Subscriber} (hentry : f.entry = some entry) (item : FeedItem) :
    f.Kept (f.offer item) := by
  obtain ⟨-, -, hend, hpopped, -⟩ := f.sub.tryPush_spec item
  unfold Feed.offer
  split_ifs
  · refine ⟨hpopped, fun hnone => ?_, fun he => hend.symm.trans he⟩
    rw [hentry] at hnone
    cases hnone
  · refine ⟨(Subscription.popped_endWith _ _).trans hpopped, fun hnone => ?_, fun he => ?_⟩
    · rw [hentry] at hnone
      cases hnone
    · simp only at he
      unfold Subscription.endWith at he
      split_ifs at he
      exact hend.symm.trans he

/-- Every subscription is kept while an output is routed. -/
theorem take (f : Feed) (output : Output) : f.Kept (f.take output) := by
  unfold Feed.take
  cases hentry : f.entry with
  | none => exact refl f
  | some entry =>
    cases output with
    | marketEvent event =>
      simp only
      split_ifs
      · exact offer hentry _
      · exact refl f
    | reply reply =>
      simp only
      split_ifs
      · exact offer hentry _
      · exact refl f
    | snapshotReady ready =>
      simp only
      split_ifs
      · exact refl f
      · cases entry.live ready.symbol with
        | none => exact refl f
        | some state =>
          simp only
          split_ifs
          · exact refl f
          -- The symbol goes live before the snapshot is offered, which changes the entry alone.
          · set live := Function.update entry.live ready.symbol (some { state with live := true })
            have hpush : Kept { f with entry := some { entry with live } }
                (Feed.offer { f with entry := some { entry with live } } (.snapshotReady ready)) :=
              offer rfl _
            refine ⟨hpush.popped, fun hnone => ?_, hpush.reason⟩
            rw [hentry] at hnone
            cases hnone
    | outboxClosed => exact leave f EndReason.noConfusion

end Feed.Kept

/-! ## The threads of the node -/

/-- What the threads of a node leave of the subscriptions at its publisher. -/
structure Publisher.Delivers (p p' : Publisher) : Prop where
  /-- The publisher stays well formed. -/
  wf : p'.Wf
  /-- No id is given out. -/
  nextId : p'.nextId = p.nextId
  /-- It stays closed. -/
  closed : p.closed = true → p'.closed = true
  /-- Nothing comes into the table. -/
  gone : ∀ id, (p.feed id).entry = none → (p'.feed id).entry = none
  /-- Every subscription keeps its kind, and what only the consumer changes. -/
  feeds : ∀ id kind gatewayId, (p.feed id).Channel kind gatewayId →
    (p'.feed id).Channel kind gatewayId ∧ (p.feed id).Kept (p'.feed id)

namespace Publisher.Delivers

variable {p p' p'' : Publisher}

/-- A publisher that stays as it is delivers. -/
theorem refl (h : p.Wf) : p.Delivers p :=
  ⟨h, rfl, fun hc => hc, fun _ hnone => hnone, fun _ _ _ hf => ⟨hf, .refl _⟩⟩

/-- Two deliveries are one. -/
theorem trans (h : p.Delivers p') (h' : p'.Delivers p'') : p.Delivers p'' where
  wf := h'.wf
  nextId := h'.nextId.trans h.nextId
  closed hc := h'.closed (h.closed hc)
  gone id hnone := h'.gone id (h.gone id hnone)
  feeds id kind gatewayId hf := by
    obtain ⟨hf', hkept⟩ := h.feeds id kind gatewayId hf
    obtain ⟨hf'', hkept'⟩ := h'.feeds id kind gatewayId hf'
    exact ⟨hf'', hkept.trans hkept'⟩

/-- The subscribers that have been found too slow are dropped. -/
theorem dropAll (h : p.Wf) (ids : List SubscriberId) : p.Delivers (ids.foldl dropSlow p) := by
  obtain ⟨hfeed, hrecord, hwf⟩ := dropAll_spec (p := p) ids
  refine ⟨hwf h, hrecord.nextId, fun hc => hrecord.closed.trans hc, fun id hnone => ?_,
    fun id kind gatewayId hf => ?_⟩
  · rw [hfeed]
    split_ifs
    · exact (Feed.leave_spec _ _).1
    · exact hnone
  rw [hfeed]
  split_ifs
  · exact ⟨hf.leave EndReason.noConfusion, .leave _ EndReason.noConfusion⟩
  · exact ⟨hf, .refl _⟩

/-- The next output is routed. -/
theorem take {output : Output} (h : p.Wf) (htake : p.take output = .ok p') : p.Delivers p' := by
  obtain ⟨_, htake', hwf, hfeed, hrecord⟩ := take_spec h output
  obtain rfl := Except.ok.inj (htake.symm.trans htake')
  refine ⟨hwf, ?_, fun hc => ?_, fun id hnone => ?_, fun id kind gatewayId hf => ?_⟩
  · rw [hrecord.nextId]
    split_ifs
    · rfl
    · cases output <;> rfl
  · rw [hrecord.closed, if_pos hc]
    exact hc
  · rw [hfeed]
    exact Feed.entry_act hnone (.take output)
  · rw [hfeed]
    exact ⟨hf.take output, .take _ output⟩

end Publisher.Delivers

namespace EngineNode

variable {n n' : EngineNode}

/-- A step of the threads delivers. -/
theorem delivers_step {a : Action} (h : n.publisher.Wf) (ha : a.ofThreads = true) (hstep : n.step a = some n') :
    n.publisher.Delivers n'.publisher := by
  have hsame : n'.publisher = n.publisher → n.publisher.Delivers n'.publisher := fun heq => by
    rw [heq]
    exact .refl h
  cases a with
  | submit i item =>
    obtain rfl := Option.some.inj hstep
    exact hsame rfl
  | closeOutbox =>
    obtain rfl := Option.some.inj hstep
    exact hsame rfl
  | work i =>
    replace hstep : n.work i = some n' := hstep
    obtain ⟨t, -, rfl⟩ := Option.map_eq_some_iff.mp hstep
    exact hsame rfl
  | push i =>
    replace hstep : n.push i = some n' := hstep
    unfold push at hstep
    cases hpending : (n.threads i).worker.outbox with
    | nil => simp [hpending] at hstep
    | cons output outputs =>
      simp only [hpending] at hstep
      obtain rfl := Option.some.inj hstep
      exact hsame rfl
  | miss id =>
    replace hstep : n.miss id = some n' := hstep
    unfold miss at hstep
    split_ifs at hstep
    cases houtbox : n.outbox with
    | nil => simp [houtbox] at hstep
    | cons output outbox =>
      simp only [houtbox] at hstep
      split_ifs at hstep
      obtain rfl := Option.some.inj hstep
      exact hsame rfl
  | route =>
    replace hstep : n.route = some n' := hstep
    unfold route at hstep
    split_ifs at hstep
    cases houtbox : n.outbox with
    | nil => simp [houtbox] at hstep
    | cons output outbox =>
      simp only [houtbox] at hstep
      obtain ⟨p, htake, rfl⟩ := Option.map_eq_some_iff.mp hstep
      -- The slow ones are dropped before the output is taken.
      have hdrop := Publisher.Delivers.dropAll h n.tooSlow
      exact hdrop.trans (.take hdrop.wf (ok_of_toOption htake))
  | _ => cases ha

/-- A run of the threads delivers. -/
theorem delivers_run {actions : List Action} (h : n.publisher.Wf) (ha : ∀ a ∈ actions, a.ofThreads = true)
    (hrun : n.run actions = some n') : n.publisher.Delivers n'.publisher := by
  induction actions generalizing n with
  | nil =>
    obtain rfl := Option.some.inj hrun
    exact .refl h
  | cons a actions ih =>
    obtain ⟨n₁, hstep, hrest⟩ := Option.bind_eq_some_iff.mp hrun
    have hfirst := delivers_step h (ha a List.mem_cons_self) hstep
    exact hfirst.trans (ih hfirst.wf (fun b hb => ha b (List.mem_cons_of_mem _ hb)) hrest)

end EngineNode

namespace Process

variable {pb : Protobuf} {p p' : Process}

/-- The node of a new process is a new node. -/
theorem node_make {partitions : ℕ} {instruments : List Instrument} {options : PublisherOptions}
    {address : String} (hmake : make partitions instruments options address = .ok p) :
    EngineNode.make partitions instruments options = .ok p.node := by
  unfold make at hmake
  cases hnode : EngineNode.make partitions instruments options with
  | error e =>
    rw [hnode] at hmake
    cases hmake
  | ok node =>
    rw [hnode] at hmake
    obtain rfl := Except.ok.inj hmake
    rfl

/-- What a process does is a run of its node. -/
theorem node_step {a : Action} (hstep : p.step pb a = some p') : ∃ actions, p.node.run actions = some p'.node ∧
    (a.ofThreads = true → ∀ b ∈ actions, b.ofThreads = true) := by
  have hstays : p'.node = p.node → ∃ actions, p.node.run actions = some p'.node ∧
      (a.ofThreads = true → ∀ b ∈ actions, b.ofThreads = true) := fun heq =>
    ⟨[], congrArg some heq.symm, fun _ b hb => absurd hb List.not_mem_nil⟩
  cases a with
  | startFeed i =>
    replace hstep : p.startFeed i = some p' := hstep
    unfold startFeed at hstep
    split_ifs at hstep
    obtain ⟨feed, -, rfl⟩ := Option.map_eq_some_iff.mp hstep
    exact hstays rfl
  | openStream i =>
    obtain ⟨t, -, hstep⟩ := Option.bind_eq_some_iff.mp hstep
    split_ifs at hstep
    all_goals
      obtain rfl := Option.some.inj hstep
      exact hstays rfl
  | read i command =>
    obtain ⟨t, -, hstep⟩ := Option.bind_eq_some_iff.mp hstep
    split_ifs at hstep
    obtain rfl := Option.some.inj hstep
    -- What a feed submits are steps of its worker's inbox.
    have hsubmits : ∀ (items : List Stamped) (n : EngineNode),
        n.run (items.map (.submit i)) = some (items.foldl (fun node item => node.submit i item) n) := by
      intro items
      induction items with
      | nil => exact fun n => rfl
      | cons item items ih => exact fun n => ih (n.submit i item)
    refine ⟨_, hsubmits _ p.node, fun _ b hb => ?_⟩
    obtain ⟨item, -, rfl⟩ := List.mem_map.mp hb
    rfl
  | endStream i status =>
    obtain ⟨t, -, hstep⟩ := Option.bind_eq_some_iff.mp hstep
    split_ifs at hstep
    obtain rfl := Option.some.inj hstep
    exact hstays rfl
  | main =>
    -- Two steps of the main thread act on the node: the shutdown of a worker, and the closing.
    have hone : ∀ b : EngineNode.Action, b.ofThreads = true → p.node.step b = some p'.node →
        ∃ actions, p.node.run actions = some p'.node ∧
          (Action.main.ofThreads = true → ∀ b ∈ actions, b.ofThreads = true) := by
      intro b hb hnode
      refine ⟨[b], ?_, fun _ c hc => List.mem_singleton.mp hc ▸ hb⟩
      exact Option.bind_eq_some_iff.mpr ⟨_, hnode, rfl⟩
    have hcall : ∀ i, (p.callStop i).node = p.node := fun i => by
      unfold callStop
      cases p.feeds i <;> rfl
    replace hstep : p.main = some p' := hstep
    unfold main at hstep
    split at hstep
    all_goals try split_ifs at hstep
    all_goals cases hstep
    all_goals first
      | exact hstays rfl
      | exact hstays (hcall _)
      | exact hone (.submit _ _) rfl rfl
      | exact hone .closeOutbox rfl rfl
  | node action =>
    replace hstep : (if action.internal then (p.node.step action).map fun node => { p with node }
      else none) = some p' := hstep
    split_ifs at hstep
    obtain ⟨node, hnode, rfl⟩ := Option.map_eq_some_iff.mp hstep
    exact ⟨[action], Option.bind_eq_some_iff.mpr ⟨_, hnode, rfl⟩,
      fun ha b hb => List.mem_singleton.mp hb ▸ ha⟩

end Process

/-! ## A handler and its subscription -/

namespace PumpStage

/-- The handler has left. -/
def isLeft : PumpStage → Bool
  | .left _ => true
  | _ => false

/-- The status of the call, when its handler has returned. -/
def status? : PumpStage → Option Status
  | .returned status | .left status => some status
  | _ => none

/-- It holds no message, and has not returned. -/
def waits : PumpStage → Bool
  | .subscribing | .head | .empty => true
  | _ => false

/-- What a handler has taken and not written: the message that it holds, or that it could not write. -/
def Unwritten (stage : PumpStage) (rest : List Message) : Prop :=
  match stage with
  | .holding message => rest = [message]
  | .returned status | .left status => rest.length = if status = streamBroken then 1 else 0
  | _ => rest = []

/-- A waiting handler has not returned, and holds no message. -/
theorem waits_spec {stage : PumpStage} (h : stage.waits = true) :
    stage.isLeft = false ∧ stage.status? = none ∧ ∀ rest, stage.Unwritten rest ↔ rest = [] := by
  cases stage with
  | subscribing | head | empty => exact ⟨rfl, rfl, fun rest => Iff.rfl⟩
  | _ => cases h

end PumpStage

/-- What the status of a call says of its subscription. -/
inductive SubscriberKind.Told (kind : SubscriberKind) (f : Feed) : Status → Prop
  /-- The client has gone away. -/
  | wentAway : Told kind f wentAway
  /-- A write has failed. -/
  | streamBroken : Told kind f streamBroken
  /-- The subscription ended as too slow. -/
  | slow (ended : f.sub.endReason = .slowConsumer) : Told kind f (kind.endStatus .slowConsumer)
  /-- The subscription ended with the outbox. -/
  | shutdown (ended : f.sub.endReason = .shutdown) : Told kind f (kind.endStatus .shutdown)

/-- The messages of a stream are those of the items, in order. -/
def SubscriberKind.Fills (kind : SubscriberKind) : List FeedItem → List Message → Prop :=
  List.Forall₂ fun item message => kind.fill item = .ok (some message)

/-- A handler has written what it has popped. -/
structure Handler.Serves (h : Handler) (f : Feed) : Prop where
  /-- The subscription is that of the gateway, of the handler's kind. -/
  channel : f.Channel h.kind h.gatewayId
  /-- What it has popped is what the handler has written, but for the message in its hands. -/
  writes : ∃ rest, h.stage.Unwritten rest ∧ h.kind.Fills f.sub.popped (h.written ++ rest)
  /-- A handler that has left has unsubscribed. -/
  left : h.stage.isLeft = true → f.entry = none
  /-- Nobody else unsubscribes it. -/
  stays : h.stage.isLeft = false → f.sub.endReason ≠ .unsubscribed
  /-- The status says how the subscription ended. -/
  told : ∀ status, h.stage.status? = some status → h.kind.Told f status

namespace Handler.Serves

variable {h : Handler} {f f' : Feed} {item : FeedItem} {message : Message} {status : Status}

/-- What a status says of a subscription stays true once it has ended. -/
theorem told_of_gone {kind : SubscriberKind} (htold : kind.Told f status)
    (hopen : f.sub.endReason = .none ↔ f.entry.isSome = true)
    (hgone : f.entry = none → f'.sub.endReason = f.sub.endReason) : kind.Told f' status := by
  have hkept : f.sub.endReason ≠ .none → f'.sub.endReason = f.sub.endReason := fun hended => by
    apply hgone
    by_contra hentry
    exact hended (hopen.mpr (Option.isSome_iff_ne_none.mpr hentry))
  cases htold with
  | wentAway => exact .wentAway
  | streamBroken => exact .streamBroken
  | slow ended => exact .slow ((hkept (by rw [ended]; exact EndReason.noConfusion)).trans ended)
  | shutdown ended => exact .shutdown ((hkept (by rw [ended]; exact EndReason.noConfusion)).trans ended)

/-- The publisher's thread goes on. -/
theorem kept (hs : h.Serves f) (hchannel : f'.Channel h.kind h.gatewayId) (hkept : f.Kept f') :
    h.Serves f' where
  channel := hchannel
  writes := hkept.popped ▸ hs.writes
  left hleft := by
    have hnone := hs.left hleft
    rw [hkept.gone hnone]
    exact hnone
  stays hleft he := hs.stays hleft (hkept.reason he)
  told status hstatus := told_of_gone (hs.told status hstatus) hs.channel.open_ fun hnone => by
    rw [hkept.gone hnone]

/-- The handler goes on, with nothing in hand. -/
theorem goTo (hs : h.Serves f) (hwaits : h.stage.waits = true) {stage : PumpStage}
    (hwaits' : stage.waits = true) : Serves { h with stage } f := by
  obtain ⟨hleft, -, hrest⟩ := PumpStage.waits_spec hwaits
  obtain ⟨hleft', hstatus', hrest'⟩ := PumpStage.waits_spec hwaits'
  constructor
  case channel => exact hs.channel
  case writes =>
    obtain ⟨rest, hunwritten, hfills⟩ := hs.writes
    obtain rfl := (hrest rest).mp hunwritten
    exact ⟨[], (hrest' []).mpr rfl, hfills⟩
  case left =>
    intro hl
    rw [hleft'] at hl
    cases hl
  case stays => exact fun _ => hs.stays hleft
  case told =>
    intro status hstatus
    rw [hstatus'] at hstatus
    cases hstatus

/-- The handler returns, with nothing in hand. -/
theorem return_ (hs : h.Serves f) (hwaits : h.stage.waits = true) (htold : h.kind.Told f status)
    (hwhole : status ≠ streamBroken) : Serves { h with stage := .returned status } f := by
  obtain ⟨hleft, -, hrest⟩ := PumpStage.waits_spec hwaits
  constructor
  case channel => exact hs.channel
  case writes =>
    obtain ⟨rest, hunwritten, hfills⟩ := hs.writes
    obtain rfl := (hrest rest).mp hunwritten
    exact ⟨[], (if_neg hwhole).symm, hfills⟩
  case left => exact fun hl => by cases hl
  case stays => exact fun _ => hs.stays hleft
  case told =>
    intro status' hstatus
    obtain rfl := Option.some.inj hstatus
    exact htold

/-- The handler pops the next item, and fills its message. -/
theorem hold {items : List FeedItem} (hs : h.Serves f) (hwaits : h.stage.waits = true)
    (hitems : f.sub.items = item :: items) (hfill : h.kind.fill item = .ok (some message)) :
    Serves { h with stage := .holding message } { f with sub := f.sub.nextFor.1 } := by
  obtain ⟨hleft, -, hrest⟩ := PumpStage.waits_spec hwaits
  obtain ⟨-, -, hend, -⟩ := f.sub.nextFor_spec
  have hpopped : f.sub.nextFor.1.popped = f.sub.popped ++ [item] := by
    unfold Subscription.nextFor
    rw [hitems]
  constructor
  case channel => exact hs.channel.nextFor
  case writes =>
    obtain ⟨rest, hunwritten, hfills⟩ := hs.writes
    obtain rfl := (hrest rest).mp hunwritten
    refine ⟨[message], rfl, ?_⟩
    show h.kind.Fills f.sub.nextFor.1.popped (h.written ++ [message])
    rw [List.append_nil] at hfills
    rw [hpopped]
    exact List.rel_append hfills (List.Forall₂.cons hfill List.Forall₂.nil)
  case left => exact fun hl => by cases hl
  case stays => exact fun _ he => hs.stays hleft (hend.symm.trans he)
  case told => exact fun _ hstatus => by cases hstatus

/-- The message is written. -/
theorem wrote (hs : h.Serves f) (hstage : h.stage = .holding message) :
    Serves { h with stage := .head, written := h.written ++ [message] } f := by
  constructor
  case channel => exact hs.channel
  case writes =>
    obtain ⟨rest, hunwritten, hfills⟩ := hs.writes
    rw [hstage] at hunwritten
    obtain rfl : rest = [message] := hunwritten
    exact ⟨[], rfl, (List.append_nil (h.written ++ [message])).symm ▸ hfills⟩
  case left => exact fun hl => by cases hl
  case stays => exact fun _ => hs.stays (by rw [hstage]; rfl)
  case told => exact fun _ hstatus => by cases hstatus

/-- The message cannot be written. -/
theorem broke (hs : h.Serves f) (hstage : h.stage = .holding message) :
    Serves { h with stage := .returned streamBroken } f := by
  constructor
  case channel => exact hs.channel
  case writes =>
    obtain ⟨rest, hunwritten, hfills⟩ := hs.writes
    rw [hstage] at hunwritten
    obtain rfl : rest = [message] := hunwritten
    exact ⟨[message], (if_pos rfl).symm, hfills⟩
  case left => exact fun hl => by cases hl
  case stays => exact fun _ => hs.stays (by rw [hstage]; rfl)
  case told =>
    intro status hstatus
    obtain rfl := Option.some.inj hstatus
    exact .streamBroken

/-- The handler leaves. -/
theorem leave (hs : h.Serves f) (hstage : h.stage = .returned status) :
    Serves { h with stage := .left status } (f.leave .unsubscribed) := by
  have hpopped : (f.leave .unsubscribed).sub.popped = f.sub.popped := by
    unfold Feed.leave
    cases f.entry with
    | none => rfl
    | some entry => exact Subscription.popped_endWith _ _
  constructor
  case channel => exact hs.channel.leave EndReason.noConfusion
  case writes =>
    obtain ⟨rest, hunwritten, hfills⟩ := hs.writes
    rw [hstage] at hunwritten
    exact ⟨rest, hunwritten, hpopped ▸ hfills⟩
  case left => exact fun _ => (f.leave_spec .unsubscribed).1
  case stays => exact fun hl => by cases hl
  case told =>
    intro status' hstatus
    obtain rfl := Option.some.inj hstatus
    refine told_of_gone (hs.told status (by rw [hstage]; rfl)) hs.channel.open_ fun hnone => ?_
    unfold Feed.leave
    rw [hnone]

end Handler.Serves

/-! ## The server -/

namespace FeedServer

variable {pb : Protobuf} {s s' : FeedServer} {id : SubscriberId} {h h' : Handler}

/-- Every subscription that has been handed out has its handler. -/
structure Sound (s : FeedServer) : Prop where
  /-- The publisher is well formed. -/
  publisher : s.publisher.Wf
  /-- The ids start above zero. -/
  started : 0 < s.publisher.nextId
  /-- No subscription has the id zero. -/
  zero : s.publisher.subscribers.lookup 0 = none
  /-- The subscriptions handed out are those with a handler. -/
  handled : ∀ id, (s.handlers id).isSome ↔ s.publisher.Handed id
  /-- Every handler serves its subscription. -/
  serves : ∀ id h, s.handlers id = some h → h.Serves (s.publisher.feed id)

/-- What the server does is a run of the process. -/
theorem process_step {a : Action} (hstep : s.step pb a = some s') :
    ∃ actions, s.process.run pb actions = some s'.process := by
  have hstays : ∀ {t : FeedServer}, t.process = s.process → ∃ actions, s.process.run pb actions = some t.process :=
    fun heq => ⟨[], congrArg some heq.symm⟩
  have honNode : ∀ {b : EngineNode.Action} {t : FeedServer}, b.internal = true → s.onNode b = some t →
      ∃ actions, s.process.run pb actions = some t.process := by
    intro b t hb ht
    obtain ⟨node, hnode, rfl⟩ := Option.map_eq_some_iff.mp ht
    refine ⟨[.node b], Option.bind_eq_some_iff.mpr ⟨_, ?_, rfl⟩⟩
    show (if b.internal then (s.process.node.step b).map _ else none) = _
    rw [if_pos hb, hnode]
    rfl
  -- What a handler does with an answer leaves the process alone.
  have hanswer : ∀ {t t' : FeedServer} {kind : SubscriberKind} {gatewayId : GatewayId}
      {result : SubscribeResult}, t.answer kind gatewayId result = some t' → t'.process = t.process := by
    intro t t' kind gatewayId result ht
    unfold answer at ht
    split_ifs at ht
    · obtain rfl := Option.some.inj ht
      rfl
    · obtain ⟨id, -, rfl⟩ := Option.map_eq_some_iff.mp ht
      rfl
  cases a with
  | process action =>
    replace hstep : (if action.ofThreads then
      (s.process.step pb action).map fun process => { s with process } else none) = some s' := hstep
    split_ifs at hstep
    obtain ⟨process, hprocess, rfl⟩ := Option.map_eq_some_iff.mp hstep
    exact ⟨[action], Option.bind_eq_some_iff.mpr ⟨_, hprocess, rfl⟩⟩
  | subscribe gatewayId symbols fromSeq =>
    obtain ⟨t, ht, hstep⟩ := Option.bind_eq_some_iff.mp hstep
    obtain ⟨x, -, hstep⟩ := Option.bind_eq_some_iff.mp hstep
    rw [hanswer hstep]
    exact honNode rfl ht
  | subscribeReplies gatewayId =>
    obtain ⟨t, ht, hstep⟩ := Option.bind_eq_some_iff.mp hstep
    rw [hanswer hstep]
    exact honNode rfl ht
  | request id =>
    obtain ⟨h, -, ht⟩ := Option.bind_eq_some_iff.mp hstep
    exact honNode rfl ht
  | pump id =>
    obtain ⟨h, -, hstep⟩ := Option.bind_eq_some_iff.mp hstep
    split_ifs at hstep
    obtain rfl := Option.some.inj hstep
    exact hstays rfl
  | cancelled id =>
    obtain ⟨h, -, rfl⟩ := Option.map_eq_some_iff.mp hstep
    exact hstays rfl
  | poll id =>
    obtain ⟨h, -, hstep⟩ := Option.bind_eq_some_iff.mp hstep
    obtain ⟨t, ht, hstep⟩ := Option.bind_eq_some_iff.mp hstep
    have hsame : s'.process = t.process := by
      split at hstep
      · obtain rfl := Option.some.inj hstep
        rfl
      · split at hstep
        · cases hstep
        · obtain rfl := Option.some.inj hstep
          rfl
        · obtain rfl := Option.some.inj hstep
          rfl
    rw [hsame]
    exact honNode rfl ht
  | check id =>
    obtain ⟨h, -, rfl⟩ := Option.map_eq_some_iff.mp hstep
    refine hstays ?_
    split
    · rfl
    · simp only
      split_ifs <;> rfl
  | write id written =>
    obtain ⟨h, -, hstep⟩ := Option.bind_eq_some_iff.mp hstep
    split at hstep
    · split_ifs at hstep
      · obtain rfl := Option.some.inj hstep
        exact hstays rfl
      · obtain rfl := Option.some.inj hstep
        exact hstays rfl
    · cases hstep
  | leave id =>
    obtain ⟨h, -, hstep⟩ := Option.bind_eq_some_iff.mp hstep
    split at hstep
    · obtain ⟨t, ht, rfl⟩ := Option.map_eq_some_iff.mp hstep
      exact honNode (t := t) rfl ht
    · cases hstep

/-- A run of the server runs the process. -/
theorem process_run {actions : List Action} (hrun : s.run pb actions = some s') :
    ∃ actions, s.process.run pb actions = some s'.process := by
  induction actions generalizing s with
  | nil => exact ⟨[], congrArg (Option.map FeedServer.process) hrun⟩
  | cons a actions ih =>
    obtain ⟨s₁, hstep, hrest⟩ := Option.bind_eq_some_iff.mp hrun
    obtain ⟨first, hfirst⟩ := process_step hstep
    obtain ⟨rest, hrest⟩ := ih hrest
    refine ⟨first ++ rest, ?_⟩
    unfold Process.run at hfirst hrest ⊢
    rw [List.foldlM_append, hfirst]
    exact hrest

/-- A handler that is found at a stage is at it. -/
theorem handlerAt_spec {stage : PumpStage} (hat : s.handlerAt id stage = some h) :
    s.handlers id = some h ∧ h.stage = stage := by
  obtain ⟨hsome, hstage⟩ := Option.filter_eq_some_iff.mp hat
  exact ⟨hsome, of_decide_eq_true hstage⟩

/-- What a handler does on the node is one of its steps. -/
theorem onNode_spec {a : EngineNode.Action} (honNode : s.onNode a = some s') :
    ∃ node, s.process.node.step a = some node ∧ s' = { s with process := { s.process with node } } := by
  obtain ⟨node, hnode, rfl⟩ := Option.map_eq_some_iff.mp honNode
  exact ⟨node, hnode, rfl⟩

/-- A call that is granted gets its handler, and a refusal is noted. -/
theorem answer_spec {kind : SubscriberKind} {gatewayId : GatewayId} {result : SubscribeResult}
    (hresult : result.error ≠ .none → result.subscription = none)
    (hanswer : s.answer kind gatewayId result = some s') :
    s'.process = s.process ∧ s'.handlers = match result.subscription with
      | none => s.handlers
      | some id => Function.update s.handlers id (some { kind, gatewayId }) := by
  unfold answer at hanswer
  split_ifs at hanswer with herror
  · obtain rfl := Option.some.inj hanswer
    rw [hresult herror]
    exact ⟨rfl, rfl⟩
  · obtain ⟨id, hid, rfl⟩ := Option.map_eq_some_iff.mp hanswer
    rw [hid]
    exact ⟨rfl, rfl⟩

/-- A subscription is answered with a handler if the publisher grants it, and refused otherwise. -/
theorem subscribe_cases {gatewayId : GatewayId} {symbols : List SymbolId} {fromSeq : FromSeq}
    (hstep : s.subscribe gatewayId symbols fromSeq = some s') :
    ∃ result snapshots, s.publisher.Subscribes gatewayId symbols fromSeq s'.publisher result snapshots ∧
      s'.handlers = match result.subscription with
        | none => s.handlers
        | some id => Function.update s.handlers id (some { kind := .market, gatewayId }) := by
  obtain ⟨s₁, honNode, hstep⟩ := Option.bind_eq_some_iff.mp hstep
  obtain ⟨⟨p, result, snapshots⟩, hsubscribe, hanswer⟩ := Option.bind_eq_some_iff.mp hstep
  have hsubscribe : s.publisher.subscribe gatewayId symbols fromSeq = .ok (p, result, snapshots) :=
    EngineNode.ok_of_toOption hsubscribe
  obtain ⟨node, hnode, rfl⟩ := onNode_spec honNode
  -- The call is made once: the model asks for its answer and its effect one after the other.
  have hpublisher : node.publisher = p := by
    replace hnode : s.process.node.subscribe gatewayId symbols fromSeq = some node := hnode
    unfold EngineNode.subscribe at hnode
    split_ifs at hnode
    obtain ⟨x, hx, hnode⟩ := Option.map_eq_some_iff.mp hnode
    obtain rfl := Except.ok.inj ((EngineNode.ok_of_toOption hx).symm.trans hsubscribe)
    rw [← hnode]
    simp only
    cases result.subscription <;> rfl
  obtain ⟨_, _, _, hsubscribe', hcases⟩ := s.publisher.subscribe_spec gatewayId symbols fromSeq
  obtain ⟨rfl, rfl, rfl⟩ : p = _ ∧ result = _ ∧ snapshots = _ := by
    simpa using hsubscribe.symm.trans hsubscribe'
  have hresult : result.error ≠ .none → result.subscription = none := fun herror => by
    cases hcases with
    | refused _ subscription => exact subscription
    | tooOld _ _ subscription => exact subscription
    | registered => exact absurd rfl herror
  obtain ⟨hprocess, hhandlers⟩ := answer_spec hresult hanswer
  have hafter : s'.publisher = p :=
    (congrArg (fun process => process.node.publisher) hprocess).trans hpublisher
  exact ⟨result, snapshots, hafter ▸ hcases, hhandlers⟩

/-- A subscription to replies is answered with a handler, or the publisher stays as it is. -/
theorem subscribeReplies_cases {gatewayId : GatewayId} (hstep : s.subscribeReplies gatewayId = some s') :
    s.publisher.PassesReplies gatewayId ∧
        s'.publisher = s.publisher.register (s.publisher.newRepliesSub gatewayId) { kind := .replies } ∧
        s'.handlers = Function.update s.handlers s.publisher.nextId (some { kind := .replies, gatewayId }) ∨
      ¬ s.publisher.PassesReplies gatewayId ∧ s'.publisher = s.publisher ∧ s'.handlers = s.handlers := by
  obtain ⟨s₁, honNode, hanswer⟩ := Option.bind_eq_some_iff.mp hstep
  obtain ⟨node, hnode, rfl⟩ := onNode_spec honNode
  replace hnode : s.process.node.locked (fun p => (p.subscribeReplies gatewayId).1) = some node := hnode
  have hpublisher : node.publisher = (s.publisher.subscribeReplies gatewayId).1 :=
    (EngineNode.locked_spec hnode).1
  by_cases hpasses : s.publisher.PassesReplies gatewayId
  · rw [Publisher.subscribeReplies_registered hpasses] at hpublisher hanswer
    obtain ⟨hprocess, hhandlers⟩ := answer_spec (fun herror => absurd rfl herror) hanswer
    exact Or.inl ⟨hpasses,
      (congrArg (fun process => process.node.publisher) hprocess).trans hpublisher, hhandlers⟩
  · obtain ⟨hsame, hnone, -⟩ := Publisher.subscribeReplies_refused hpasses
    obtain ⟨hprocess, hhandlers⟩ := answer_spec (fun _ => hnone) hanswer
    rw [hnone] at hhandlers
    exact Or.inr ⟨hpasses,
      (congrArg (fun process => process.node.publisher) hprocess).trans (hpublisher.trans hsame), hhandlers⟩

/-- A request of a snapshot changes neither the publisher nor the handlers. -/
theorem request_cases (hstep : s.request id = some s') :
    s'.publisher = s.publisher ∧ s'.handlers = s.handlers := by
  obtain ⟨h, -, honNode⟩ := Option.bind_eq_some_iff.mp hstep
  obtain ⟨node, hnode, rfl⟩ := onNode_spec honNode
  replace hnode : s.process.node.request id = some node := hnode
  unfold EngineNode.request at hnode
  cases hrequests : s.process.node.requests id with
  | nil =>
    rw [hrequests] at hnode
    cases hnode
  | cons symbol symbols =>
    rw [hrequests] at hnode
    obtain ⟨i, -, rfl⟩ := Option.map_eq_some_iff.mp hnode
    exact ⟨rfl, rfl⟩

namespace Sound

/-- The threads of the node go on. -/
theorem delivers (hs : s.Sound) (hdelivers : s.publisher.Delivers s'.publisher)
    (hhandlers : s'.handlers = s.handlers) : s'.Sound where
  publisher := hdelivers.wf
  started := hdelivers.nextId ▸ hs.started
  zero := hdelivers.gone 0 hs.zero
  handled id := by
    rw [hhandlers, Publisher.Handed, hdelivers.nextId]
    exact hs.handled id
  serves id h hh := by
    rw [hhandlers] at hh
    have hserves := hs.serves id h hh
    obtain ⟨hchannel, hkept⟩ := hdelivers.feeds id h.kind h.gatewayId hserves.channel
    exact hserves.kept hchannel hkept

/-- One handler goes on, with its subscription. -/
theorem setHandler (hs : s.Sound) (hold : s.handlers id = some h) (hwf : s'.publisher.Wf)
    (hnext : s'.publisher.nextId = s.publisher.nextId)
    (hfeed : ∀ x, x ≠ id → s'.publisher.feed x = s.publisher.feed x)
    (hhandlers : s'.handlers = Function.update s.handlers id (some h'))
    (hserves : h'.Serves (s'.publisher.feed id)) : s'.Sound where
  publisher := hwf
  started := hnext ▸ hs.started
  zero := by
    have hhanded := (hs.handled id).mp (Option.isSome_of_eq_some hold)
    have hne : 0 ≠ id := (Nat.pos_of_ne_zero (Nat.one_le_iff_ne_zero.mp hhanded.1)).ne
    exact (congrArg Feed.entry (hfeed 0 hne)).trans hs.zero
  handled x := by
    rw [hhandlers, Publisher.Handed, hnext]
    by_cases hx : x = id
    · rw [hx, Function.update_self]
      exact iff_of_true rfl ((hs.handled id).mp (Option.isSome_of_eq_some hold))
    · rw [Function.update_of_ne hx]
      exact hs.handled x
  serves x y hy := by
    rw [hhandlers] at hy
    by_cases hx : x = id
    · rw [hx, Function.update_self] at hy
      obtain rfl := Option.some.inj hy
      exact hx ▸ hserves
    · rw [Function.update_of_ne hx] at hy
      rw [hfeed x hx]
      exact hs.serves x y hy

/-- One handler goes on by itself. -/
theorem moves (hs : s.Sound) (hold : s.handlers id = some h) (hprocess : s'.process = s.process)
    (hhandlers : s'.handlers = Function.update s.handlers id (some h'))
    (hserves : h'.Serves (s.publisher.feed id)) : s'.Sound := by
  have hpublisher : s'.publisher = s.publisher := congrArg (fun p => p.node.publisher) hprocess
  apply hs.setHandler hold
  · exact hpublisher ▸ hs.publisher
  · rw [hpublisher]
  · intro x _
    rw [hpublisher]
  · exact hhandlers
  · exact hpublisher ▸ hserves

/-- A new subscription comes with its handler. -/
theorem registered (hs : s.Sound) {entry : Subscriber} {sub : Subscription} (hwf : s'.publisher.Wf)
    (hnext : s'.publisher.nextId = s.publisher.nextId + 1)
    (hnew : s'.publisher.feed s.publisher.nextId = ⟨some entry, sub⟩)
    (hfeed : ∀ x, x ≠ s.publisher.nextId → s'.publisher.feed x = s.publisher.feed x)
    (hhandlers : s'.handlers = Function.update s.handlers s.publisher.nextId
      (some { kind := entry.kind, gatewayId := sub.gatewayId }))
    (hopen : sub.endReason = .none) (hpopped : sub.popped = [])
    (hitems : ∀ item ∈ sub.items, entry.kind.Carries sub.gatewayId sub.id item)
    (hmute : entry.kind = .replies → entry.live = fun _ => none) : s'.Sound := by
  -- The new feed has been given what was replayed, and nothing has been popped.
  have hchannel : Feed.Channel ⟨some entry, sub⟩ entry.kind sub.gatewayId := by
    constructor
    case gateway => rfl
    case kind_eq =>
      intro entry' he
      rw [Option.some.inj he]
    case mute =>
      intro hkind entry' he
      obtain rfl := Option.some.inj he
      exact hmute hkind
    case open_ => exact iff_of_true hopen rfl
    case given =>
      intro item hitem
      unfold Feed.given at hitem
      rw [hpopped] at hitem
      exact hitems item hitem
    case slow =>
      intro hslow
      rw [hopen] at hslow
      cases hslow
  have hserves : Handler.Serves { kind := entry.kind, gatewayId := sub.gatewayId } ⟨some entry, sub⟩ := by
    constructor
    case channel => exact hchannel
    case writes =>
      refine ⟨[], rfl, ?_⟩
      show entry.kind.Fills sub.popped []
      rw [hpopped]
      exact List.Forall₂.nil
    case left => exact fun hl => by cases hl
    case stays =>
      intro _ he
      rw [hopen] at he
      cases he
    case told => exact fun _ hstatus => by cases hstatus
  constructor
  case publisher => exact hwf
  case started =>
    rw [hnext]
    exact Nat.succ_pos _
  case zero => exact (congrArg Feed.entry (hfeed 0 hs.started.ne)).trans hs.zero
  case handled =>
    intro x
    -- One more id has been handed out, and it is the new handler's.
    have hids : ∀ a b : ℕ, a ≠ b → (1 ≤ a ∧ a < b ↔ 1 ≤ a ∧ a < b + 1) := by omega
    rw [hhandlers, Publisher.Handed, hnext]
    by_cases hx : x = s.publisher.nextId
    · rw [hx, Function.update_self]
      exact iff_of_true rfl ⟨hs.started, Nat.lt_succ_self _⟩
    · rw [Function.update_of_ne hx, hs.handled x]
      exact hids x s.publisher.nextId hx
  case serves =>
    intro x y hy
    rw [hhandlers] at hy
    by_cases hx : x = s.publisher.nextId
    · rw [hx, Function.update_self] at hy
      obtain rfl := Option.some.inj hy
      rw [hx, hnew]
      exact hserves
    · rw [Function.update_of_ne hx] at hy
      rw [hfeed x hx]
      exact hs.serves x y hy

/-- A subscription keeps the server sound. -/
theorem subscribe {gatewayId : GatewayId} {symbols : List SymbolId} {fromSeq : FromSeq} (hs : s.Sound)
    (hstep : s.subscribe gatewayId symbols fromSeq = some s') : s'.Sound := by
  obtain ⟨result, snapshots, hcases, hhandlers⟩ := subscribe_cases hstep
  generalize hafter : s'.publisher = p at hcases
  cases hcases with
  | refused _ subscription =>
    rw [subscription] at hhandlers
    refine hs.delivers ?_ hhandlers
    rw [hafter]
    exact .refl hs.publisher
  | tooOld _ _ subscription =>
    rw [subscription] at hhandlers
    refine hs.delivers ?_ hhandlers
    rw [hafter]
    exact ⟨hs.publisher.congr rfl rfl rfl rfl rfl rfl, rfl, fun hc => hc, fun _ hnone => hnone,
      fun _ _ _ hf => ⟨hf, .refl _⟩⟩
  | registered stats passes =>
    obtain ⟨hwf, hnew, hother, hrecord⟩ := passes.register_spec hs.publisher stats
    rw [← hafter] at hwf hnew hother hrecord
    refine hs.registered hwf hrecord.nextId hnew hother hhandlers rfl rfl ?_ fun hkind => by cases hkind
    -- What is replayed are events.
    intro item hitem
    obtain ⟨symbol, -, hitem⟩ := List.mem_flatMap.mp hitem
    unfold Publisher.replayOf at hitem
    cases hwanted : fromSeq.lookup symbol with
    | none =>
      rw [hwanted] at hitem
      exact absurd hitem List.not_mem_nil
    | some wanted =>
      rw [hwanted] at hitem
      obtain ⟨event, -, rfl⟩ := List.mem_map.mp hitem
      exact ⟨fun _ => FeedItem.noConfusion, fun _ => FeedItem.noConfusion⟩

/-- A subscription to replies keeps the server sound. -/
theorem subscribeReplies {gatewayId : GatewayId} (hs : s.Sound)
    (hstep : s.subscribeReplies gatewayId = some s') : s'.Sound := by
  rcases subscribeReplies_cases hstep with ⟨hpasses, hpublisher, hhandlers⟩ | ⟨-, hpublisher, hhandlers⟩
  · obtain ⟨hwf, hnew, hother, hrecord⟩ := hpasses.register_spec hs.publisher
    rw [← hpublisher] at hwf hnew hother hrecord
    exact hs.registered hwf hrecord.nextId hnew hother hhandlers rfl rfl
      (fun item hitem => absurd hitem List.not_mem_nil) fun _ => rfl
  · refine hs.delivers ?_ hhandlers
    rw [hpublisher]
    exact .refl hs.publisher

/-- What a handler polls is nothing, or the next item, which it fills. -/
theorem poll_cases (hs : s.Sound) (hstep : s.poll id = some s') :
    ∃ h, s.handlers id = some h ∧ h.stage = .head ∧
      s'.process = { s.process with node :=
        { s.process.node with publisher := s.publisher.nextFor id } } ∧
      ((s.publisher.subs id).items = [] ∧
          s'.handlers = Function.update s.handlers id (some { h with stage := .empty }) ∨
        ∃ item items message, (s.publisher.subs id).items = item :: items ∧
          h.kind.fill item = .ok (some message) ∧
          s'.handlers = Function.update s.handlers id (some { h with stage := .holding message })) := by
  obtain ⟨h, hat, hstep⟩ := Option.bind_eq_some_iff.mp hstep
  obtain ⟨s₁, honNode, hstep⟩ := Option.bind_eq_some_iff.mp hstep
  obtain ⟨hold, hstage⟩ := handlerAt_spec hat
  obtain ⟨node, hnode, rfl⟩ := onNode_spec honNode
  obtain rfl := Option.some.inj hnode
  refine ⟨h, hold, hstage, ?_⟩
  cases hitems : (s.publisher.subs id).items with
  | nil =>
    simp only [Subscription.nextFor, hitems] at hstep
    obtain rfl := Option.some.inj hstep
    exact ⟨rfl, Or.inl ⟨rfl, rfl⟩⟩
  | cons item items =>
    -- What is popped has been given, so it belongs on the stream and can be filled.
    have hgiven : item ∈ (s.publisher.feed id).given :=
      List.mem_append_right _
        (by rw [show (s.publisher.feed id).sub.items = _ from hitems]; exact List.mem_cons_self)
    obtain ⟨message, hfill⟩ :=
      SubscriberKind.fill_of_carries ((hs.serves id h hold).channel.given item hgiven)
    simp only [Subscription.nextFor, hitems, hfill] at hstep
    obtain rfl := Option.some.inj hstep
    exact ⟨rfl, Or.inr ⟨item, items, message, rfl, hfill, rfl⟩⟩

/-- A handler that takes an item keeps the server sound. -/
theorem poll (hs : s.Sound) (hstep : s.poll id = some s') : s'.Sound := by
  obtain ⟨h, hold, hstage, hprocess, hcases⟩ := hs.poll_cases hstep
  have hserves := hs.serves id h hold
  have hwaits : h.stage.waits = true := by rw [hstage]; rfl
  have hpublisher : s'.publisher = s.publisher.nextFor id :=
    congrArg (fun p => p.node.publisher) hprocess
  obtain ⟨_, hact, hwf, -⟩ := Publisher.act_spec hs.publisher (.nextFor id)
  obtain rfl := Except.ok.inj hact
  have hmine : (s.publisher.nextFor id).feed id =
      { s.publisher.feed id with sub := (s.publisher.feed id).sub.nextFor.1 } := by
    unfold Publisher.feed Publisher.nextFor
    simp only [Function.update_self]
  have hgoes : ∀ h' : Handler, s'.handlers = Function.update s.handlers id (some h') →
      h'.Serves ((s.publisher.nextFor id).feed id) → s'.Sound := by
    intro h' hhandlers hserves'
    apply hs.setHandler hold
    · exact hpublisher ▸ hwf
    · rw [hpublisher]
      rfl
    · intro x hx
      rw [hpublisher]
      unfold Publisher.feed Publisher.nextFor
      simp only [Function.update_of_ne hx]
    · exact hhandlers
    · exact hpublisher ▸ hserves'
  rcases hcases with ⟨hitems, hhandlers⟩ | ⟨item, items, message, hitems, hfill, hhandlers⟩
  · apply hgoes _ hhandlers
    -- An empty poll leaves the feed as it was.
    have hsame : (s.publisher.nextFor id).feed id = s.publisher.feed id := by
      rw [hmine]
      show Feed.mk _ (s.publisher.subs id).nextFor.1 = _
      unfold Subscription.nextFor
      rw [hitems]
      rfl
    rw [hsame]
    exact hserves.goTo hwaits rfl
  · apply hgoes _ hhandlers
    rw [hmine]
    exact hserves.hold hwaits hitems hfill

/-- A request of a snapshot keeps the server sound. -/
theorem request (hs : s.Sound) (hstep : s.request id = some s') : s'.Sound := by
  obtain ⟨hpublisher, hhandlers⟩ := request_cases hstep
  refine hs.delivers ?_ hhandlers
  rw [hpublisher]
  exact .refl hs.publisher

/-- A handler that looks at its stream keeps the server sound. -/
theorem pump (hs : s.Sound) (hstep : s.pump id = some s') : s'.Sound := by
  obtain ⟨h, hat, hstep⟩ := Option.bind_eq_some_iff.mp hstep
  obtain ⟨hold, hstage⟩ := handlerAt_spec hat
  split_ifs at hstep
  obtain rfl := Option.some.inj hstep
  exact hs.moves hold rfl rfl ((hs.serves id h hold).goTo (by rw [hstage]; rfl) rfl)

/-- A client that has gone keeps the server sound. -/
theorem cancelled (hs : s.Sound) (hstep : s.cancelled id = some s') : s'.Sound := by
  obtain ⟨h, hat, rfl⟩ := Option.map_eq_some_iff.mp hstep
  obtain ⟨hold, hstage⟩ := handlerAt_spec hat
  refine hs.moves hold rfl rfl ((hs.serves id h hold).return_ (by rw [hstage]; rfl) .wentAway ?_)
  decide

/-- A subscription that ends under its handler was too slow, or the publisher has closed. -/
theorem check (hs : s.Sound) (hstep : s.check id = some s') : s'.Sound := by
  obtain ⟨h, hat, hstep⟩ := Option.map_eq_some_iff.mp hstep
  obtain ⟨hold, hstage⟩ := handlerAt_spec hat
  have hserves := hs.serves id h hold
  have hwaits : h.stage.waits = true := by rw [hstage]; rfl
  cases hreason : (s.publisher.subs id).endReason with
  | none =>
    rw [hreason] at hstep
    subst hstep
    exact hs.moves hold rfl rfl (hserves.goTo hwaits rfl)
  | unsubscribed => exact absurd hreason (hserves.stays (PumpStage.waits_spec hwaits).1)
  | slowConsumer =>
    rw [hreason] at hstep
    subst hstep
    refine hs.moves hold rfl rfl (hserves.return_ hwaits (.slow hreason) ?_)
    cases h.kind <;> decide
  | shutdown =>
    rw [hreason] at hstep
    subst hstep
    refine hs.moves hold rfl rfl (hserves.return_ hwaits (.shutdown hreason) ?_)
    cases h.kind <;> decide

/-- A handler that writes keeps the server sound. -/
theorem write {written : Bool} (hs : s.Sound) (hstep : s.write id written = some s') : s'.Sound := by
  obtain ⟨h, hold, hstep⟩ := Option.bind_eq_some_iff.mp hstep
  cases hstage : h.stage with
  | holding message =>
    rw [hstage] at hstep
    simp only at hstep
    split_ifs at hstep
    · obtain rfl := Option.some.inj hstep
      exact hs.moves hold rfl rfl ((hs.serves id h hold).wrote hstage)
    · obtain rfl := Option.some.inj hstep
      exact hs.moves hold rfl rfl ((hs.serves id h hold).broke hstage)
  | _ =>
    rw [hstage] at hstep
    cases hstep

/-- A handler that leaves unsubscribes. -/
theorem leave_cases (hstep : s.leave id = some s') :
    ∃ h status, s.handlers id = some h ∧ h.stage = .returned status ∧
      s'.publisher = s.publisher.unsubscribe id ∧ s'.process.node.requests = s.process.node.requests ∧
      s'.handlers = Function.update s.handlers id (some { h with stage := .left status }) := by
  obtain ⟨h, hold, hstep⟩ := Option.bind_eq_some_iff.mp hstep
  cases hstage : h.stage with
  | returned status =>
    rw [hstage] at hstep
    obtain ⟨s₁, honNode, rfl⟩ := Option.map_eq_some_iff.mp hstep
    obtain ⟨node, hnode, rfl⟩ := onNode_spec honNode
    replace hnode : s.process.node.locked (fun p => p.unsubscribe id) = some node := hnode
    unfold EngineNode.locked at hnode
    split_ifs at hnode
    obtain rfl := Option.some.inj hnode
    exact ⟨h, status, hold, hstage, rfl, rfl, rfl⟩
  | _ =>
    rw [hstage] at hstep
    cases hstep

/-- A handler that leaves keeps the server sound. -/
theorem leave (hs : s.Sound) (hstep : s.leave id = some s') : s'.Sound := by
  obtain ⟨h, status, hold, hstage, hpublisher, -, hhandlers⟩ := leave_cases hstep
  have hfeed : ∀ x, s'.publisher.feed x =
      if x = id then (s.publisher.feed x).leave .unsubscribed else s.publisher.feed x := fun x => by
    rw [hpublisher]
    exact Publisher.feed_drop s.publisher id .unsubscribed x
  apply hs.setHandler hold
  · rw [hpublisher]
    exact hs.publisher.drop id .unsubscribed
  · rw [hpublisher]
    exact (Publisher.sameRecord_drop s.publisher id .unsubscribed).nextId
  · intro x hx
    exact (hfeed x).trans (if_neg hx)
  · exact hhandlers
  · rw [hfeed, if_pos rfl]
    exact (hs.serves id h hold).leave hstage

/-- **One action.** -/
theorem step {a : Action} (hs : s.Sound) (hstep : s.step pb a = some s') : s'.Sound := by
  cases a with
  | process action =>
    replace hstep : (if action.ofThreads then
      (s.process.step pb action).map fun process => { s with process } else none) = some s' := hstep
    split_ifs at hstep with hthreads
    obtain ⟨process, hprocess, rfl⟩ := Option.map_eq_some_iff.mp hstep
    obtain ⟨actions, hrun, hall⟩ := Process.node_step hprocess
    exact hs.delivers (EngineNode.delivers_run hs.publisher (hall hthreads) hrun) rfl
  | subscribe gatewayId symbols fromSeq => exact hs.subscribe hstep
  | subscribeReplies gatewayId => exact hs.subscribeReplies hstep
  | request id => exact hs.request hstep
  | pump id => exact hs.pump hstep
  | cancelled id => exact hs.cancelled hstep
  | poll id => exact hs.poll hstep
  | check id => exact hs.check hstep
  | write id written => exact hs.write hstep
  | leave id => exact hs.leave hstep

/-- **Every interleaving.** -/
theorem run {actions : List Action} (hs : s.Sound) (hrun : s.run pb actions = some s') : s'.Sound := by
  induction actions generalizing s with
  | nil => exact Option.some.inj hrun ▸ hs
  | cons a actions ih =>
    obtain ⟨s₁, hstep, hrest⟩ := Option.bind_eq_some_iff.mp hrun
    exact ih (hs.step hstep) hrest

end Sound

/-- A new server is sound. -/
theorem sound_start {p : Process} {partitions : ℕ} {instruments : List Instrument} {options : PublisherOptions}
    {address : String} (hmake : Process.make partitions instruments options address = .ok p) :
    Sound { process := p } := by
  have hpublisher : Publisher.make (instruments.map Instrument.id) options = .ok p.node.publisher :=
    (EngineNode.parts_of_make (Process.node_make hmake)).2.1
  have hsettled := Publisher.settled_make hpublisher
  have hstart : p.node.publisher.nextId = 1 := by
    unfold Publisher.make at hpublisher
    split_ifs at hpublisher
    rw [← Except.ok.inj hpublisher]
  constructor
  case publisher => exact (Publisher.wf_make hpublisher).1
  case started => exact hsettled.started
  case zero => exact hsettled.zero
  case handled =>
    intro id
    refine iff_of_false Bool.false_ne_true fun hhanded => ?_
    have hlt : id < p.node.publisher.nextId := hhanded.2
    rw [hstart] at hlt
    exact absurd (lt_of_le_of_lt hhanded.1 hlt) (lt_irrefl 1)
  case serves => exact fun id h hh => by cases hh

/-- What the gateways rely on. -/
structure Served (s : FeedServer) : Prop where
  /-- A slot is held by the handler of the open subscription. -/
  holds : ∀ kind gatewayId id, s.publisher.holder (kind, gatewayId) = some id ↔
    ∃ h, s.handlers id = some h ∧ h.kind = kind ∧ h.gatewayId = gatewayId ∧
      (s.publisher.subs id).endReason = .none
  /-- A handler that has left holds no slot. -/
  freed : ∀ id h, s.handlers id = some h → h.stage.isLeft = true → ∀ slot, s.publisher.holder slot ≠ some id
  /-- Every handler serves its subscription. -/
  serves : ∀ id h, s.handlers id = some h → h.Serves (s.publisher.feed id)
  /-- Whatever the handler takes can be filled. -/
  polls : ∀ id h, s.handlers id = some h → h.stage = .head → (s.poll id).isSome

/-- A sound server serves. -/
theorem Sound.served (hs : s.Sound) : s.Served := by
  constructor
  case holds =>
    intro kind gatewayId id
    rw [hs.publisher.holds]
    constructor
    -- An entry in the table has an id that was handed out, so a handler.
    · rintro ⟨entry, hentry, hkind, hgateway⟩
      have hhanded : s.publisher.Handed id := by
        constructor
        · refine Nat.one_le_iff_ne_zero.mpr fun hzero => ?_
          rw [hzero, hs.zero] at hentry
          cases hentry
        · by_contra hlate
          rw [hs.publisher.fresh id (not_lt.mp hlate)] at hentry
          cases hentry
      obtain ⟨h, hh⟩ := Option.isSome_iff_exists.mp ((hs.handled id).mpr hhanded)
      have hchannel := (hs.serves id h hh).channel
      exact ⟨h, hh, (hchannel.kind_eq entry hentry).symm.trans hkind, hchannel.gateway.symm.trans hgateway,
        hchannel.open_.mpr (Option.isSome_of_eq_some hentry)⟩
    · rintro ⟨h, hh, rfl, rfl, hopen⟩
      have hchannel := (hs.serves id h hh).channel
      obtain ⟨entry, hentry⟩ := Option.isSome_iff_exists.mp (hchannel.open_.mp hopen)
      exact ⟨entry, hentry, hchannel.kind_eq entry hentry, hchannel.gateway⟩
  case freed =>
    intro id h hh hleft slot hslot
    obtain ⟨entry, hentry, -⟩ := hs.publisher.entry slot.1 slot.2 id hslot
    have hnone : s.publisher.subscribers.lookup id = none := (hs.serves id h hh).left hleft
    rw [hnone] at hentry
    cases hentry
  case serves => exact hs.serves
  case polls =>
    intro id h hh hstage
    have hat : s.handlerAt id .head = some h := by
      unfold handlerAt
      rw [hh, Option.filter_some, if_pos (decide_eq_true hstage)]
    obtain ⟨s', hnode⟩ : ∃ s', s.onNode (.nextFor id) = some s' := ⟨_, rfl⟩
    unfold FeedServer.poll
    rw [hat, Option.bind_some, hnode, Option.bind_some]
    cases hitems : (s.publisher.subs id).items with
    | nil => simp [Subscription.nextFor, hitems]
    | cons item items =>
      have hgiven : item ∈ (s.publisher.feed id).given :=
        List.mem_append_right _
          (by rw [show (s.publisher.feed id).sub.items = _ from hitems]; exact List.mem_cons_self)
      obtain ⟨message, hfill⟩ :=
        SubscriberKind.fill_of_carries ((hs.serves id h hh).channel.given item hgiven)
      simp [Subscription.nextFor, hitems, hfill]

/-- **The handlers.** In every interleaving of the threads, the handlers and the clients: each handler has
written what it has popped, all of it, in order and once, but for a message in hand or one whose write has
failed, and what it has popped belongs on its stream. A call that ends under its subscription says why; the
slot of a gateway is held as long as the subscription of its handler is open, and free when it has left. -/
theorem handlers_serve (pb : Protobuf) (partitions : ℕ) (instruments : List Instrument)
    (options : PublisherOptions) (address : String) (p : Process)
    (hmake : Process.make partitions instruments options address = .ok p) (actions : List Action)
    (s : FeedServer) (hrun : run pb { process := p } actions = some s) : s.Served :=
  ((sound_start hmake).run hrun).served

/-- A gateway listens for its replies, and one comes before the node is stopped. -/
def listenThenStop : List Action :=
  [.subscribeReplies "gateway", .pump 1, .process (.startFeed 0), .process (.openStream 0),
   .process (.read 0 (SequencerFeed.cancelAt 1)), .process (.node (.work 0)), .poll 1,
   .process (.node (.push 0)), .check 1, .process (.node .route), .poll 1, .process .main, .process .main,
   .write 1 true, .process (.endStream 0 ⟨.cancelled, ""⟩), .process .main, .process .main, .process .main,
   .process (.node (.work 0)), .process .main, .process .main, .process .main, .process (.node .route),
   .process .main, .poll 1, .check 1, .leave 1]

/-- The gateway listens, and the process comes to a stop. -/
theorem run_listenThenStop :
    ∃ p s, Process.make 1 [{ id := 1, partition := 0, cfg := { poolCapacity := 4 } }] {} "sequencer" = .ok p ∧
      run generated { process := p } listenThenStop = some s ∧
      (s.handlers 1).map Handler.stage = some (.left ⟨.unavailable, "engine is shutting down"⟩) := by
  have hchain : ((Process.make 1 [{ id := 1, partition := 0, cfg := { poolCapacity := 4 } }] {}
      "sequencer").toOption.bind fun p => (run generated { process := p } listenThenStop).map fun s =>
        (s.handlers 1).map Handler.stage) =
      some (some (.left ⟨.unavailable, "engine is shutting down"⟩)) := by decide +kernel
  obtain ⟨p, hmake, hchain⟩ := Option.bind_eq_some_iff.mp hchain
  obtain ⟨s, hrun, hstage⟩ := Option.map_eq_some_iff.mp hchain
  exact ⟨p, s, EngineNode.ok_of_toOption hmake, hrun, hstage⟩

/-- The handler has left, and its slot is free. -/
theorem handlers_serve_until_stopped :
    ∃ p s, Process.make 1 [{ id := 1, partition := 0, cfg := { poolCapacity := 4 } }] {} "sequencer" = .ok p ∧
      run generated { process := p } listenThenStop = some s ∧
      s.publisher.holder (.replies, "gateway") ≠ some 1 := by
  obtain ⟨p, s, hmake, hrun, hstage⟩ := run_listenThenStop
  obtain ⟨h, hh, hleft⟩ := Option.map_eq_some_iff.mp hstage
  have hserved := handlers_serve generated _ _ _ _ p hmake listenThenStop s hrun
  exact ⟨p, s, hmake, hrun, hserved.freed 1 h hh (by rw [hleft]; rfl) (.replies, "gateway")⟩

end FeedServer

end OrderBookEngine
