import OrderBookEngine.Properties.Resume
import OrderBookEngine.Properties.Streams

/-!
# A stream starts from a snapshot

A symbol that is asked for without a sequence number waits for its snapshot. What it is due from then on
is a function of what the publisher takes (`due_of_waiting`), and the streams of a node say what that is:
the snapshot is as of the events before it, and the events of the book behind it follow.
-/

namespace OrderBookEngine

/-! ## What a market feed is given -/

/-- An item of market data for some symbols. -/
def FeedItem.Among (symbols : List SymbolId) (item : FeedItem) : Prop :=
  (∀ reply, item ≠ .reply reply) ∧ item.symbol ∈ symbols

namespace Feed

variable {f : Feed} {symbols : List SymbolId} {item : FeedItem}

/-- A feed of market data for some symbols. -/
structure Within (symbols : List SymbolId) (f : Feed) : Prop where
  /-- Its entry in the table is for market data, live only for some of the symbols. -/
  entry : ∀ entry, f.entry = some entry →
    entry.kind = .market ∧ ∀ symbol, (entry.live symbol).isSome → symbol ∈ symbols
  /-- It has been given items of these symbols only. -/
  given : ∀ item ∈ f.given, item.Among symbols

/-- An item of the symbols may be offered. -/
theorem Within.offer (h : f.Within symbols) (hitem : item.Among symbols) :
    (f.offer item).Within symbols := by
  constructor
  case entry =>
    intro entry hentry
    unfold Feed.offer at hentry
    split_ifs at hentry
    exact h.entry entry hentry
  case given =>
    intro x hx
    rcases f.given_offer item x hx with hold | rfl
    · exact h.given x hold
    · exact hitem

/-- A feed stays within its symbols when it leaves. -/
theorem Within.leave (h : f.Within symbols) (reason : EndReason) : (f.leave reason).Within symbols where
  entry entry hentry := by
    rw [(f.leave_spec reason).1] at hentry
    cases hentry
  given x hx := h.given x (f.given_leave reason x hx)

/-- What is routed to a feed is within its symbols. -/
theorem Within.take (h : f.Within symbols) (output : Output) : (f.take output).Within symbols := by
  unfold Feed.take
  cases hentry : f.entry with
  | none => exact h
  | some entry =>
    obtain ⟨hkind, hlive⟩ := h.entry entry hentry
    cases output with
    | marketEvent event =>
      simp only
      split_ifs with hwants
      · -- An event that is wanted is of a symbol that has a state.
        refine h.offer ⟨fun _ he => (by cases he), hlive _ ?_⟩
        unfold Subscriber.wants at hwants
        show (entry.live event.symbol).isSome = true
        cases hstate : entry.live event.symbol with
        | none => simp [hstate] at hwants
        | some state => rfl
      · exact h
    | reply reply =>
      simp only
      rw [if_neg fun hmine => by rw [hkind] at hmine; cases hmine.1]
      exact h
    | snapshotReady ready =>
      simp only
      split_ifs
      · exact h
      · cases hstate : entry.live ready.symbol with
        | none => exact h
        | some state =>
          simp only
          split_ifs
          · exact h
          · have hmem : ready.symbol ∈ symbols := hlive _ (Option.isSome_of_eq_some hstate)
            refine Within.offer ⟨fun entry' hentry' => ?_, h.given⟩ ⟨fun _ he => (by cases he), hmem⟩
            obtain rfl := Option.some.inj hentry'
            refine ⟨hkind, fun symbol hsome => ?_⟩
            by_cases hsymbol : symbol = ready.symbol
            · rw [hsymbol]
              exact hmem
            · refine hlive symbol ?_
              simpa [Function.update_of_ne hsymbol] using hsome
    | outboxClosed => exact h.leave _

/-- Every action keeps a feed within its symbols. -/
theorem Within.act (h : f.Within symbols) (a : Publisher.Action) : (f.act a).Within symbols := by
  cases a with
  | take output => exact h.take output
  | subscribe gatewayId symbols fromSeq => exact h
  | subscribeReplies gatewayId => exact h
  | unsubscribe id =>
    unfold Feed.act
    simp only
    split_ifs
    · exact h.leave _
    · exact h
  | nextFor id =>
    unfold Feed.act
    simp only
    split_ifs
    · refine ⟨h.entry, fun x hx => h.given x ?_⟩
      have hsame := f.sub.nextFor_spec.2.2.2
      unfold Feed.given at hx ⊢
      rwa [← hsame]
    · exact h

end Feed

namespace Publisher

variable {p p' : Publisher} {symbol : SymbolId} {id : SubscriberId} {gatewayId : GatewayId}
  {symbols : List SymbolId} {fromSeq : FromSeq} {outputs : List Output}

/-- A new market feed has been given its replay only. -/
theorem within_register (h : p.Wf) (hrecorded : p.Recorded) (stats : PublisherStats)
    (hpasses : p.Passes gatewayId symbols fromSeq) :
    ((register { p with stats } (p.newSub gatewayId symbols fromSeq)
      { live := symbolStates fromSeq (p.asked symbols) }).feed p.nextId).Within (p.asked symbols) := by
  obtain ⟨-, hfeed, -⟩ := hpasses.register_spec h stats
  rw [hfeed]
  constructor
  case entry =>
    intro entry hentry
    obtain rfl := Option.some.inj hentry
    refine ⟨rfl, fun symbol hsome => ?_⟩
    -- Only the symbols asked for have a state.
    unfold symbolStates at hsome
    by_contra hout
    simp [hout] at hsome
  case given =>
    intro item hitem
    obtain ⟨symbol, hasked, hmem⟩ := List.mem_flatMap.mp hitem
    refine ⟨?_, ?_⟩
    · rintro reply rfl
      unfold replayOf at hmem
      cases hlookup : fromSeq.lookup symbol <;> simp [hlookup] at hmem
    · rw [symbol_replayOf hrecorded fromSeq symbol item hmem]
      exact hasked

/-! ## From the snapshot on -/

/-- What a subscriber is due for a symbol that it waits for, after some outputs: nothing before its
snapshot, then the snapshot and the events of the symbol behind it. -/
inductive DueFrom (id : SubscriberId) (symbol : SymbolId) (outputs : List Output) : List FeedItem → Prop
  /-- There is no snapshot for it. -/
  | waiting (none : ∀ ready, .snapshotReady ready ∈ outputs → ready.symbol = symbol →
      ready.subscriber ≠ id) : DueFrom id symbol outputs []
  /-- The first snapshot for it, and the events behind. -/
  | live (before : List Output) (ready : SnapshotReady) (after : List Output)
      (split : outputs = before ++ .snapshotReady ready :: after) (subscriber : ready.subscriber = id)
      (symbol_eq : ready.symbol = symbol)
      (first : ∀ ready, .snapshotReady ready ∈ before → ready.symbol = symbol →
        ready.subscriber ≠ id) :
      DueFrom id symbol outputs (.snapshotReady ready :: (marketEventsOf symbol after).map .marketEvent)

/-- An output that is not its snapshot makes nothing due. -/
theorem dueFrom_cons {output : Output} {due : List FeedItem}
    (hout : ∀ ready, output = .snapshotReady ready → ready.symbol = symbol → ready.subscriber ≠ id)
    (h : DueFrom id symbol outputs due) : DueFrom id symbol (output :: outputs) due := by
  have hnone : ∀ {outputs : List Output}, (∀ ready, .snapshotReady ready ∈ outputs →
      ready.symbol = symbol → ready.subscriber ≠ id) → ∀ ready,
        .snapshotReady ready ∈ output :: outputs → ready.symbol = symbol → ready.subscriber ≠ id := by
    intro outputs hrest ready hmem
    rcases List.mem_cons.mp hmem with heq | hmem
    · exact hout ready heq.symm
    · exact hrest ready hmem
  cases h with
  | waiting none => exact .waiting (hnone none)
  | live before ready after split subscriber symbol_eq first =>
    exact .live (output :: before) ready after (by rw [split]; rfl) subscriber symbol_eq (hnone first)

/-- **Waiting.** -/
theorem due_of_waiting (id : SubscriberId) (symbol : SymbolId) (outputs : List Output) :
    DueFrom id symbol outputs (due id symbol ⟨{}, []⟩ outputs).items := by
  induction outputs with
  | nil => exact .waiting fun _ hmem => by cases hmem
  | cons output outputs ih =>
    have hstep : due id symbol ⟨{}, []⟩ (output :: outputs) =
        due id symbol (Due.take id symbol ⟨{}, []⟩ output) outputs := rfl
    rw [hstep]
    cases output with
    | snapshotReady ready =>
      unfold Due.take
      simp only
      by_cases hmine : ready.subscriber = id ∧ ready.symbol = symbol
      · rw [if_pos ⟨hmine.1, hmine.2, trivial⟩, due_of_live]
        -- Every event behind the snapshot is wanted.
        have hall : (marketEventsOf symbol outputs).filter (fun event => (0 : Seq) ≤ event.seq) =
            marketEventsOf symbol outputs := List.filter_eq_self.mpr fun _ _ => by simp
        rw [hall]
        exact .live [] ready outputs rfl hmine.1 hmine.2 fun _ hmem => by cases hmem
      · rw [if_neg fun hd => hmine ⟨hd.1, hd.2.1⟩]
        refine dueFrom_cons (fun other heq hsymbol hid => hmine ?_) ih
        obtain rfl := Output.snapshotReady.inj heq
        exact ⟨hid, hsymbol⟩
    | marketEvent event =>
      unfold Due.take
      simp only
      rw [if_neg fun hd => by simp at hd]
      exact dueFrom_cons (fun _ heq => by cases heq) ih
    | reply reply => exact dueFrom_cons (fun _ heq => by cases heq) ih
    | outboxClosed => exact dueFrom_cons (fun _ heq => by cases heq) ih

end Publisher

/-- The events of a symbol are those of its market events. -/
theorem eventsOf_eq (symbol : SymbolId) (outputs : List Output) :
    eventsOf symbol outputs = (marketEventsOf symbol outputs).map MarketEvent.event := by
  unfold eventsOf marketEventsOf
  rw [List.map_filterMap]
  refine List.filterMap_congr fun output _ => ?_
  cases output with
  | marketEvent e =>
    unfold Output.eventOn Output.marketEventOn
    simp only
    split_ifs <;> rfl
  | _ => rfl

namespace EngineNode

variable {n n' : EngineNode} {symbol : SymbolId} {id : SubscriberId} {since before after : List Output}
  {ready : SnapshotReady} {a : Action}

/-- A property of a subscription and of what the publisher has taken that every action keeps. -/
structure Kept (id : SubscriberId) (I : List Output → Feed → Prop) : Prop where
  /-- An output that is taken keeps it. -/
  take : ∀ since f output, f.sub.id = id → I since f → I (since ++ [output]) (f.take output)
  /-- Every other action keeps it. -/
  act : ∀ since f a, (∀ output, a ≠ .take output) → I since f → I since (f.act a)
  /-- A consumer that is dropped keeps it. -/
  slow : ∀ since f, I since f → I since (f.leave .slowConsumer)

section Kept

variable {I : List Output → Feed → Prop}

/-- One step of the node keeps the property of a subscription. -/
theorem Kept.step (hkept : Kept id I) (h : n.Sound) (hid : id < n.publisher.nextId)
    (hI : I since (n.publisher.feed id)) (hstep : n.step a = some n') :
    id < n'.publisher.nextId ∧ ∃ more, n'.publisher.routed = n.publisher.routed ++ more ∧
      I (since ++ more) (n'.publisher.feed id) := by
  have hstay : n'.publisher = n.publisher → id < n'.publisher.nextId ∧ ∃ more,
      n'.publisher.routed = n.publisher.routed ++ more ∧ I (since ++ more) (n'.publisher.feed id) := by
    intro hsame
    rw [hsame]
    exact ⟨hid, [], (List.append_nil _).symm, by rwa [List.append_nil]⟩
  cases does_of_step hstep with
  | queue worker publisher outbox => exact hstay publisher
  | work i item w idle run worker publisher outbox => exact hstay publisher
  | push i output outputs pending worker publisher outbox => exact hstay publisher
  | route output open_ act worker outbox =>
    obtain ⟨hdrops, hdropped, hwf⟩ := Publisher.dropAll_spec (p := n.publisher) n.tooSlow
    set q := n.tooSlow.foldl Publisher.dropSlow n.publisher
    have hwf := hwf h.publisher
    -- The drops come first, then the output.
    have hI' : I since (q.feed id) := by
      rw [hdrops]
      split_ifs
      · exact hkept.slow _ _ hI
      · exact hI
    have hid' : id < q.nextId := hdropped.nextId ▸ hid
    obtain ⟨_, hact, -, hfeed, hnext, -⟩ := Publisher.act_spec hwf (.take output)
    obtain rfl := Except.ok.inj (act.symm.trans hact)
    obtain ⟨-, -, hrouted⟩ := hwf.take_records (h.recorded.congr hdropped)
      (hdropped.closed.trans open_) act
    refine ⟨hid'.trans_le hnext, [output], hdropped.routed ▸ hrouted, ?_⟩
    rw [hfeed id hid']
    exact hkept.take _ _ _ (hwf.id_eq id) hI'
  | publisher a takes act worker outbox =>
    obtain ⟨_, hact, -, hfeed, hnext, -⟩ := Publisher.act_spec h.publisher a
    obtain rfl := Except.ok.inj (act.symm.trans hact)
    refine ⟨hid.trans_le hnext, [], ?_, ?_⟩
    · rw [h.publisher.routed_act act takes, List.append_nil]
    · rw [hfeed id hid, List.append_nil]
      exact hkept.act _ _ _ takes hI

/-- What every action keeps, every run keeps. -/
theorem Kept.run (hkept : Kept id I) (since : List Output) (h : n.Sound) (hid : id < n.publisher.nextId)
    (hI : I since (n.publisher.feed id)) {actions : List Action} (hrun : n.run actions = some n') :
    ∃ more, n'.publisher.routed = n.publisher.routed ++ more ∧
      I (since ++ more) (n'.publisher.feed id) := by
  induction actions generalizing n since with
  | nil =>
    obtain rfl := Option.some.inj hrun
    exact ⟨[], (List.append_nil _).symm, by rwa [List.append_nil]⟩
  | cons a actions ih =>
    obtain ⟨n₁, hstep, hrest⟩ := Option.bind_eq_some_iff.mp hrun
    obtain ⟨hid₁, more, hmore, hI₁⟩ := hkept.step h hid hI hstep
    obtain ⟨rest, hrouted, hI'⟩ := ih _ (h.step hstep) hid₁ hI₁ hrest
    refine ⟨more ++ rest, ?_, ?_⟩
    · rw [hrouted, hmore, List.append_assoc]
    · rwa [← List.append_assoc]

/-- Whatever the threads do, a feed is given what it is due for a symbol. -/
theorem kept_follows (id : SubscriberId) (symbol : SymbolId) :
    Kept id fun since f => Follows f symbol (Publisher.due id symbol ⟨{}, []⟩ since) where
  take since f output hid h := by
    have htake := h.take output
    rw [hid] at htake
    unfold Publisher.due at htake ⊢
    rwa [List.foldl_append]
  act since f a htakes h := by
    have hact := h.act a
    cases a with
    | take output => exact absurd rfl (htakes output)
    | _ => exact hact
  slow since f h := h.leave (by simp)

/-- Whatever the threads do, a feed is given nothing of other symbols. -/
theorem kept_within (id : SubscriberId) (symbols : List SymbolId) :
    Kept id fun _ f => f.Within symbols where
  take _ _ output _ h := h.take output
  act _ _ a _ h := h.act a
  slow _ _ h := h.leave _

end Kept

/-- The publisher after a subscription is the one that it answers with. -/
theorem publisher_subscribe {gatewayId : GatewayId} {asked : List SymbolId} {fromSeq : FromSeq}
    {p : Publisher} {result : SubscribeResult} {snapshots : List SymbolId}
    (hsubscribe : n.publisher.subscribe gatewayId asked fromSeq = .ok (p, result, snapshots))
    (hstep : n.step (.subscribe gatewayId asked fromSeq) = some n') : n'.publisher = p := by
  replace hstep : n.subscribe gatewayId asked fromSeq = some n' := hstep
  unfold subscribe at hstep
  rw [hsubscribe] at hstep
  split_ifs at hstep
  obtain rfl := Option.some.inj hstep
  simp only
  cases result.subscription <;> rfl

/-- The events behind a snapshot are the next ones of the book. -/
theorem Sound.behind (h : n.Sound) (hsymbol : ready.symbol = symbol)
    (hrouted : n.publisher.routed = before ++ .snapshotReady ready :: after) :
    ∃ i hosted, (n.worker i).books symbol = some hosted ∧
      eventsOf symbol after <+: hosted.book.events.drop ready.snapshot.asOfSequence ∧
      NumberedBy EngineEvent.sequenceNumber hosted.book.events := by
  have hshown : outputsFor symbol n.pushed = outputsFor symbol before ++
      .snapshotReady ready :: outputsFor symbol (after ++ n.outbox) := by
    unfold EngineNode.pushed
    rw [hrouted, List.append_assoc, outputsFor_append, List.cons_append]
    congr 1
    exact List.filter_cons_of_pos (decide_eq_true (congrArg some hsymbol))
  obtain ⟨i, hi⟩ := h.pushed symbol (by rw [hshown]; simp)
  obtain ⟨hosted, hbook⟩ := Option.isSome_iff_exists.mp hi
  obtain ⟨b, rfl, hcarries⟩ := h.streams i symbol hosted hbook
  refine ⟨i, b.hosted, hbook, ?_, hcarries.numbered.events⟩
  rw [hshown, List.append_assoc, List.cons_append] at hcarries
  -- The snapshot says how many events are before it.
  have hasOf : ready.snapshot.asOfSequence = (eventsOf symbol before).length := by
    rw [hcarries.snapshots _ _ _ rfl ready rfl, eventsOf_outputsFor]
  have hevents : b.events = eventsOf symbol before ++ (eventsOf symbol after ++
      eventsOf symbol (outputsFor symbol n.outbox ++ outputsFor symbol (n.worker i).outbox)) := by
    rw [← hcarries.events, outputsFor_append, Worker.eventsOf_append, eventsOf_outputsFor]
    show _ ++ eventsOf symbol ((outputsFor symbol after ++ outputsFor symbol n.outbox) ++ _) = _
    rw [List.append_assoc, Worker.eventsOf_append, eventsOf_outputsFor]
  show eventsOf symbol after <+: b.events.drop _
  rw [hasOf, hevents, List.drop_left]
  exact List.prefix_append _ _

/-- A subscription that has been given a symbol from a snapshot on; `since` is what the publisher has
taken since it was registered. -/
structure FromSnapshot (n : EngineNode) (id : SubscriberId) (symbol : SymbolId) (since : List Output) :
    Prop where
  /-- What its consumer has popped of the symbol: nothing, or a snapshot and the next events of the
  book. -/
  popped : itemsOn symbol (n.publisher.subs id).popped = [] ∨
    ∃ (ready : SnapshotReady) (events : List MarketEvent),
      itemsOn symbol (n.publisher.subs id).popped = .snapshotReady ready :: events.map .marketEvent ∧
      events.map MarketEvent.seq = List.range' (ready.snapshot.asOfSequence + 1) events.length ∧
      ∃ i hosted, (n.worker i).books symbol = some hosted ∧
        events.map MarketEvent.event <+: hosted.book.events.drop ready.snapshot.asOfSequence
  /-- That is a beginning of what it is due, all of which is popped or queued until it ends. -/
  complete : ∃ due, Publisher.DueFrom id symbol since due ∧
    itemsOn symbol (n.publisher.subs id).popped <+: due ∧
    ((n.publisher.subs id).endReason = .none →
      itemsOn symbol ((n.publisher.subs id).popped ++ (n.publisher.subs id).items) = due)

/-- A feed that is given what it is due has been given the symbol from a snapshot on. -/
theorem Sound.fromSnapshot (h : n.Sound) {routed : List Output}
    (hrouted : n.publisher.routed = routed ++ since)
    (hfollows : Follows (n.publisher.feed id) symbol (Publisher.due id symbol ⟨{}, []⟩ since)) :
    n.FromSnapshot id symbol since := by
  have hdue := Publisher.due_of_waiting id symbol since
  have hpopped : itemsOn symbol (n.publisher.subs id).popped <+: _ := hfollows.popped
  constructor
  case complete =>
    refine ⟨_, hdue, hpopped, fun hopen => ?_⟩
    cases hentry : (n.publisher.feed id).entry with
    | none => exact absurd hopen (hfollows.ended hentry).1
    | some entry => exact (hfollows.registered entry hentry).2.2.2
  case popped =>
    generalize (Publisher.due id symbol ⟨{}, []⟩ since).items = due at hdue hpopped
    cases hdue with
    | waiting none => exact Or.inl (List.prefix_nil.mp hpopped)
    | live before ready after split subscriber symbol_eq first =>
      rcases List.prefix_cons_iff.mp hpopped with hnone | ⟨rest, hrest, hleads⟩
      · exact Or.inl hnone
      · obtain ⟨events, hevents, rfl⟩ := List.prefix_map_iff.mp hleads
        rw [split, ← List.append_assoc] at hrouted
        obtain ⟨i, hosted, hbook, hbehind, hnum⟩ := h.behind symbol_eq hrouted
        -- The events behind the snapshot are those of the book from its number on.
        have hnext : events.map MarketEvent.event <+:
            hosted.book.events.drop ready.snapshot.asOfSequence := by
          rw [eventsOf_eq] at hbehind
          exact (hevents.map MarketEvent.event).trans hbehind
        refine Or.inr ⟨ready, events, hrest, ?_, i, hosted, hbook, hnext⟩
        have hseq := hnum.map_of_isPrefix_drop hnext
        rwa [List.map_map, List.length_map] at hseq

/-- **Streams start from a snapshot.** In every run of a node, a market subscription is given, of each
symbol that it asked for without a sequence number, nothing or a snapshot as of `n` and the events of
the book from `n + 1` on. What its consumer has popped is a beginning of that, also when it was too
slow, and until it ends nothing of it is lost. It is given no reply, and nothing of another symbol. -/
theorem streams_from_snapshots (partitions : ℕ) (instruments : List Instrument)
    (options : PublisherOptions) (n₀ : EngineNode)
    (hmake : make partitions instruments options = .ok n₀) (actions : List Action) (n : EngineNode)
    (hrun : n₀.run actions = some n) (gatewayId : GatewayId) (asked : List SymbolId) (fromSeq : FromSeq)
    (p : Publisher) (result : SubscribeResult) (snapshots : List SymbolId) (id : SubscriberId)
    (hsubscribe : n.publisher.subscribe gatewayId asked fromSeq = .ok (p, result, snapshots))
    (hid : result.subscription = some id) (n₁ : EngineNode)
    (hstep : n.step (.subscribe gatewayId asked fromSeq) = some n₁) (later : List Action)
    (n₂ : EngineNode) (hlater : n₁.run later = some n₂) :
    ∃ since, n₂.publisher.routed = n.publisher.routed ++ since ∧
      (∀ symbol ∈ n.publisher.asked asked, fromSeq.lookup symbol = none →
        n₂.FromSnapshot id symbol since) ∧
      ∀ item ∈ (n₂.publisher.subs id).popped ++ (n₂.publisher.subs id).items,
        item.Among (n.publisher.asked asked) := by
  have hsound := (sound_make hmake).run hrun
  have hsound₁ := hsound.step hstep
  have hsound₂ := hsound₁.run hlater
  obtain rfl : n₁.publisher = p := publisher_subscribe hsubscribe hstep
  obtain ⟨_, _, _, hsubscribe', hcases⟩ := n.publisher.subscribe_spec gatewayId asked fromSeq
  obtain ⟨hp, rfl, rfl⟩ := Prod.mk.injEq .. ▸ Except.ok.inj (hsubscribe.symm.trans hsubscribe')
  cases hcases with
  | refused fails subscription => rw [hid] at subscription; cases subscription
  | tooOld passes gone subscription => rw [hid] at subscription; cases subscription
  | registered stats passes =>
    obtain rfl := Option.some.inj hid
    obtain ⟨-, hnext, hrouted₁, hfollows⟩ :=
      Publisher.follows_register hsound.publisher hsound.recorded stats passes
    have hwithin := Publisher.within_register hsound.publisher hsound.recorded stats passes
    rw [← hp] at hnext hrouted₁ hfollows hwithin
    obtain ⟨since, hsince, hwithin₂⟩ :=
      (kept_within n.publisher.nextId _).run [] hsound₁ hnext hwithin hlater
    rw [hrouted₁] at hsince
    refine ⟨since, hsince, fun symbol hasked hlookup => ?_, hwithin₂.given⟩
    have hstate : Publisher.symbolStates fromSeq (n.publisher.asked asked) symbol = some {} := by
      unfold Publisher.symbolStates
      rw [if_pos hasked, hlookup]
    have hnothing : n.publisher.replayOf fromSeq symbol = [] := by
      unfold Publisher.replayOf
      rw [hlookup]
    have hstart := hfollows symbol _ hstate
    rw [hnothing] at hstart
    obtain ⟨outputs, houtputs, hdue⟩ :=
      (kept_follows n.publisher.nextId symbol).run [] hsound₁ hnext hstart hlater
    -- Both runs of the rule have the same outputs.
    obtain rfl : since = outputs := by
      rw [hrouted₁, hsince] at houtputs
      exact List.append_cancel_left houtputs
    exact hsound₂.fromSnapshot hsince hdue

/-- Two workers, and a symbol each: an order rests before the request and is cancelled behind the
snapshot. -/
theorem streams_from_snapshots_two :
    let instruments : List Instrument :=
      [{ id := 1, partition := 0, cfg := { poolCapacity := 4 } },
       { id := 2, partition := 1, cfg := { poolCapacity := 4 } }]
    let order : Order := { id := 0, ownerId := 1, side := .buy, type := .limit, price := some 100,
                           quantity := 3 }
    let before : List Action :=
      [.submit 0 { seq := 7, ts := 5, command := .newOrder "" 1 order }, .work 0, .push 0, .push 0,
       .push 0, .route, .route, .route]
    let later : List Action :=
      [.request 1, .submit 0 { seq := 8, ts := 6, command := .cancelOrder "" 1 1 7 }, .work 0, .push 0,
       .work 0, .push 0, .push 0, .route, .route, .route, .nextFor 1, .nextFor 1]
    ∃ n₀ n p result snapshots n₁ n₂, make 2 instruments {} = .ok n₀ ∧ n₀.run before = some n ∧
      n.publisher.subscribe "gateway" [1] ∅ = .ok (p, result, snapshots) ∧
      n.step (.subscribe "gateway" [1] ∅) = some n₁ ∧ n₁.run later = some n₂ ∧
      (n₂.publisher.subs 1).popped.length = 2 ∧
      ∃ since, n₂.publisher.routed = n.publisher.routed ++ since ∧
        (∀ symbol ∈ n.publisher.asked [1], AList.lookup symbol (∅ : FromSeq) = none →
          n₂.FromSnapshot 1 symbol since) ∧
        ∀ item ∈ (n₂.publisher.subs 1).popped ++ (n₂.publisher.subs 1).items,
          item.Among (n.publisher.asked [1]) := by
  intro instruments order before later
  have hchain : ((make 2 instruments {}).toOption.bind fun n₀ => (n₀.run before).bind fun n =>
      (n.publisher.subscribe "gateway" [1] ∅).toOption.bind fun answer =>
        (n.step (.subscribe "gateway" [1] ∅)).bind fun n₁ => (n₁.run later).map fun n₂ =>
          (answer.2.1.subscription, (n₂.publisher.subs 1).popped.length)) = some (some 1, 2) := by
    decide +kernel
  obtain ⟨n₀, hmake, hchain⟩ := Option.bind_eq_some_iff.mp hchain
  obtain ⟨n, hrun, hchain⟩ := Option.bind_eq_some_iff.mp hchain
  obtain ⟨⟨p, result, snapshots⟩, hsubscribe, hchain⟩ := Option.bind_eq_some_iff.mp hchain
  obtain ⟨n₁, hstep, hchain⟩ := Option.bind_eq_some_iff.mp hchain
  obtain ⟨n₂, hlater, hlast⟩ := Option.map_eq_some_iff.mp hchain
  obtain ⟨hid, hpopped⟩ := Prod.mk.inj hlast
  have hmake := ok_of_toOption hmake
  have hsubscribe := ok_of_toOption hsubscribe
  exact ⟨n₀, n, p, result, snapshots, n₁, n₂, hmake, hrun, hsubscribe, hstep, hlater, hpopped,
    streams_from_snapshots 2 instruments {} n₀ hmake before n hrun "gateway" [1] ∅ p result snapshots 1
      hsubscribe hid n₁ hstep later n₂ hlater⟩

end EngineNode

end OrderBookEngine
