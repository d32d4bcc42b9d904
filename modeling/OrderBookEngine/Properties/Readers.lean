import OrderBookEngine.Properties.Messages
import OrderBookEngine.Properties.Requested

/-!
# Readers rebuild the books

A snapshot that is pushed shows the book after some of the calls of its symbol, and the events behind it that
have been published are the next ones of the book (`Sound.splits`). So a replica that loads the one and applies
the others reads the book (`Running.replica`). A subscription is due just that of each symbol that it waits
for, and a reader of its stream therefore has the books that the workers have, as far as it has read.
-/

namespace OrderBookEngine

/-! ## The snapshots of a worker -/

namespace Worker

variable {cfgs : SymbolId → Option Config} {inbox : List Stamped} {w : Worker} {symbol : SymbolId} {cfg : Config}

/-- The calls of an inbox are those of its items. -/
theorem made_of_mem_callsFrom {c : Call} {last : ℤ} (h : c ∈ callsFrom symbol last inbox) :
    ∃ item ∈ inbox, ∃ call now, item.call? = some call ∧ c = call now := by
  induction inbox generalizing last with
  | nil => cases h
  | cons item inbox ih =>
    rw [callsFrom] at h
    rcases List.mem_append.mp h with h | h
    · obtain ⟨-, call, hcall, rfl⟩ := Stamped.call?_of_callOn (Option.mem_toList.mp h)
      exact ⟨item, List.mem_cons_self, call, _, hcall, rfl⟩
    · obtain ⟨item', hmem, hitem'⟩ := ih h
      exact ⟨item', List.mem_cons_of_mem _ hmem, hitem'⟩

/-- A snapshot is of the book after some of the calls. -/
theorem snapshot_of_mem (howned : Owned cfgs inbox) (hrun : (make cfgs).run inbox = some w) {ready : SnapshotReady}
    (hready : .snapshotReady ready ∈ w.outbox) (hcfg : cfgs ready.symbol = some cfg) :
    ∃ before after, callsFrom ready.symbol 0 inbox = before ++ after ∧
      ready.snapshot = ((Book.make cfg).run before).snapshot := by
  obtain ⟨w', hrun', -, hfrom⟩ := serves (P := fun inbox w => ∀ o ∈ w.outbox, FromItem cfgs inbox o)
    (fun o ho => absurd ho List.not_mem_nil) (fun htakes => htakes.from_item) inbox howned
  obtain rfl := Option.some.inj (hrun'.symm.trans hrun)
  obtain ⟨before, item, after, symbol, cfg', rfl, hsymbol, hcfg', hmem⟩ := hfrom _ hready
  -- The outputs for a command hold no snapshot.
  rcases Stamped.call_or_snapshot hsymbol with ⟨call, hcall, -⟩ | ⟨subscriber, hcommand⟩
  · rw [outputsAfter, Stamped.outputs_of_call hsymbol hcall] at hmem
    rcases List.mem_append.mp hmem with hmem | hmem
    · obtain ⟨e, -, he⟩ := List.mem_map.mp hmem
      cases he
    · cases List.mem_singleton.mp hmem
  · rw [outputsAfter, Stamped.outputs_of_snapshot hcommand] at hmem
    obtain rfl := Output.snapshotReady.inj (List.mem_singleton.mp hmem)
    obtain rfl := Option.some.inj (hcfg'.symm.trans hcfg)
    exact ⟨_, _, callsFrom_append symbol 0 before (item :: after), rfl⟩

end Worker

/-- An order that has been received has not been filled. -/
theorem Command.unfilled {item : Stamped} {clientOrderId : ClientOrderId} {symbol : SymbolId} {call : ℤ → Call}
    (hreceived : item.command.received symbol clientOrderId = item.command) (hcall : item.call? = some call)
    (now : ℤ) : Market.Unfilled (call now) := by
  intro order now' horder
  unfold Stamped.call? at hcall
  cases hcommand : item.command with
  | newOrder x y order' =>
    rw [hcommand] at hreceived hcall
    obtain rfl := Option.some.inj hcall
    obtain ⟨rfl, -⟩ := Call.addOrder.inj horder
    -- The message has no field for what is filled.
    obtain ⟨-, -, hsame⟩ := Command.newOrder.inj hreceived
    show order'.filled = 0
    rw [← hsame]
  | shutdown =>
    rw [hcommand] at hcall
    cases hcall
  | takeSnapshot x y =>
    rw [hcommand] at hcall
    cases hcall
  | _ =>
    rw [hcommand] at hcall
    obtain rfl := Option.some.inj hcall
    cases horder

namespace EngineNode

variable {n : EngineNode} {i : ℕ} {hosted : Hosted} {before after : List Output} {ready : SnapshotReady}
  {symbol : SymbolId} {r : BookReplica}

/-- A replica has read the book of a symbol as far as it goes. -/
def Replicates (n : EngineNode) (symbol : SymbolId) (r : BookReplica) : Prop :=
  ∃ i hosted, (n.worker i).books symbol = some hosted ∧ r.Reads hosted.book.events

/-- A replica shows the book of a symbol. -/
def Shows (n : EngineNode) (symbol : SymbolId) (r : BookReplica) : Prop :=
  ∃ i hosted snap, (n.worker i).books symbol = some hosted ∧ r.toSnapshot = .ok snap ∧
    snap.Same hosted.book.snapshot

/-- What is published around a snapshot, with what is not yet published, are the events of the book. -/
theorem Sound.splits (h : n.Sound) (hbook : (n.worker i).books ready.symbol = some hosted)
    (hrouted : n.publisher.routed = before ++ .snapshotReady ready :: after) :
    ready.snapshot.asOfSequence = (eventsOf ready.symbol before).length ∧
      eventsOf ready.symbol before ++ (eventsOf ready.symbol after ++
        eventsOf ready.symbol (n.outbox ++ (n.worker i).outbox)) = hosted.book.events := by
  obtain ⟨b, rfl, hcarries⟩ := h.streams i ready.symbol hosted hbook
  have hshown : outputsFor ready.symbol n.pushed ++ outputsFor ready.symbol (n.worker i).outbox =
      outputsFor ready.symbol before ++ .snapshotReady ready ::
        outputsFor ready.symbol (after ++ (n.outbox ++ (n.worker i).outbox)) := by
    unfold EngineNode.pushed
    rw [hrouted, ← outputsFor_append, List.append_assoc, List.append_assoc, List.cons_append, outputsFor_append]
    congr 1
    exact List.filter_cons_of_pos (decide_eq_true rfl)
  rw [hshown] at hcarries
  constructor
  · rw [hcarries.snapshots _ _ _ rfl ready rfl, eventsOf_outputsFor]
  · calc eventsOf ready.symbol before ++ (eventsOf ready.symbol after ++
          eventsOf ready.symbol (n.outbox ++ (n.worker i).outbox))
        = eventsOf ready.symbol (outputsFor ready.symbol before) ++
            eventsOf ready.symbol (outputsFor ready.symbol (after ++ (n.outbox ++ (n.worker i).outbox))) := by
          rw [eventsOf_outputsFor, eventsOf_outputsFor, Worker.eventsOf_append _ after]
      _ = eventsOf ready.symbol (outputsFor ready.symbol before ++ .snapshotReady ready ::
            outputsFor ready.symbol (after ++ (n.outbox ++ (n.worker i).outbox))) :=
          -- The snapshot is no event.
          (Worker.eventsOf_append ready.symbol _ (.snapshotReady ready :: _)).symm
      _ = b.events := hcarries.events

end EngineNode

/-- A subscriber whose snapshot has been published is due something. -/
theorem Publisher.DueFrom.ne_nil {id : SubscriberId} {symbol : SymbolId} {outputs : List Output}
    {due : List FeedItem} {ready : SnapshotReady} (h : Publisher.DueFrom id symbol outputs due)
    (hready : .snapshotReady ready ∈ outputs) (hsymbol : ready.symbol = symbol) (hid : ready.subscriber = id) :
    due ≠ [] := by
  cases h with
  | waiting none => exact absurd hid (none ready hready hsymbol)
  | live before ready' after split subscriber symbol_eq first => exact List.cons_ne_nil _ _

namespace Process

open BookReplica EngineNode

variable {pb : Protobuf} {p : Process} {ready : SnapshotReady} {before after since : List Output}
  {id : SubscriberId} {symbol : SymbolId} {items due : List FeedItem}

/-- There is nothing beyond the partitions. -/
theorem Running.beyond (h : p.Running pb) {i : ℕ} (hi : p.partitions ≤ i) :
    (p.node.threads i).inbox = [] ∧ (p.node.worker i).outbox = [] := by
  -- A worker behind the last partition hosts no symbol.
  have hnone : ∀ symbol, p.cfgs i symbol = none := by
    intro symbol
    by_contra hsome
    obtain ⟨cfg, hcfg⟩ := Option.ne_none_iff_exists'.mp hsome
    exact absurd (h.listed.lt_of_cfgsOf hcfg) (not_lt.mpr hi)
  obtain ⟨taken, waiting, hworks⟩ := h.works i
  have hwaiting : waiting = [] := List.eq_nil_iff_forall_not_mem.mpr fun item hitem => by
    obtain ⟨symbol, cfg, -, hcfg⟩ := hworks.owned item hitem
    rw [hnone] at hcfg
    cases hcfg
  have hpilled : p.phase.pilled p.partitions i = false := by
    unfold Phase.pilled
    cases p.phase with
    | serving => rfl
    | stoppingFeed j called => rfl
    | stoppingWorker j called => exact decide_eq_false fun hlt => absurd hlt.1 (not_lt.mpr hi)
    | _ => exact decide_eq_false (not_lt.mpr hi)
  refine ⟨?_, (hworks.serving.of_none hnone).2⟩
  cases hworks.queued with
  | serving not_pilled running inbox => exact inbox.trans hwaiting
  | stopping pill rest is_pilled running shutdown inbox =>
    rw [hpilled] at is_pilled
    cases is_pilled
  | returned is_pilled stopped nothing idle =>
    rw [hpilled] at is_pilled
    cases is_pilled

/-- The book of a symbol, and the snapshots of it that have been pushed. -/
theorem Running.book (h : p.Running pb) {i : ℕ} {cfg : Config} (hcfg : p.cfgs i symbol = some cfg) :
    ∃ calls, (p.node.worker i).books symbol = some ((Book.make cfg).run calls).hosted ∧
      (∀ c ∈ calls, Market.Unfilled c) ∧
      ∀ ready : SnapshotReady, .snapshotReady ready ∈ p.node.pushed → ready.symbol = symbol →
        ∃ before after, calls = before ++ after ∧ ready.snapshot = ((Book.make cfg).run before).snapshot := by
  obtain ⟨taken, waiting, hworks⟩ := h.works i
  obtain ⟨w, hrun, houtbox⟩ := hworks.serving.run
  refine ⟨Worker.callsFrom symbol 0 taken, ?_, fun c hc => ?_, ?_⟩
  · rw [hworks.serving.serves.books, hcfg]
    rfl
  · obtain ⟨item, hitem, call, now, hcall, rfl⟩ := Worker.made_of_mem_callsFrom hc
    -- The item is one of the commands that the feed has decoded.
    have hcommand : item ∈ p.submitted i := by
      rw [← hworks.commands]
      refine List.mem_filter.mpr ⟨List.mem_append_left _ hitem, ?_⟩
      rw [Stamped.isSnapshot_of_call? hcall]
      rfl
    rw [(h.feed_of_partition i).1] at hcommand
    obtain ⟨command, -, hstamped⟩ := List.mem_filterMap.mp hcommand
    obtain ⟨decoded, hdecoded, rfl⟩ := Option.map_eq_some_iff.mp hstamped
    have hreceived : decoded.received command.symbol command.clientOrderId = decoded := by
      unfold Protobuf.decodeBody at hdecoded
      split_ifs at hdecoded
      cases hparse : pb.parse command.payload with
      | none => simp [hparse] at hdecoded
      | some message =>
        simp only [hparse] at hdecoded
        exact (Protobuf.commandOf_eq_some _ hdecoded).2.2
    exact Command.unfilled hreceived hcall now
  · rintro ready hready rfl
    refine Worker.snapshot_of_mem hworks.serving.owned hrun ?_ hcfg
    rw [houtbox]
    refine List.mem_append_left _ (List.mem_filter.mpr ⟨hready, ?_⟩)
    show (p.cfgs i ready.symbol).isSome = true
    rw [hcfg]
    rfl

/-- A replica that starts from a snapshot that has been published applies the events of the symbol behind it, one
after the other, and shows the book when no event is missing. -/
theorem Running.replica (h : p.Running pb) (hsound : p.node.Sound) (hfits : p.node.Fits)
    (hrouted : p.node.publisher.routed = before ++ .snapshotReady ready :: after) :
    ∃ r₀, BookReplica.load ready.snapshot = .ok r₀ ∧ ∀ events, events <+: eventsOf ready.symbol after →
      ∃ r, r₀.applyAll events = .ok r ∧ p.node.Replicates ready.symbol r ∧
        (events = eventsOf ready.symbol after → p.node.outbox = [] → (∀ i, (p.node.worker i).outbox = []) →
          p.node.Shows ready.symbol r) := by
  have hready : Output.snapshotReady ready ∈ p.node.pushed := by
    unfold EngineNode.pushed
    rw [hrouted]
    exact List.mem_append_left _ (List.mem_append_right _ List.mem_cons_self)
  rcases h.known _ hready with hpill | ⟨i, hi⟩
  · cases hpill
  obtain ⟨cfg, hcfg⟩ := Option.isSome_iff_exists.mp hi
  obtain ⟨calls, hbook, hunfilled, hsnapshots⟩ := h.book hcfg
  obtain ⟨first, rest, rfl, hsnapshot⟩ := hsnapshots ready hready rfl
  obtain ⟨hasOf, hevents⟩ := hsound.splits hbook hrouted
  rw [Book.book_hosted] at hevents
  set cut := (Book.make cfg).run first with hcut
  set book := (Book.make cfg).run (first ++ rest) with hbookRun
  -- The events before the snapshot are those of the book that it is of.
  have hbefore : eventsOf ready.symbol before = cut.events := by
    have hgrows : cut.events <+: book.events := by
      rw [hbookRun, Book.run_append]
      exact (Book.spans_run cut rest).grows
    have hlength : (eventsOf ready.symbol before).length = cut.events.length := by
      have hnumbered : cut.Numbered := (Book.spans_run _ first).numbered ⟨rfl, rfl⟩
      rw [← hasOf, hsnapshot]
      show cut.nextSeq - 1 = _
      rw [hnumbered.nextSeq, Nat.add_sub_cancel]
    exact (List.prefix_of_prefix_length_le (hevents ▸ List.prefix_append _ _) hgrows hlength.le).eq_of_length hlength
  obtain ⟨r₀, hload, hreads⟩ := Book.replica_reads cfg first rest (hfits i _ _ hbook) hunfilled
  refine ⟨r₀, hsnapshot ▸ hload, fun events hleads => ?_⟩
  have hall : cut.events ++ events <+: book.events := by
    rw [← hevents, hbefore]
    exact (List.prefix_append_right_inj _).mpr (hleads.trans (List.prefix_append _ _))
  obtain ⟨r, happly, hseq, hr, hwhole⟩ := hreads events hall
  refine ⟨r, happly, ⟨i, book.hosted, hbook, hr⟩, ?_⟩
  rintro rfl houtbox hidle
  have hfull : cut.events ++ eventsOf ready.symbol after = book.events := by
    have hnone : eventsOf ready.symbol (p.node.outbox ++ (p.node.worker i).outbox) = [] := by
      rw [houtbox, hidle i]
      rfl
    rw [← hevents, hnone, List.append_nil, hbefore]
  obtain ⟨snap, hsnap, hsame⟩ := hwhole (hseq.trans (congrArg List.length hfull))
  exact ⟨i, book.hosted, snap, hbook, hsnap, hsame⟩

/-- What has been read of what a subscriber is due for a symbol that it waits for is a replica of the book. -/
theorem Running.builds (h : p.Running pb) (hsound : p.node.Sound) (hfits : p.node.Fits) {routed : List Output}
    (hrouted : p.node.publisher.routed = routed ++ since) (hdue : Publisher.DueFrom id symbol since due)
    (hitems : items <+: due) :
    ∃ b, Builds items b ∧ ∀ r, b = some r → p.node.Replicates symbol r ∧
      (items = due → p.node.outbox = [] → (∀ i, (p.node.worker i).outbox = []) → p.node.Shows symbol r) := by
  have hnothing : ∃ b, Builds [] b ∧ ∀ r, b = some r → p.node.Replicates symbol r ∧
      ([] = due → p.node.outbox = [] → (∀ i, (p.node.worker i).outbox = []) → p.node.Shows symbol r) :=
    ⟨none, .nothing, fun r hr => by cases hr⟩
  cases hdue with
  | waiting none =>
    obtain rfl := List.prefix_nil.mp hitems
    exact hnothing
  | live before ready after split subscriber symbol_eq first =>
    subst symbol_eq
    rcases List.prefix_cons_iff.mp hitems with rfl | ⟨rest, rfl, hrest⟩
    · exact hnothing
    obtain ⟨events, hevents, rfl⟩ := List.prefix_map_iff.mp hrest
    rw [split, ← List.append_assoc] at hrouted
    -- The replica of the snapshot is fed with the events that follow it.
    obtain ⟨r₀, hload, hreplica⟩ := h.replica hsound hfits hrouted
    rw [eventsOf_eq] at hreplica
    obtain ⟨r, happly, hr, hshows⟩ := hreplica _ (hevents.map MarketEvent.event)
    refine ⟨some r, .book ready events r₀ r hload happly, fun r' hr' => ?_⟩
    obtain rfl := Option.some.inj hr'
    refine ⟨hr, fun hall => hshows ?_⟩
    -- All items have been taken, and so all events of the symbol.
    have hsame : events = marketEventsOf ready.symbol after :=
      List.map_injective_iff.mpr Builds.marketEvent_injective (List.cons.inj hall).2
    rw [hsame]

end Process

/-! ## A subscription that waits for its symbols -/

namespace EngineNode

variable {n n₁ n₂ : EngineNode} {id : SubscriberId} {symbols asked : List SymbolId} {since : List Output}
  {gatewayId : GatewayId}

/-- A subscription waits for some symbols: `since` is what the publisher has taken behind the `seen` outputs that
it had taken before. -/
structure Subscribed (n : EngineNode) (id : SubscriberId) (symbols : List SymbolId) (seen : ℕ)
    (since : List Output) : Prop where
  /-- It gets nothing of other symbols. -/
  within : (n.publisher.feed id).Within symbols
  /-- It has been given what it is due. -/
  follows : ∀ symbol ∈ symbols, Follows (n.publisher.feed id) symbol (Publisher.due id symbol ⟨{}, []⟩ since)
  /-- If it ended with the publisher, it had been given all of that. -/
  whole : ∀ symbol ∈ symbols, Whole id symbol since (n.publisher.feed id)
  /-- The snapshots it needs are on their way. -/
  requested : ∀ symbol ∈ symbols, n.OnItsWay seen id symbol

/-- A fresh subscription is, at every later time, one that waits for its symbols. -/
theorem Sound.subscribed (h : n.Sound) {p : Publisher} {result : SubscribeResult} {snapshots : List SymbolId}
    (hsubscribe : n.publisher.subscribe gatewayId asked ∅ = .ok (p, result, snapshots))
    (hid : result.subscription = some id) (hstep : n.step (.subscribe gatewayId asked ∅) = some n₁)
    {later : List Action} (hlater : n₁.run later = some n₂) :
    ∃ since, n₂.publisher.routed = n.publisher.routed ++ since ∧
      n₂.Subscribed id (n.publisher.asked asked) n.publisher.routed.length since := by
  have hsound₁ := h.step hstep
  have hrequests := requests_subscribe hsubscribe hid hstep
  obtain rfl : n₁.publisher = p := publisher_subscribe hsubscribe hstep
  obtain ⟨_, _, _, hsubscribe', hcases⟩ := n.publisher.subscribe_spec gatewayId asked ∅
  obtain ⟨hp, rfl, rfl⟩ := Prod.mk.injEq .. ▸ Except.ok.inj (hsubscribe.symm.trans hsubscribe')
  cases hcases with
  | refused fails subscription =>
    rw [hid] at subscription
    cases subscription
  | tooOld passes gone subscription =>
    rw [hid] at subscription
    cases subscription
  | registered stats passes =>
    obtain rfl := Option.some.inj hid
    obtain ⟨-, hnext, hrouted₁, hfollows⟩ := Publisher.follows_register h.publisher h.recorded stats passes
    have hwithin := Publisher.within_register h.publisher h.recorded stats passes
    obtain ⟨-, hfeed, -⟩ := passes.register_spec h.publisher stats
    rw [← hp] at hnext hrouted₁ hfollows hwithin hfeed
    obtain ⟨since, hsince, hwithin₂⟩ := (kept_within n.publisher.nextId _).run [] hsound₁ hnext hwithin hlater
    rw [hrouted₁] at hsince
    -- The items of each symbol that was asked for follow its events from the subscription on.
    have hkept : ∀ symbol ∈ n.publisher.asked asked,
        Follows (n₂.publisher.feed n.publisher.nextId) symbol
            (Publisher.due n.publisher.nextId symbol ⟨{}, []⟩ since) ∧
          Whole n.publisher.nextId symbol since (n₂.publisher.feed n.publisher.nextId) := by
      intro symbol hasked
      have hstate : Publisher.symbolStates ∅ (n.publisher.asked asked) symbol = some {} := by
        unfold Publisher.symbolStates
        rw [if_pos hasked]
        rfl
      have hopen : Whole n.publisher.nextId symbol [] (n₁.publisher.feed n.publisher.nextId) := by
        have hopen := ((hfollows symbol _ hstate).registered _ (congrArg Feed.entry hfeed)).2.2.1
        exact fun hended => by cases hopen.symm.trans hended
      obtain ⟨outputs, houtputs, hboth⟩ :=
        (kept_whole n.publisher.nextId symbol).run [] hsound₁ hnext ⟨hfollows symbol _ hstate, hopen⟩ hlater
      obtain rfl : since = outputs := by
        rw [hrouted₁, hsince] at houtputs
        exact List.append_cancel_left houtputs
      exact hboth
    refine ⟨since, hsince, hwithin₂, fun symbol hasked => (hkept symbol hasked).1,
      fun symbol hasked => (hkept symbol hasked).2, fun symbol hasked => ?_⟩
    -- The request of a snapshot starts on its way among those of the new subscription.
    refine OnItsWay.run (.asked ?_) hsound₁ hnext ?_ hlater
    · rw [hrequests]
      exact List.mem_filter.mpr ⟨hasked, rfl⟩
    · unfold EngineNode.pushed
      rw [hrouted₁, List.length_append]
      exact Nat.le_add_right _ _

end EngineNode

/-! ## Readers -/

namespace FeedServer

open EngineNode

variable {pb : Protobuf} {s : FeedServer} {id : SubscriberId} {h : Handler}

/-- Nothing is on its way to a client any more: no queue holds anything for it, its handler has written all that
it has taken, and its subscription is open, or was until the publisher closed. -/
structure CaughtUp (s : FeedServer) (id : SubscriberId) (h : Handler) : Prop where
  /-- The subscription is open, or was until the publisher closed. -/
  ended : (s.publisher.subs id).endReason = .none ∨ (s.publisher.subs id).endReason = .shutdown
  /-- No snapshot is to be asked for. -/
  requests : s.process.node.requests id = []
  /-- The workers have nothing to do, and nothing to push. -/
  workers : ∀ i < s.process.partitions,
    (s.process.node.threads i).inbox = [] ∧ (s.process.node.worker i).outbox = []
  /-- The publisher has taken everything. -/
  outbox : s.process.node.outbox = []
  /-- The handler has taken everything. -/
  items : (s.publisher.subs id).items = []
  /-- The handler has written everything. -/
  written : h.stage.unwritten = 0

/-- A client that has caught up has all that it is due. -/
theorem CaughtUp.whole {symbols : List SymbolId} {seen : ℕ} {since routed : List Output} {symbol : SymbolId}
    (hcaught : s.CaughtUp id h) (hrunning : s.process.Running pb)
    (hrouted : s.publisher.routed = routed ++ since)
    (hsubscribed : s.process.node.Subscribed id symbols seen since) (hsymbol : symbol ∈ symbols) :
    itemsOn symbol (s.publisher.subs id).popped = (Publisher.due id symbol ⟨{}, []⟩ since).items := by
  have hgiven : (s.publisher.feed id).given = (s.publisher.subs id).popped := by
    show (s.publisher.subs id).popped ++ (s.publisher.subs id).items = _
    rw [hcaught.items, List.append_nil]
  have hfollows := hsubscribed.follows symbol hsymbol
  rcases hcaught.ended with hopen | hended
  · cases hentry : (s.publisher.feed id).entry with
    | none => exact absurd hopen (hfollows.ended hentry).1
    | some entry =>
      have hall := (hfollows.registered entry hentry).2.2.2
      rw [← hgiven]
      exact hall
  · obtain ⟨before, after, rfl, hitems⟩ := hsubscribed.whole symbol hsymbol hended
    have hpushed : s.process.node.pushed = (routed ++ before) ++ .outboxClosed :: (after ++ s.process.node.outbox) := by
      rw [EngineNode.pushed, show s.process.node.publisher.routed = _ from hrouted]
      simp only [List.append_assoc, List.cons_append]
    obtain ⟨rfl, -⟩ := List.append_eq_nil_iff.mp (hrunning.pill_last hpushed)
    -- The pill gives it nothing.
    have hdue : Publisher.due id symbol ⟨{}, []⟩ (before ++ [.outboxClosed]) =
        Publisher.due id symbol ⟨{}, []⟩ before := by
      unfold Publisher.due
      rw [List.foldl_append]
      rfl
    rw [← hgiven, hdue]
    exact hitems

/-- A call of `Subscribe` moves the node, and gets a handler. -/
theorem node_subscribe {s₁ : FeedServer} {gatewayId : GatewayId} {asked : List SymbolId} {fromSeq : FromSeq}
    {p : Publisher} {result : SubscribeResult} {snapshots : List SymbolId}
    (hsubscribe : s.publisher.subscribe gatewayId asked fromSeq = .ok (p, result, snapshots))
    (hid : result.subscription = some id) (hstep : s.step pb (.subscribe gatewayId asked fromSeq) = some s₁) :
    s.process.node.step (.subscribe gatewayId asked fromSeq) = some s₁.process.node ∧
      (s₁.handlers id).isSome := by
  have hstep : (s.onNode (.subscribe gatewayId asked fromSeq)).bind
      (fun s' => s'.answer .market gatewayId result) = some s₁ := by
    have hsame : s.subscribe gatewayId asked fromSeq = some s₁ := hstep
    unfold FeedServer.subscribe at hsame
    rw [hsubscribe] at hsame
    exact hsame
  -- A refusal grants no subscription, so the handler is made for the one granted.
  have hresult : result.error ≠ .none → result.subscription = none := by
    intro herror
    obtain ⟨_, _, _, hsubscribe', hcases⟩ := s.publisher.subscribe_spec gatewayId asked fromSeq
    obtain ⟨-, rfl, rfl⟩ := Prod.mk.injEq .. ▸ Except.ok.inj (hsubscribe.symm.trans hsubscribe')
    cases hcases with
    | refused fails subscription => exact subscription
    | tooOld passes gone subscription => exact subscription
    | registered stats passes => exact absurd rfl herror
  obtain ⟨s', honNode, hanswer⟩ := Option.bind_eq_some_iff.mp hstep
  obtain ⟨node, hnode, rfl⟩ := onNode_spec honNode
  obtain ⟨hprocess, hhandlers⟩ := answer_spec hresult hanswer
  constructor
  · rw [hprocess]
    exact hnode
  · rw [hhandlers, hid]
    simp only
    rw [Function.update_self]
    rfl

/-- **Readers rebuild the books.** In every interleaving, a reader that reads the messages of a market stream,
which its client has opened without sequence numbers, never fails. Each of its books is of a symbol that was asked
for, and is the worker's book as far as it has been read; and when nothing is on its way any more, the reader has
the worker's book of every symbol that was asked for. -/
theorem readers_rebuild (pb : Protobuf) (fp : FeedProtobuf) (hfp : fp.Lawful) (partitions : ℕ)
    (instruments : List Instrument) (options : PublisherOptions) (address : String) (p : Process)
    (hmake : Process.make partitions instruments options address = .ok p) (actions : List Action)
    (s : FeedServer) (hrun : run pb { process := p } actions = some s) (gatewayId : GatewayId)
    (asked : List SymbolId) (p' : Publisher) (result : SubscribeResult) (snapshots : List SymbolId)
    (id : SubscriberId) (hsubscribe : s.publisher.subscribe gatewayId asked ∅ = .ok (p', result, snapshots))
    (hid : result.subscription = some id) (s₁ : FeedServer)
    (hstep : s.step pb (.subscribe gatewayId asked ∅) = some s₁) (later : List Action) (s₂ : FeedServer)
    (hlater : run pb s₁ later = some s₂) (hfits : s₂.process.node.Fits) :
    ∃ h items r, s₂.handlers id = some h ∧ h.written.mapM (Message.read fp id) = some items ∧
      ({} : Reader).readAll items = .ok r ∧ r.replies = 0 ∧
      (∀ symbol replica, r.books symbol = some replica → symbol ∈ s.publisher.asked asked ∧
        s₂.process.node.Replicates symbol replica) ∧
      (s₂.CaughtUp id h → ∀ symbol ∈ s.publisher.asked asked, ∃ replica, r.books symbol = some replica ∧
        s₂.process.node.Shows symbol replica) := by
  obtain ⟨hs₂, hrunning, hsound₂, hsourced⟩ := reached hmake (run_through hrun hstep hlater)
  obtain ⟨-, -, hsound, -⟩ := reached hmake hrun
  have hstart : run pb s₁ [] = some s₁ := rfl
  obtain ⟨hs₁, -, hsound₁, -⟩ := reached hmake (run_through hrun hstep hstart)
  obtain ⟨hnode, hhandler⟩ := node_subscribe hsubscribe hid hstep
  obtain ⟨steps, hsteps⟩ := process_run hlater
  obtain ⟨moves, hmoves⟩ := Process.node_run hsteps
  obtain ⟨since, hrouted, hsubscribed⟩ := hsound.subscribed hsubscribe hid hnode hmoves
  obtain ⟨hpositive, hhanded⟩ := (hs₁.handled id).mp hhandler
  obtain ⟨h, hh⟩ := Option.isSome_iff_exists.mp
    ((hs₂.handled id).mpr ⟨hpositive, hhanded.trans_le (grows_run hsound₁ hmoves)⟩)
  obtain ⟨items, rest, hread, hpopped, hrest⟩ := hs₂.read hfp hsourced hrunning hfits hh
  have hbuilds : ∀ symbol ∈ s.publisher.asked asked, ∃ b, Builds (itemsOn symbol items) b ∧ ∀ r, b = some r →
      s₂.process.node.Replicates symbol r ∧
        (itemsOn symbol items = (Publisher.due id symbol ⟨{}, []⟩ since).items → s₂.process.node.outbox = [] →
          (∀ i, (s₂.process.node.worker i).outbox = []) → s₂.process.node.Shows symbol r) := by
    intro symbol hasked
    refine hrunning.builds hsound₂ hfits hrouted (Publisher.due_of_waiting id symbol since) ?_
    refine List.IsPrefix.trans ?_ (hsubscribed.follows symbol hasked).popped
    show itemsOn symbol items <+: itemsOn symbol (s₂.publisher.subs id).popped
    rw [hpopped, itemsOn_append]
    exact List.prefix_append _ _
  have hothers : ∀ symbol, symbol ∉ s.publisher.asked asked → itemsOn symbol items = [] := by
    intro symbol hout
    refine List.filter_eq_nil_iff.mpr fun item hitem hsymbol => hout ?_
    have hgiven : item ∈ (s₂.publisher.feed id).given :=
      List.mem_append_left _ (hpopped ▸ List.mem_append_left _ hitem)
    rw [← of_decide_eq_true hsymbol]
    exact (hsubscribed.within.given item hgiven).2
  obtain ⟨r, hall, hreplies, hbooks⟩ := Reader.read_spec items fun symbol => by
    by_cases hasked : symbol ∈ s.publisher.asked asked
    · obtain ⟨b, hb, -⟩ := hbuilds symbol hasked
      exact ⟨b, hb⟩
    · exact ⟨none, hothers symbol hasked ▸ .nothing⟩
  refine ⟨h, items, r, hh, hread, hall, hreplies, fun symbol replica hreplica => ?_, fun hcaught symbol hasked => ?_⟩
  · by_cases hasked : symbol ∈ s.publisher.asked asked
    · obtain ⟨b, hb, hreplicates⟩ := hbuilds symbol hasked
      exact ⟨hasked, (hreplicates replica (hb.unique (hreplica ▸ hbooks symbol))).1⟩
    · -- Nothing of the symbol has been read.
      have hnone : r.books symbol = none := (hothers symbol hasked ▸ hbooks symbol).unique .nothing
      rw [hnone] at hreplica
      cases hreplica
  · obtain ⟨b, hb, hreplicates⟩ := hbuilds symbol hasked
    have hwhole : itemsOn symbol items = (Publisher.due id symbol ⟨{}, []⟩ since).items := by
      rw [← hcaught.whole hrunning hrouted hsubscribed hasked, hpopped,
        List.eq_nil_of_length_eq_zero (hrest.trans hcaught.written), List.append_nil]
    have hworkers : ∀ i, (s₂.process.node.threads i).inbox = [] ∧ (s₂.process.node.worker i).outbox = [] := by
      intro i
      by_cases hi : i < s₂.process.partitions
      · exact hcaught.workers i hi
      · exact hrunning.beyond (not_lt.mp hi)
    -- The snapshot has come, so there is something to build from.
    obtain ⟨ready, hready, rfl, hsubscriber⟩ :=
      (hsubscribed.requested symbol hasked).arrived hcaught.requests hworkers
    have hsince : Output.snapshotReady ready ∈ since := by
      rw [EngineNode.pushed, hcaught.outbox, List.append_nil, hrouted, List.drop_left] at hready
      exact hready
    obtain ⟨replica, rfl⟩ := hb.exists_of_ne_nil
      (hwhole ▸ (Publisher.due_of_waiting id ready.symbol since).ne_nil hsince rfl hsubscriber)
    refine ⟨replica, (hbooks ready.symbol).unique hb, ?_⟩
    exact (hreplicates replica rfl).2 hwhole hcaught.outbox fun i => (hworkers i).2

/-- A client that has caught up: its snapshot shows the bid, and the two events behind it take that away. -/
theorem readers_rebuild_after_trade :
    ∃ p s₂ h items r replica,
      Process.make 1 [{ id := 1, partition := 0, cfg := { poolCapacity := 4 } }] {} "sequencer" = .ok p ∧
      run generated { process := p } (restBid ++ .subscribe "gateway" [1] ∅ :: tradeAsk) = some s₂ ∧
      s₂.handlers 1 = some h ∧ h.written.mapM (Message.read .exact 1) = some items ∧
      ({} : Reader).readAll items = .ok r ∧ r.books 1 = some replica ∧ s₂.process.node.Shows 1 replica := by
  obtain ⟨p, s, p', result, snapshots, s₁, s₂, h, hmake, hrun, hasked, hsubscribe, hid, hstep, hlater, hh, hstage, -,
    hopen, hitems, hone, hrequests, houtbox, hinbox, hidle⟩ := run_tradeAsk
  have hexact : ∀ x ∈ [{ id := 1, partition := 0, cfg := { poolCapacity := 4 } : Instrument }],
      x.cfg.priorities = .exact := by
    intro x hx
    rw [List.mem_singleton.mp hx]
  have hall := run_through hrun hstep hlater
  obtain ⟨h', items, r, hh', hread, hreader, -, -, hwhole⟩ := readers_rebuild generated .exact
    FeedProtobuf.exact_lawful _ _ _ _ p hmake _ s hrun "gateway" [1] p' result snapshots 1 hsubscribe hid s₁ hstep _
    s₂ hlater (fits_of_exact hmake hall hexact)
  obtain rfl := Option.some.inj (hh.symm.trans hh')
  have hcaught : s₂.CaughtUp 1 h := by
    refine ⟨Or.inl hopen, hrequests, fun i hi => ?_, houtbox, hitems, ?_⟩
    · obtain rfl : i = 0 := by omega
      exact ⟨hinbox, hidle⟩
    · rw [hstage]
      rfl
  obtain ⟨replica, hreplica, hshows⟩ := hwhole hcaught 1 hasked
  exact ⟨p, s₂, h, items, r, replica, hmake, hall, hh, hread, hreader, hreplica, hshows⟩

end FeedServer

end OrderBookEngine
