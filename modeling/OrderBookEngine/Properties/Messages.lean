import OrderBookEngine.Properties.Agreement
import OrderBookEngine.Properties.Answered
import OrderBookEngine.Properties.Consistency
import OrderBookEngine.Properties.Draining
import OrderBookEngine.Properties.Handlers
import OrderBookEngine.Server.Reader

/-!
# What a client reads

Whatever a subscription is given has been routed (`Publisher.Sourced`), and of what is routed only a
rejection has a reason (`Running.plain`). So nothing is lost in a message whose fields hold what they are set to
(`FeedProtobuf.Lawful`), and what a client reads is what its handler has popped.
-/

namespace OrderBookEngine

/-! ## Where items come from -/

/-- The output that an item has been. -/
def FeedItem.output : FeedItem → Output
  | .snapshotReady r => .snapshotReady r
  | .marketEvent e => .marketEvent e
  | .reply r => .reply r

namespace Feed

variable {f : Feed} {item : FeedItem} {a : Publisher.Action}

/-- Taking an output gives a subscription nothing else. -/
theorem given_take {output : Output} (h : item ∈ (f.take output).given) :
    item ∈ f.given ∨ item.output = output := by
  -- An offered item is new only as the item of this output.
  have hoffer : ∀ {entry : Option Subscriber} {x : FeedItem}, x.output = output →
      item ∈ (Feed.offer ⟨entry, f.sub⟩ x).given → item ∈ f.given ∨ item.output = output := by
    intro entry x hx hmem
    rcases given_offer ⟨entry, f.sub⟩ x item hmem with hold | rfl
    · exact Or.inl hold
    · exact Or.inr hx
  unfold Feed.take at h
  cases hentry : f.entry with
  | none =>
    rw [hentry] at h
    exact Or.inl h
  | some entry =>
    rw [hentry] at h
    cases output with
    | marketEvent event =>
      simp only at h
      split_ifs at h
      · exact hoffer rfl h
      · exact Or.inl h
    | reply reply =>
      simp only at h
      split_ifs at h
      · exact hoffer rfl h
      · exact Or.inl h
    | snapshotReady ready =>
      simp only at h
      split_ifs at h
      · exact Or.inl h
      · cases hstate : entry.live ready.symbol with
        | none =>
          rw [hstate] at h
          exact Or.inl h
        | some state =>
          simp only [hstate] at h
          split_ifs at h
          · exact Or.inl h
          · exact hoffer rfl h
    | outboxClosed => exact Or.inl (given_leave f _ item h)

/-- Only taking an output gives a subscription something. -/
theorem given_act (ha : ∀ output, a ≠ .take output) (h : item ∈ (f.act a).given) : item ∈ f.given := by
  cases a with
  | take output => exact absurd rfl (ha output)
  | subscribe gatewayId symbols fromSeq => exact h
  | subscribeReplies gatewayId => exact h
  | unsubscribe id =>
    unfold Feed.act at h
    simp only at h
    split_ifs at h
    · exact given_leave f _ item h
    · exact h
  | nextFor id =>
    unfold Feed.act at h
    simp only at h
    split_ifs at h
    · have hsame := f.sub.nextFor_spec.2.2.2
      unfold Feed.given at h ⊢
      rwa [hsame] at h
    · exact h

end Feed

namespace Publisher

variable {p p' : Publisher}

/-- What a subscription has been given has been routed. -/
def Sourced (p : Publisher) : Prop := ∀ id < p.nextId, ∀ item ∈ (p.feed id).given, item.output ∈ p.routed

/-- The subscribers that have been found too slow are given nothing. -/
theorem Sourced.dropAll (h : p.Sourced) (ids : List SubscriberId) : (ids.foldl dropSlow p).Sourced := by
  obtain ⟨hfeed, hrecord, -⟩ := dropAll_spec (p := p) ids
  intro id hid item hitem
  rw [hrecord.routed]
  rw [hrecord.nextId] at hid
  rw [hfeed] at hitem
  split_ifs at hitem
  · exact h id hid item (Feed.given_leave _ _ item hitem)
  · exact h id hid item hitem

/-- An open publisher routes an output. -/
theorem Sourced.take (h : p.Sourced) (hwf : p.Wf) (hrecorded : p.Recorded) (hopen : p.closed = false)
    {output : Output} (hact : p.act (.take output) = .ok p') : p'.Sourced := by
  obtain ⟨-, -, hrouted⟩ := hwf.take_records hrecorded hopen hact
  obtain ⟨_, hact', -, hfeed, -, -⟩ := act_spec hwf (.take output)
  obtain rfl := Except.ok.inj (hact.symm.trans hact')
  have hnext : p'.nextId = p.nextId := by
    cases act_hands hwf hact with
    | none nextId => exact nextId
  intro id hid item hitem
  rw [hnext] at hid
  rw [hfeed id hid] at hitem
  rw [hrouted]
  rcases Feed.given_take hitem with hold | hnew
  · exact List.mem_append_left _ (h id hid item hold)
  · exact List.mem_append_right _ (hnew ▸ List.mem_singleton_self _)

/-- The other actions give nothing that is new, and a new subscription has the replay. -/
theorem Sourced.act (h : p.Sourced) (hwf : p.Wf) (hrecorded : p.Recorded) {a : Action}
    (ha : ∀ output, a ≠ .take output) (hact : p.act a = .ok p') : p'.Sourced := by
  obtain ⟨_, hact', -, hfeed, hle, -⟩ := act_spec hwf a
  obtain rfl := Except.ok.inj (hact.symm.trans hact')
  rw [Sourced, hwf.routed_act hact ha]
  intro id hid item hitem
  by_cases hold : id < p.nextId
  · rw [hfeed id hold] at hitem
    exact h id hold item (Feed.given_act ha hitem)
  cases act_hands hwf hact with
  | none nextId => exact absurd (nextId ▸ hid) hold
  | market stats gatewayId symbols fromSeq passes =>
    obtain ⟨-, hnew, -, hrecord⟩ := passes.register_spec hwf stats
    have hid : id < p.nextId + 1 := lt_of_lt_of_eq hid hrecord.nextId
    obtain rfl : id = p.nextId := le_antisymm (Nat.lt_succ_iff.mp hid) (not_lt.mp hold)
    rw [hnew] at hitem
    obtain ⟨symbol, -, hreplayed⟩ := List.mem_flatMap.mp hitem
    unfold replayOf at hreplayed
    cases hlookup : fromSeq.lookup symbol with
    | none =>
      rw [hlookup] at hreplayed
      cases hreplayed
    | some wanted =>
      rw [hlookup] at hreplayed
      obtain ⟨event, hevent, rfl⟩ := List.mem_map.mp hreplayed
      -- The history holds the last of the events that have been routed.
      have hkept := (List.mem_filter.mp hevent).1
      rw [hrecorded.history] at hkept
      obtain ⟨output, houtput, hon⟩ := List.mem_filterMap.mp (List.mem_of_mem_drop hkept)
      unfold Output.marketEventOn at hon
      cases output with
      | marketEvent other =>
        simp only at hon
        split_ifs at hon
        exact Option.some.inj hon ▸ houtput
      | _ => cases hon
  | replies gatewayId passes =>
    obtain ⟨-, hnew, -, hrecord⟩ := passes.register_spec hwf
    have hid : id < p.nextId + 1 := lt_of_lt_of_eq hid hrecord.nextId
    obtain rfl : id = p.nextId := le_antisymm (Nat.lt_succ_iff.mp hid) (not_lt.mp hold)
    rw [hnew] at hitem
    exact absurd hitem List.not_mem_nil

end Publisher

namespace EngineNode

variable {n n' : EngineNode} {actions : List Action}

/-- One step of the node keeps what the subscriptions were given from. -/
theorem sourced_step {a : Action} (h : n.Sound) (hsourced : n.publisher.Sourced) (hstep : n.step a = some n') :
    n'.publisher.Sourced := by
  cases does_of_step hstep with
  | queue worker publisher outbox => exact publisher ▸ hsourced
  | work i item w idle run worker publisher outbox => exact publisher ▸ hsourced
  | push i output outputs pending worker publisher outbox => exact publisher ▸ hsourced
  | route output open_ act worker outbox =>
    obtain ⟨-, hdropped, hwf⟩ := Publisher.dropAll_spec (p := n.publisher) n.tooSlow
    exact (hsourced.dropAll n.tooSlow).take (hwf h.publisher) (h.recorded.congr hdropped)
      (hdropped.closed.trans open_) act
  | publisher a takes act worker outbox => exact hsourced.act h.publisher h.recorded takes act

/-- So does a run of the node. -/
theorem sourced_run (h : n.Sound) (hsourced : n.publisher.Sourced) (hrun : n.run actions = some n') :
    n'.publisher.Sourced := by
  induction actions generalizing n with
  | nil => exact Option.some.inj hrun ▸ hsourced
  | cons a actions ih =>
    obtain ⟨n₁, hstep, hrest⟩ := Option.bind_eq_some_iff.mp hrun
    exact ih (h.step hstep) (sourced_step h hsourced hstep) hrest

/-- A node that is set up has no subscriptions. -/
theorem sourced_make {partitions : ℕ} {instruments : List Instrument} {options : PublisherOptions}
    (h : make partitions instruments options = .ok n) : n.publisher.Sourced := by
  obtain ⟨-, hpublisher, -⟩ := parts_of_make h
  unfold Publisher.make at hpublisher
  split_ifs at hpublisher
  rw [← Except.ok.inj hpublisher]
  intro id hid item hitem
  exact absurd hitem List.not_mem_nil

/-- The stop priorities of every book fit. -/
def Fits (n : EngineNode) : Prop := ∀ i symbol h, (n.worker i).books symbol = some h → h.book.Fits

end EngineNode

/-! ## Events without a reason -/

namespace Market

variable {m : Market} {s s' : Stage} {now : ℤ}

/-- The event of a step has no reason. -/
theorem Step.plain (h : Step now s s') : s'.market.events = s.market.events ∨
    ∃ e, s'.market.events = s.market.events ++ [e] ∧ e.Plain := by
  cases h with
  | reenter => exact Or.inr ⟨_, rfl, fun _ => rfl⟩
  | @trade w x xs outside breach meets band => exact Or.inr ⟨_, w.events_trade now x xs outside breach, fun _ => rfl⟩
  | halt meets band => exact Or.inr ⟨_, rfl, fun _ => rfl⟩
  | limit meets band => exact Or.inl rfl
  | filled quantity => exact Or.inl rfl
  | rest quantity type runOut room => exact Or.inr ⟨_, events_restOrder room, fun _ => rfl⟩
  | expire quantity => exact Or.inr ⟨_, rfl, fun _ => rfl⟩
  | restAtBandEdge type valid room => exact Or.inr ⟨_, events_restOrder room, fun _ => rfl⟩
  | expireStopped => exact Or.inr ⟨_, rfl, fun _ => rfl⟩
  | finish => exact Or.inl rfl
  | @absorb m trades _ last last_eq => exact Or.inl (events_absorb m trades last)
  | fire fifo halted => exact Or.inr ⟨_, rfl, fun _ => rfl⟩
  | sendBack halted => exact Or.inl rfl

/-- The event of a call has a reason only when it is a rejection. -/
theorem Acts.plain {c : Call} (h : Acts m c s) : s.market.events = m.events ∨
    ∃ e, s.market.events = m.events ++ [e] ∧ e.Plain := by
  cases h with
  | refuse kind => exact Or.inl rfl
  | reject => exact Or.inr ⟨_, rfl, fun hkind => absurd rfl hkind⟩
  | rejectStop => exact Or.inr ⟨_, rfl, fun hkind => absurd rfl hkind⟩
  | _ => exact Or.inr ⟨_, rfl, fun _ => rfl⟩

/-- In every run all events are plain. -/
theorem plain_invariant (cfg : Config) : Invariant cfg fun s => ∀ e ∈ s.market.events, e.Plain := by
  have happend : ∀ {events events' : List EngineEvent}, (∀ e ∈ events, e.Plain) →
      (events' = events ∨ ∃ e, events' = events ++ [e] ∧ e.Plain) → ∀ e ∈ events', e.Plain := by
    rintro events events' hevents (rfl | ⟨last, rfl, hlast⟩) e he
    · exact hevents e he
    · rcases List.mem_append.mp he with he | he
      · exact hevents e he
      · exact List.mem_singleton.mp he ▸ hlast
  constructor
  case start => exact fun e he => absurd he List.not_mem_nil
  case resume => exact fun _ h => happend h (Or.inr ⟨_, rfl, fun _ => rfl⟩)
  case act => exact fun _ hact h => happend h hact.plain
  case step => exact fun hstep h => happend h hstep.plain

end Market

/-- All events of a book are plain. -/
theorem Book.plain_run (cfg : Config) (calls : List Call) (hfits : ((Book.make cfg).run calls).Fits) :
    ∀ e ∈ ((Book.make cfg).run calls).events, e.Plain := by
  rw [(run_refines cfg calls hfits).represents.session]
  exact (reachable_run cfg calls).invariant (Market.plain_invariant cfg)

/-- Exact priorities always fit. -/
theorem Process.Running.fits {pb : Protobuf} {p : Process} (h : p.Running pb)
    (hexact : ∀ x ∈ p.instruments, x.cfg.priorities = .exact) : p.node.Fits := by
  intro i symbol hosted hbook
  obtain ⟨taken, waiting, hworks⟩ := h.works i
  rw [hworks.serving.serves.books] at hbook
  obtain ⟨cfg, hcfg, rfl⟩ := Option.map_eq_some_iff.mp hbook
  obtain ⟨x, hx, -, -, rfl⟩ := Listed.of_cfgsOf hcfg
  exact Book.fits_run (hexact x hx) _

/-- All that is pushed is plain. -/
theorem Process.Running.plain {pb : Protobuf} {p : Process} (h : p.Running pb) (hfits : p.node.Fits)
    {event : MarketEvent} (hevent : .marketEvent event ∈ p.node.pushed) : event.event.Plain := by
  rcases h.known _ hevent with hpill | ⟨i, hi⟩
  · cases hpill
  obtain ⟨cfg, hcfg⟩ := Option.isSome_iff_exists.mp hi
  have hcfg : p.cfgs i event.symbol = some cfg := hcfg
  obtain ⟨taken, waiting, hworks⟩ := h.works i
  obtain ⟨w, hrun, houtbox⟩ := hworks.serving.run
  have hbook : (p.node.worker i).books event.symbol =
      some ((Book.make cfg).run (Worker.callsFrom event.symbol 0 taken)).hosted := by
    rw [hworks.serving.serves.books, hcfg]
    rfl
  -- The event is one of the book's.
  have hmem : event.event ∈ eventsOf event.symbol w.outbox := by
    refine List.mem_filterMap.mpr ⟨.marketEvent event, ?_, if_pos rfl⟩
    rw [houtbox]
    exact List.mem_append_left _ (List.mem_filter.mpr ⟨hevent, hi⟩)
  rw [Worker.eventsOf_run hworks.serving.owned hrun hcfg] at hmem
  exact Book.plain_run cfg _ (hfits i event.symbol _ hbook) _ hmem

/-! ## Messages -/

/-- A message holds the whole item. -/
theorem SubscriberKind.read_fill {fp : FeedProtobuf} (hfp : fp.Lawful) {kind : SubscriberKind}
    {gatewayId : GatewayId} {id : SubscriberId} {item : FeedItem} {message : Message} (hcarries : kind.Carries gatewayId id item)
    (hplain : ∀ event, item = .marketEvent event → event.event.Plain)
    (hfill : kind.fill item = .ok (some message)) : message.read fp id = some item := by
  cases kind with
  | market =>
    cases item with
    | snapshotReady ready =>
      obtain rfl := Option.some.inj (Except.ok.inj hfill)
      obtain rfl := hcarries.2 ready rfl
      unfold Message.read
      simp only [hfp.bookSnapshot, SnapshotReady.read_fill]
      rfl
    | marketEvent event =>
      obtain rfl := Option.some.inj (Except.ok.inj hfill)
      unfold Message.read
      simp only [hfp.marketEvent, MarketEvent.read_fill (hplain event rfl)]
      rfl
    | reply reply => exact absurd rfl (hcarries.1 reply)
  | replies =>
    obtain ⟨reply, rfl, -⟩ := hcarries
    obtain rfl := Option.some.inj (Except.ok.inj hfill)
    unfold Message.read
    simp only [hfp.reply, Reply.read_fill]
    rfl

/-- A list is read back when each of its members is. -/
theorem mapM_of_forall₂ {α β : Type} {f : β → Option α} {xs : List α} {ys : List β}
    (h : List.Forall₂ (fun x y => f y = some x) xs ys) : ys.mapM f = some xs := by
  induction h with
  | nil => rfl
  | cons hxy _ ih =>
    rw [List.mapM_cons, hxy, ih]
    rfl

/-- How many messages a handler has taken and not written. -/
def PumpStage.unwritten : PumpStage → ℕ
  | .holding _ => 1
  | .returned status | .left status => if status = streamBroken then 1 else 0
  | _ => 0

/-- As many messages are unwritten as the stage counts. -/
theorem PumpStage.Unwritten.length {stage : PumpStage} {rest : List Message} (h : stage.Unwritten rest) :
    rest.length = stage.unwritten := by
  cases stage with
  | holding message => exact congrArg List.length (show rest = [message] from h)
  | returned status => exact h
  | left status => exact h
  | _ => exact congrArg List.length (show rest = [] from h)

namespace FeedServer

variable {pb : Protobuf} {s s' : FeedServer} {id : SubscriberId} {h : Handler}

/-- What the client of a handler can read: all that the handler has popped, but what it holds or has failed
to write. -/
theorem Sound.read {fp : FeedProtobuf} (hfp : fp.Lawful) (hs : s.Sound) (hsourced : s.publisher.Sourced) (hrunning : s.process.Running pb)
    (hfits : s.process.node.Fits) (hh : s.handlers id = some h) :
    ∃ items rest, h.written.mapM (Message.read fp id) = some items ∧
      (s.publisher.subs id).popped = items ++ rest ∧ rest.length = h.stage.unwritten := by
  have hserves := hs.serves id h hh
  have hhanded : id < s.publisher.nextId := ((hs.handled id).mp (Option.isSome_of_eq_some hh)).2
  obtain ⟨messages, hunwritten, hfills⟩ := hserves.writes
  -- A popped item was routed, so it is one that its message can carry.
  have hpopped : ∀ item ∈ (s.publisher.subs id).popped, ∀ message,
      h.kind.fill item = .ok (some message) → message.read fp id = some item := by
    intro item hitem message hfill
    have hgiven : item ∈ (s.publisher.feed id).given := List.mem_append_left _ hitem
    have hcarries := hserves.channel.given item hgiven
    rw [show (s.publisher.feed id).sub.id = id from hs.publisher.id_eq id] at hcarries
    refine SubscriberKind.read_fill hfp hcarries (fun event heq => ?_) hfill
    have hrouted := hsourced id hhanded item hgiven
    rw [heq] at hrouted
    exact hrunning.plain hfits (List.mem_append_left _ hrouted)
  have hread : List.Forall₂ (fun item message => Message.read fp id message = some item)
      (s.publisher.subs id).popped (h.written ++ messages) := by
    refine ((List.forall₂_and_left _ _).mpr ⟨hpopped, hfills⟩).imp ?_
    exact fun item message hboth => hboth.1 message hboth.2
  refine ⟨_, _, mapM_of_forall₂ (List.forall₂_take_append _ _ _ hread), (List.take_append_drop _ _).symm, ?_⟩
  rw [(List.forall₂_drop_append _ _ _ hread).length_eq, hunwritten.length]

/-- What a run from the start reaches. -/
theorem reached {p : Process} {partitions : ℕ} {instruments : List Instrument} {options : PublisherOptions}
    {address : String} (hmake : Process.make partitions instruments options address = .ok p)
    {actions : List Action} (hrun : run pb { process := p } actions = some s) :
    s.Sound ∧ s.process.Running pb ∧ s.process.node.Sound ∧ s.publisher.Sourced := by
  obtain ⟨steps, hsteps⟩ := process_run hrun
  obtain ⟨moves, hmoves⟩ := Process.node_run hsteps
  have hnode := Process.node_make hmake
  have hsound := EngineNode.sound_make hnode
  exact ⟨(sound_start hmake).run hrun, (Process.running_make pb hmake).run hsteps, hsound.run hmoves,
    EngineNode.sourced_run hsound (EngineNode.sourced_make hnode) hmoves⟩

/-- A run, a step and a later run are one run. -/
theorem run_through {s₀ s₁ s₂ : FeedServer} {a : Action} {actions later : List Action}
    (hrun : run pb s₀ actions = some s) (hstep : s.step pb a = some s₁) (hlater : run pb s₁ later = some s₂) :
    run pb s₀ (actions ++ a :: later) = some s₂ := by
  unfold run at hrun hlater ⊢
  rw [List.foldlM_append, hrun]
  exact Option.bind_eq_some_iff.mpr ⟨s, rfl, Option.bind_eq_some_iff.mpr ⟨s₁, hstep, hlater⟩⟩

/-- **Messages.** In every interleaving, what the client of a handler reads in the messages written to it are
the items that the handler has popped, whole, once each and in order; but for the last of them when the handler
holds it or has failed to write it. -/
theorem messages_read (pb : Protobuf) (fp : FeedProtobuf) (hfp : fp.Lawful) (partitions : ℕ)
    (instruments : List Instrument) (options : PublisherOptions) (address : String) (p : Process)
    (hmake : Process.make partitions instruments options address = .ok p) (actions : List Action)
    (s : FeedServer) (hrun : run pb { process := p } actions = some s) (hfits : s.process.node.Fits)
    (id : SubscriberId) (h : Handler) (hh : s.handlers id = some h) :
    ∃ items rest, h.written.mapM (Message.read fp id) = some items ∧
      (s.publisher.subs id).popped = items ++ rest ∧ rest.length = h.stage.unwritten := by
  obtain ⟨hs, hrunning, -, hsourced⟩ := reached hmake hrun
  exact hs.read hfp hsourced hrunning hfits hh

/-- An order of `Book.meeting`, as a message that decodes. -/
def orderAt (seq : UInt64) (side : Side) : SequencedCommand where
  seq
  ts := 0
  symbol := 1
  clientOrderId := "order"
  gatewayId := "gateway"
  accountId := 7
  payload := (generated.encodeBody (.newOrder "order" 1 (Book.meeting side))).toOption.getD []

/-- A bid rests, before anybody has subscribed. -/
def restBid : List Action :=
  [.process (.startFeed 0), .process (.openStream 0), .process (.read 0 (orderAt 1 .buy)),
   .process (.node (.work 0)), .process (.node (.push 0)), .process (.node (.push 0)),
   .process (.node (.push 0)), .process (.node .route), .process (.node .route), .process (.node .route)]

/-- An ask trades with it while the snapshot of a subscriber is on its way. -/
def tradeAsk : List Action :=
  [.request 1, .pump 1, .process (.read 0 (orderAt 2 .sell)), .process (.node (.work 0)),
   .process (.node (.push 0)), .process (.node (.work 0)), .process (.node (.push 0)),
   .process (.node (.push 0)), .process (.node (.push 0)), .process (.node .route), .poll 1, .write 1 true,
   .process (.node .route), .process (.node .route), .process (.node .route), .poll 1, .write 1 true, .poll 1,
   .write 1 true]

/-- Nothing is left on its way when the client has read the trade. -/
theorem run_tradeAsk :
    ∃ p s p' result snapshots s₁ s₂ h,
      Process.make 1 [{ id := 1, partition := 0, cfg := { poolCapacity := 4 } }] {} "sequencer" = .ok p ∧
      run generated { process := p } restBid = some s ∧ 1 ∈ s.publisher.asked [1] ∧
      s.publisher.subscribe "gateway" [1] ∅ = .ok (p', result, snapshots) ∧ result.subscription = some 1 ∧
      s.step generated (.subscribe "gateway" [1] ∅) = some s₁ ∧ run generated s₁ tradeAsk = some s₂ ∧
      s₂.handlers 1 = some h ∧ h.stage = .head ∧ (s₂.publisher.subs 1).popped.length = 3 ∧
      (s₂.publisher.subs 1).endReason = .none ∧ (s₂.publisher.subs 1).items = [] ∧
      s₂.process.partitions = 1 ∧ s₂.process.node.requests 1 = [] ∧ s₂.process.node.outbox = [] ∧
      (s₂.process.node.threads 0).inbox = [] ∧ (s₂.process.node.worker 0).outbox = [] := by
  -- The whole run is evaluated once, and taken apart from there.
  have hchain : ((Process.make 1 [{ id := 1, partition := 0, cfg := { poolCapacity := 4 } }] {}
      "sequencer").toOption.bind fun p => (run generated { process := p } restBid).bind fun s =>
        (s.publisher.subscribe "gateway" [1] ∅).toOption.bind fun answer =>
          (s.step generated (.subscribe "gateway" [1] ∅)).bind fun s₁ => (run generated s₁ tradeAsk).bind fun s₂ =>
            (s₂.handlers 1).map fun h =>
              (answer.2.1.subscription, decide (1 ∈ s.publisher.asked [1]), h.stage,
                (s₂.publisher.subs 1).endReason,
                [(s₂.publisher.subs 1).popped.length, (s₂.publisher.subs 1).items.length, s₂.process.partitions,
                  (s₂.process.node.requests 1).length, s₂.process.node.outbox.length,
                  (s₂.process.node.threads 0).inbox.length, (s₂.process.node.worker 0).outbox.length])) =
      some (some 1, true, .head, .none, [3, 0, 1, 0, 0, 0, 0]) := by decide +kernel
  obtain ⟨p, hmake, hchain⟩ := Option.bind_eq_some_iff.mp hchain
  obtain ⟨s, hrun, hchain⟩ := Option.bind_eq_some_iff.mp hchain
  obtain ⟨⟨p', result, snapshots⟩, hsubscribe, hchain⟩ := Option.bind_eq_some_iff.mp hchain
  obtain ⟨s₁, hstep, hchain⟩ := Option.bind_eq_some_iff.mp hchain
  obtain ⟨s₂, hlater, hchain⟩ := Option.bind_eq_some_iff.mp hchain
  obtain ⟨h, hh, hlast⟩ := Option.map_eq_some_iff.mp hchain
  simp only [Prod.mk.injEq, List.cons.injEq, List.length_eq_zero_iff, decide_eq_true_eq, and_true] at hlast
  obtain ⟨hid, hasked, hstage, hopen, hpopped, hidle⟩ := hlast
  exact ⟨p, s, p', result, snapshots, s₁, s₂, h, EngineNode.ok_of_toOption hmake, hrun, hasked,
    EngineNode.ok_of_toOption hsubscribe, hid, hstep, hlater, hh, hstage, hpopped, hopen, hidle⟩

/-- Exact priorities, from the setup on. -/
theorem fits_of_exact {p : Process} {partitions : ℕ} {instruments : List Instrument}
    {options : PublisherOptions} {address : String}
    (hmake : Process.make partitions instruments options address = .ok p) {actions : List Action}
    (hrun : run pb { process := p } actions = some s)
    (hexact : ∀ x ∈ instruments, x.cfg.priorities = .exact) : s.process.node.Fits := by
  obtain ⟨steps, hsteps⟩ := process_run hrun
  have hsame : s.process.instruments = instruments := by
    rw [Process.instruments_run hsteps]
    unfold Process.make at hmake
    cases hnode : EngineNode.make partitions instruments options with
    | error e =>
      rw [hnode] at hmake
      cases hmake
    | ok node =>
      rw [hnode] at hmake
      rw [← Except.ok.inj hmake]
  exact (reached hmake hrun).2.1.fits (hsame ▸ hexact)

/-- A snapshot and two events are read as they were popped. -/
theorem messages_read_of_trade :
    ∃ p s₂ h items,
      Process.make 1 [{ id := 1, partition := 0, cfg := { poolCapacity := 4 } }] {} "sequencer" = .ok p ∧
      run generated { process := p } (restBid ++ .subscribe "gateway" [1] ∅ :: tradeAsk) = some s₂ ∧
      s₂.handlers 1 = some h ∧ h.written.mapM (Message.read .exact 1) = some items ∧ items.length = 3 ∧
      (s₂.publisher.subs 1).popped = items := by
  obtain ⟨p, s, -, -, -, s₁, s₂, h, hmake, hrun, -, -, -, hstep, hlater, hh, hstage, hthree, -⟩ := run_tradeAsk
  have hall : run generated { process := p } (restBid ++ .subscribe "gateway" [1] ∅ :: tradeAsk) = some s₂ :=
    run_through hrun hstep hlater
  have hexact : ∀ x ∈ [{ id := 1, partition := 0, cfg := { poolCapacity := 4 } : Instrument }],
      x.cfg.priorities = .exact := by
    intro x hx
    rw [List.mem_singleton.mp hx]
  obtain ⟨items, rest, hread, hpopped, hrest⟩ := messages_read generated .exact
    FeedProtobuf.exact_lawful _ _ _ _ p hmake _ s₂ hall (fits_of_exact hmake hall hexact) 1 h hh
  rw [hstage] at hrest
  obtain rfl := List.eq_nil_of_length_eq_zero hrest
  rw [List.append_nil] at hpopped
  exact ⟨p, s₂, h, items, hmake, hall, hh, hread, hpopped ▸ hthree, hpopped⟩

end FeedServer

end OrderBookEngine
