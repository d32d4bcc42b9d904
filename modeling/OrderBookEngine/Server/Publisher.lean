import Mathlib.Data.List.AList
import Mathlib.Data.List.Sort
import OrderBookEngine.Server.Commands

/-!
# The publisher

`publisher.cpp`: one thread takes the outputs of all workers from the outbox and pushes them into the
queues of the subscribers. Each function below holds the mutex from its first read of the state to its
last write, so it is one step. A subscription is shared with its consumer and outlives its entry in the
table, so subscriptions are kept by their ids, those never handed out being blank.

An unordered map that is iterated is an `AList`, in the order of the iteration; the others are
functions. The tap is left out.
-/

namespace OrderBookEngine

/-- What a subscriber's queue holds. -/
inductive FeedItem where
  /-- A snapshot for this subscriber. -/
  | snapshotReady (ready : SnapshotReady)
  /-- An event of a symbol that is live. -/
  | marketEvent (event : MarketEvent)
  /-- An answer for the gateway. -/
  | reply (reply : Reply)
deriving DecidableEq, Repr

/-- Why a subscription has ended. -/
inductive EndReason where
  | none
  | unsubscribed
  | slowConsumer
  | shutdown
deriving DecidableEq, Repr

/-- What a subscription is for: market data, or a gateway's replies. -/
inductive SubscriberKind where
  | market
  | replies
deriving DecidableEq, Repr

/-- Why a subscription is refused. -/
inductive SubscribeError where
  | none
  | emptyGatewayId
  | gatewayAlreadySubscribed
  | unknownSymbol
  | closed
  | badFromSeq
  | tooOld
deriving DecidableEq, Repr

/-- The exceptions that the publisher throws itself. -/
inductive Thrown where
  /-- `std::invalid_argument`. -/
  | invalidArgument (what : String)
  /-- `std::logic_error`. -/
  | logicError (what : String)
  /-- `unordered_map::at` of an absent key. -/
  | outOfRange
deriving DecidableEq, Repr

/-- The queue of a subscriber. -/
structure Subscription where
  /-- The number under which it is in the table. -/
  id : SubscriberId
  /-- The gateway that asked for it. -/
  gatewayId : GatewayId := ""
  /-- The items that it can hold. -/
  capacity : ℕ := 0
  /-- What is queued, the oldest first. -/
  items : List FeedItem := []
  /-- The reason for its end, or `none` while it is open. -/
  endReason : EndReason := .none
  /-- What the consumer has taken so far. Only the statements read it. -/
  popped : List FeedItem := []
deriving DecidableEq, Repr

namespace Subscription

/-- `false` when the queue is full. Nothing is delivered to a subscription that has ended. -/
def tryPush (s : Subscription) (item : FeedItem) : Subscription × Bool :=
  if s.endReason ≠ .none then (s, true)
  else if s.capacity ≤ s.items.length then (s, false)
  else ({ s with items := s.items ++ [item] }, true)

/-- `Subscription::end`: the first reason wins. -/
def endWith (s : Subscription) (reason : EndReason) : Subscription :=
  if s.endReason ≠ .none then s
  else { s with endReason := reason, items := if reason = .slowConsumer then [] else s.items }

/-- `next_for`, after its wait. -/
def nextFor (s : Subscription) : Subscription × Option FeedItem :=
  match s.items with
  | [] => (s, none)
  | item :: items => ({ s with items, popped := s.popped ++ [item] }, some item)

end Subscription

/-- How a publisher is configured. -/
structure PublisherOptions where
  /-- The capacity of a subscriber's queue. -/
  queueCapacity : ℕ := 65536
  /-- How many events of a symbol are kept, zero for none. -/
  replayWindow : ℕ := 100000
deriving DecidableEq, Repr

/-- What a publisher counts. -/
structure PublisherStats where
  /-- The events routed. -/
  eventsRouted : ℕ := 0
  /-- The replies whose gateway was not listening. -/
  repliesDropped : ℕ := 0
  /-- The subscribers dropped because they fell behind. -/
  slowConsumerDrops : ℕ := 0
  /-- The events replayed to those who resumed. -/
  replayedEvents : ℕ := 0
  /-- The requests for events that were no longer kept. -/
  tooOldRefusals : ℕ := 0
deriving DecidableEq, Repr

/-- How far a subscriber is with a symbol. -/
structure SymbolState where
  /-- `false` while it waits for its snapshot. -/
  live : Bool := false
  /-- Events below it are not delivered. -/
  skipBelow : Seq := 0
deriving DecidableEq, Repr

/-- An entry of the table. Its shared pointer is to the subscription of the same id. -/
structure Subscriber where
  /-- What it is for. -/
  kind : SubscriberKind := .market
  /-- The symbols that it asked for, and how far it is with each. -/
  live : SymbolId → Option SymbolState := fun _ => none

/-- An entry that an event is pushed to. -/
def Subscriber.wants (entry : Subscriber) (event : MarketEvent) : Bool :=
  match entry.live event.symbol with
  | none => false
  | some state => state.live && !(event.event.sequenceNumber < state.skipBelow)

/-- The sequence numbers from which a subscriber wants to resume. -/
abbrev FromSeq := AList fun _ : SymbolId => Seq

/-- The answer to a subscription. -/
structure SubscribeResult where
  /-- Set when there is no error. -/
  subscription : Option SubscriberId := none
  /-- Why it was refused. -/
  error : SubscribeError := .none
  /-- What the refusal is about. -/
  detail : String := ""
deriving DecidableEq, Repr

/-- The publisher, as its thread and the callers share it. -/
structure Publisher where
  /-- The symbols that it knows. -/
  symbolList : List SymbolId
  /-- How it is configured. -/
  options : PublisherOptions
  /-- The table of the open subscriptions. -/
  subscribers : AList fun _ : SubscriberId => Subscriber := ∅
  /-- The market subscription of a gateway. -/
  marketByGateway : GatewayId → Option SubscriberId := fun _ => none
  /-- The subscription of a gateway to its replies. -/
  repliesByGateway : GatewayId → Option SubscriberId := fun _ => none
  /-- The next id to hand out. -/
  nextId : SubscriberId := 1
  /-- Whether the outbox has been closed. -/
  closed : Bool := false
  /-- What has been counted. -/
  stats : PublisherStats := {}
  /-- The last events of a symbol. -/
  history : SymbolId → Option (List MarketEvent) := fun _ => none
  /-- The number of the last event of a symbol. -/
  lastSeq : SymbolId → Option Seq := fun _ => none
  /-- The subscriptions that the shared pointers are to. -/
  subs : SubscriberId → Subscription := fun id => { id }
  /-- What the thread has taken from the outbox. Only the statements read it. -/
  routed : List Output := []

namespace Publisher

/-- The constructor. -/
def make (symbols : List SymbolId) (options : PublisherOptions) : Except Thrown Publisher :=
  if options.queueCapacity = 0 then .error (.invalidArgument "queue_capacity must be > 0")
  else if ¬ symbols.Nodup then
    .error (.invalidArgument "duplicate symbol in publisher symbol list")
  else .ok { symbolList := symbols, options }

/-- `try_push` on the subscription of an entry. -/
def tryPush (p : Publisher) (id : SubscriberId) (item : FeedItem) : Publisher × Bool :=
  let (sub, pushed) := (p.subs id).tryPush item
  ({ p with subs := Function.update p.subs id sub }, pushed)

/-- `Publisher::drop`: a subscription leaves the table and its slot, and ends. -/
def drop (p : Publisher) (id : SubscriberId) (reason : EndReason) : Publisher :=
  match p.subscribers.lookup id with
  | none => p
  | some entry =>
    -- The first reason stays, and the gateway may subscribe again.
    let sub := (p.subs id).endWith reason
    let p := { p with subs := Function.update p.subs id sub }
    let p := match entry.kind with
      | .replies => { p with repliesByGateway := Function.update p.repliesByGateway sub.gatewayId none }
      | .market => { p with marketByGateway := Function.update p.marketByGateway sub.gatewayId none }
    { p with subscribers := p.subscribers.erase id }

/-- A subscriber that was too slow is counted. -/
def countSlow (p : Publisher) : Publisher :=
  { p with stats := { p.stats with slowConsumerDrops := p.stats.slowConsumerDrops + 1 } }

/-- Drop a subscriber whose queue is full. -/
def dropSlow (p : Publisher) (id : SubscriberId) : Publisher := p.countSlow.drop id .slowConsumer

/-- `remember`: an event is kept for those who resume. -/
def remember (p : Publisher) (event : MarketEvent) : Publisher :=
  let kept := (p.history event.symbol).getD [] ++ [event]
  let kept :=
    -- Without a window the last number is still remembered.
    if p.options.replayWindow = 0 then []
    else if p.options.replayWindow < kept.length then kept.tail
    else kept
  { p with
    history := Function.update p.history event.symbol (some kept)
    lastSeq := Function.update p.lastSeq event.symbol (some event.event.sequenceNumber) }

/-- One pass of the loop over the subscribers, and the ones found too slow so far. -/
def offerEvent (event : MarketEvent) (acc : Publisher × List SubscriberId)
    (entry : Σ _ : SubscriberId, Subscriber) : Publisher × List SubscriberId :=
  let (p, tooSlow) := acc
  if entry.2.wants event then
    let (p, pushed) := p.tryPush entry.1 (.marketEvent event)
    -- The table is not changed while the loop goes over it; the slow ones are dropped behind it.
    if pushed then (p, tooSlow) else (p, tooSlow ++ [entry.1])
  else (p, tooSlow)

/-- `route_event`: an event goes to all that want it. -/
def routeEvent (p : Publisher) (event : MarketEvent) : Publisher :=
  -- It is remembered first, so that a later request finds it in the window.
  let p := p.remember event
  let p := { p with stats := { p.stats with eventsRouted := p.stats.eventsRouted + 1 } }
  let (p, tooSlow) := p.subscribers.entries.foldl (offerEvent event) (p, [])
  tooSlow.foldl dropSlow p

/-- `route_reply`: an answer goes to its gateway, if that listens. -/
def routeReply (p : Publisher) (reply : Reply) : Except Thrown Publisher :=
  match p.repliesByGateway reply.gatewayId with
  -- Nobody listens for the gateway.
  | none => .ok { p with stats := { p.stats with repliesDropped := p.stats.repliesDropped + 1 } }
  | some id =>
    match p.subscribers.lookup id with
    | none => .error .outOfRange
    | some _ =>
      let (p, pushed) := p.tryPush id (.reply reply)
      .ok (if pushed then p else p.dropSlow id)

/-- `route_snapshot`: a snapshot goes to the one that asked for it, and makes its symbol live. -/
def routeSnapshot (p : Publisher) (ready : SnapshotReady) : Publisher :=
  match p.subscribers.lookup ready.subscriber with
  -- It left before its snapshot was ready.
  | none => p
  | some entry =>
    match entry.live ready.symbol with
    | none => p
    | some state =>
      -- A symbol goes live once, with its first snapshot.
      if state.live then p
      else
        let live := Function.update entry.live ready.symbol (some { state with live := true })
        let p := { p with subscribers := p.subscribers.insert ready.subscriber { entry with live } }
        let (p, pushed) := p.tryPush ready.subscriber (.snapshotReady ready)
        if pushed then p else p.dropSlow ready.subscriber

/-- `route`: an output goes where it belongs. -/
def route (p : Publisher) : Output → Except Thrown Publisher
  | .marketEvent event => .ok (p.routeEvent event)
  | .reply reply => p.routeReply reply
  | .snapshotReady ready => .ok (p.routeSnapshot ready)
  | .outboxClosed => .ok p

/-- What the loop of `run` does when the outbox is closed. -/
def close (p : Publisher) : Publisher where
  symbolList := p.symbolList
  options := p.options
  nextId := p.nextId
  closed := true
  stats := p.stats
  history := p.history
  lastSeq := p.lastSeq
  subs := p.subscribers.entries.foldl
    (fun subs entry => Function.update subs entry.1 ((subs entry.1).endWith .shutdown)) p.subs
  routed := p.routed

/-- The loop of `run`, on the next output of the outbox. The thread returns when it has closed. -/
def take (p : Publisher) (output : Output) : Except Thrown Publisher :=
  if p.closed then .ok p
  else
    let p := { p with routed := p.routed ++ [output] }
    match output with
    | .outboxClosed => .ok p.close
    | _ => p.route output

/-! ## Subscribing -/

/-- The symbols of a request, sorted and without repetition; by default, all. -/
def asked (p : Publisher) (symbols : List SymbolId) : List SymbolId :=
  -- An empty request asks for every symbol.
  let symbols := if symbols.isEmpty then p.symbolList else symbols
  (symbols.insertionSort fun a b => a ≤ b).dedup

/-- The number of the last event of a symbol, or zero. -/
def last (p : Publisher) (symbol : SymbolId) : Seq := (p.lastSeq symbol).getD 0

/-- The sequence number of the oldest event that is kept. -/
def oldest (p : Publisher) (symbol : SymbolId) : Seq :=
  match (p.history symbol).getD [] with
  -- Nothing is kept, so only what comes next can be had.
  | [] => p.last symbol + 1
  | event :: _ => event.event.sequenceNumber

/-- The kept events of a symbol from a sequence number on. -/
def replayed (p : Publisher) (symbol : SymbolId) (wanted : Seq) : List MarketEvent :=
  ((p.history symbol).getD []).filter fun event => wanted ≤ event.event.sequenceNumber

/-- The pushes of a replay. -/
def pushAll (sub : Subscription) : List MarketEvent → Except Thrown Subscription
  | [] => .ok sub
  | event :: events =>
    match sub.tryPush (.marketEvent event) with
    | (sub, true) => pushAll sub events
    -- The capacity has room for the whole replay, so this is not reached.
    | (_, false) => .error (.logicError "replay does not fit subscription queue")

/-- The loop over the symbols of a request: replay, or a snapshot to ask for. -/
def replay (p : Publisher) (fromSeq : FromSeq) :
    List SymbolId → Subscription → Except Thrown (Subscription × List SymbolId)
  | [], sub => .ok (sub, [])
  | symbol :: symbols, sub =>
    match fromSeq.lookup symbol with
    | none => (p.replay fromSeq symbols sub).map fun (sub, snapshots) => (sub, symbol :: snapshots)
    | some wanted => (pushAll sub (p.replayed symbol wanted)).bind (p.replay fromSeq symbols)

/-- The state of each symbol of a request. A replayed symbol is live, from where it was asked for. -/
def symbolStates (fromSeq : FromSeq) (symbols : List SymbolId) (symbol : SymbolId) :
    Option SymbolState :=
  if symbol ∈ symbols then
    match fromSeq.lookup symbol with
    -- It waits for its snapshot, and is given nothing before.
    | none => some {}
    | some wanted => some { live := true, skipBelow := wanted }
  else none

/-- Register a subscription of either kind. -/
def register (p : Publisher) (sub : Subscription) (entry : Subscriber) : Publisher :=
  let p := { p with
    nextId := p.nextId + 1
    subscribers := p.subscribers.insert sub.id entry
    subs := Function.update p.subs sub.id sub }
  match entry.kind with
  | .market => { p with marketByGateway := Function.update p.marketByGateway sub.gatewayId sub.id }
  | .replies => { p with repliesByGateway := Function.update p.repliesByGateway sub.gatewayId sub.id }

/-- The publisher after a request, the answer, and the symbols whose snapshots are then asked for. -/
def subscribe (p : Publisher) (gatewayId : GatewayId) (symbols : List SymbolId) (fromSeq : FromSeq) :
    Except Thrown (Publisher × SubscribeResult × List SymbolId) :=
  let refused (error : SubscribeError) (detail : String) :
      Except Thrown (Publisher × SubscribeResult × List SymbolId) := .ok (p, { error, detail }, [])
  let symbols := p.asked symbols
  if gatewayId = "" then refused .emptyGatewayId "gateway_id is empty"
  else if symbols.any fun symbol => symbol ∉ p.symbolList then refused .unknownSymbol "unknown symbol"
  else if fromSeq.entries.any fun entry => entry.1 ∉ symbols || entry.2 < 1 then
    refused .badFromSeq "from_seq must name a subscribed symbol and be at least 1"
  else if p.closed then refused .closed "closed"
  else if (p.marketByGateway gatewayId).isSome then
    refused .gatewayAlreadySubscribed "gateway_id is already subscribed"
  else
    -- The first symbol whose events are gone refuses the whole request.
    match fromSeq.entries.find? fun entry =>
        entry.2 ≤ p.last entry.1 && entry.2 < p.oldest entry.1 with
    | some ⟨symbol, wanted⟩ =>
      let stats := { p.stats with tooOldRefusals := p.stats.tooOldRefusals + 1 }
      .ok ({ p with stats },
        { error := .tooOld
          detail := "requested sequence " ++ toString wanted ++ " for symbol " ++ toString symbol ++
            " is older than the oldest retained event " ++ toString (p.oldest symbol) }, [])
    | none =>
      let replayCount := (fromSeq.entries.map fun entry => (p.replayed entry.1 entry.2).length).sum
      let id := p.nextId
      -- The replay does not eat into the room that a subscriber has for what is live.
      let sub := { id, gatewayId, capacity := p.options.queueCapacity + replayCount }
      (p.replay fromSeq symbols sub).map fun (sub, snapshots) =>
        let stats := { p.stats with replayedEvents := p.stats.replayedEvents + sub.items.length }
        let entry := { live := symbolStates fromSeq symbols }
        ({ p with stats }.register sub entry, { subscription := some id }, snapshots)

/-- `subscribe_replies`. -/
def subscribeReplies (p : Publisher) (gatewayId : GatewayId) : Publisher × SubscribeResult :=
  if gatewayId = "" then (p, { error := .emptyGatewayId, detail := "gateway_id is empty" })
  else if p.closed then (p, { error := .closed, detail := "closed" })
  else if (p.repliesByGateway gatewayId).isSome then
    (p, { error := .gatewayAlreadySubscribed, detail := "gateway_id is already subscribed" })
  else
    let sub := { id := p.nextId, gatewayId, capacity := p.options.queueCapacity }
    (p.register sub { kind := .replies }, { subscription := some p.nextId })

/-- `unsubscribe`: nothing happens to an id that is not in the table. -/
def unsubscribe (p : Publisher) (id : SubscriberId) : Publisher := p.drop id .unsubscribed

/-- A consumer takes an item. -/
def nextFor (p : Publisher) (id : SubscriberId) : Publisher :=
  { p with subs := Function.update p.subs id (p.subs id).nextFor.1 }

/-! ## Runs -/

/-- What the threads around a publisher do to it, one at a time. -/
inductive Action where
  /-- The thread takes an output. -/
  | take (output : Output)
  /-- A gateway asks for market data. -/
  | subscribe (gatewayId : GatewayId) (symbols : List SymbolId) (fromSeq : FromSeq)
  /-- A gateway asks for its replies. -/
  | subscribeReplies (gatewayId : GatewayId)
  /-- A subscription is given up. -/
  | unsubscribe (id : SubscriberId)
  /-- A consumer takes an item. -/
  | nextFor (id : SubscriberId)

/-- One action. -/
def act (p : Publisher) : Action → Except Thrown Publisher
  | .take output => p.take output
  | .subscribe gatewayId symbols fromSeq => (p.subscribe gatewayId symbols fromSeq).map Prod.fst
  | .subscribeReplies gatewayId => .ok (p.subscribeReplies gatewayId).1
  | .unsubscribe id => .ok (p.unsubscribe id)
  | .nextFor id => .ok (p.nextFor id)

/-- A list of actions, in the order in which they happen. -/
def run (p : Publisher) (actions : List Action) : Except Thrown Publisher := actions.foldlM act p

end Publisher

end OrderBookEngine
