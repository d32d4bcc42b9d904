import OrderBookEngine.Server.Publisher
import OrderBookEngine.Server.Worker

/-!
# The engine node

`engine_node.cpp`: the workers, each with its inbox, push into one outbox, and the publisher takes from
it. The threads are a step relation over the queues between them: an action is what one thread does at
once, and `none` says that it cannot be done, because a queue is empty or because the thread has ended.

A worker is private to its thread. So an item is handled in one action, and then its outputs are pushed
one at a time: what is still to be pushed is the `outbox` of the `Worker`.

The lock of the publisher makes `route` one action, but a queue has a lock of its own. Between the push
that finds a queue full and the drop of its subscriber the consumer can pop, so the finding (`miss`) can
be an action before the `route` that drops. Nobody else gets the publisher's lock between the two.
-/

namespace OrderBookEngine

/-- A line of the instrument list. -/
structure Instrument where
  /-- Its name. -/
  id : SymbolId
  /-- The worker that hosts it. -/
  partition : ℕ
  /-- How its book is configured. -/
  cfg : Config

/-- A worker with its thread. -/
structure WorkerThread where
  /-- Its books, and what it has yet to push. -/
  worker : Worker
  /-- The items that it has yet to take. -/
  inbox : List Stamped := []
  /-- `true` once the loop has met a shutdown. -/
  returned : Bool := false

/-- The workers and the publisher, with the queue between them. -/
structure EngineNode where
  /-- The worker of each partition. -/
  threads : ℕ → WorkerThread
  /-- The partition of each symbol. -/
  workerOf : SymbolId → Option ℕ
  /-- What has been pushed, and the publisher has yet to take. -/
  outbox : List Output := []
  /-- The publisher and its subscribers. -/
  publisher : Publisher
  /-- The symbols that the call behind a subscriber has yet to request the snapshots of. -/
  requests : SubscriberId → List SymbolId := fun _ => []
  /-- Found too slow for the next output, and not yet dropped. -/
  tooSlow : List SubscriberId := []

/-- A worker that has pushed all takes the next item. -/
def WorkerThread.work (t : WorkerThread) : Option WorkerThread :=
  -- The loop pushes all that an item gives before it pops the next one.
  if t.returned ∨ t.worker.outbox ≠ [] then none
  else
    match t.inbox with
    | [] => none
    | item :: inbox =>
      (t.worker.run [item]).map fun worker => { worker, inbox, returned := item.command = .shutdown }

/-- A thread at work runs, has pushed all, and handles the first item of its inbox. -/
theorem WorkerThread.work_spec {t t' : WorkerThread} (h : t.work = some t') :
    ∃ item inbox w, t.returned = false ∧ t.worker.outbox = [] ∧ t.inbox = item :: inbox ∧
      t.worker.run [item] = some w ∧ t' = { worker := w, inbox, returned := item.command = .shutdown } := by
  unfold work at h
  split_ifs at h with hbusy
  obtain ⟨hrunning, hidle⟩ := not_or.mp hbusy
  cases hinbox : t.inbox with
  | nil => simp [hinbox] at h
  | cons item inbox =>
    simp only [hinbox] at h
    obtain ⟨w, hrun, rfl⟩ := Option.map_eq_some_iff.mp h
    exact ⟨item, inbox, w, Bool.not_eq_true _ ▸ hrunning, not_not.mp hidle, rfl, hrun, rfl⟩

/-- `Worker::add_book`, before the start. -/
def Worker.addBook (w : Worker) (symbol : SymbolId) (cfg : Config) : Except Thrown Worker :=
  if (w.books symbol).isSome then .error (.logicError "Book already exists")
  else .ok { w with books := Function.update w.books symbol (some { book := Book.make cfg }) }

/-- The publisher drops the subscriber when it takes the output, because its queue is full. -/
def Publisher.tooSlowFor (p : Publisher) (output : Output) (id : SubscriberId) : Bool :=
  match p.take output with
  | .ok p' => (p.subs id).endReason = .none && (p'.subs id).endReason = .slowConsumer
  | .error _ => false

namespace EngineNode

/-- One pass of the loop over the instruments. -/
def addInstrument (partitions : ℕ) (workers : ℕ → Worker) (instrument : Instrument) :
    Except Thrown (ℕ → Worker) :=
  if partitions ≤ instrument.partition then .error .outOfRange
  else
    ((workers instrument.partition).addBook instrument.id instrument.cfg).map
      (Function.update workers instrument.partition)

/-- The setup in `main`. The first entry of a symbol in the map of the workers stays. -/
def make (partitions : ℕ) (instruments : List Instrument) (options : PublisherOptions) :
    Except Thrown EngineNode := do
  let workers ← instruments.foldlM (addInstrument partitions) fun _ => Worker.make fun _ => none
  let publisher ← Publisher.make (instruments.map Instrument.id) options
  return {
    threads := fun i => { worker := workers i }
    workerOf := fun symbol =>
      (instruments.find? fun instrument => instrument.id = symbol).map Instrument.partition
    publisher }

/-- What the threads of a node do, one at a time. -/
inductive Action where
  /-- A feed, or the shutdown, hands an item to a worker. -/
  | submit (worker : ℕ) (item : Stamped)
  /-- A worker takes an item. -/
  | work (worker : ℕ)
  /-- A worker pushes an output. -/
  | push (worker : ℕ)
  /-- The outbox is closed. -/
  | closeOutbox
  /-- The publisher finds a queue full. -/
  | miss (id : SubscriberId)
  /-- The publisher takes an output. -/
  | route
  /-- A gateway asks for market data. -/
  | subscribe (gatewayId : GatewayId) (symbols : List SymbolId) (fromSeq : FromSeq)
  /-- The call behind a subscriber requests its next snapshot. -/
  | request (id : SubscriberId)
  /-- A gateway asks for its replies. -/
  | subscribeReplies (gatewayId : GatewayId)
  /-- A subscription is given up. -/
  | unsubscribe (id : SubscriberId)
  /-- A consumer takes an item. -/
  | nextFor (id : SubscriberId)

/-- A thread in the place of another. -/
def setThread (n : EngineNode) (i : ℕ) (t : WorkerThread) : EngineNode :=
  { n with threads := Function.update n.threads i t }

/-- `Worker::submit`. -/
def submit (n : EngineNode) (i : ℕ) (item : Stamped) : EngineNode :=
  n.setThread i { n.threads i with inbox := (n.threads i).inbox ++ [item] }

/-- The thread of a worker takes the next item. -/
def work (n : EngineNode) (i : ℕ) : Option EngineNode := (n.threads i).work.map (n.setThread i)

/-- A worker pushes its next output. -/
def push (n : EngineNode) (i : ℕ) : Option EngineNode :=
  let t := n.threads i
  match t.worker.outbox with
  | [] => none
  | output :: outputs =>
    some { n.setThread i { t with worker := { t.worker with outbox := outputs } } with
      outbox := n.outbox ++ [output] }

/-- The publisher finds the queue of a subscriber full when it offers the next output. -/
def miss (n : EngineNode) (id : SubscriberId) : Option EngineNode :=
  if n.publisher.closed then none
  else
    match n.outbox with
    | [] => none
    | output :: _ =>
      -- The queue is full now; its consumer may still take an item before the drop.
      if n.publisher.tooSlowFor output id then some { n with tooSlow := n.tooSlow ++ [id] } else none

/-- The publisher takes the next output. -/
def route (n : EngineNode) : Option EngineNode :=
  if n.publisher.closed then none
  else
    match n.outbox with
    | [] => none
    | output :: outbox =>
      -- Those found too slow go, whatever has been taken from their queues since.
      ((n.tooSlow.foldl Publisher.dropSlow n.publisher).take output).toOption.map fun publisher =>
        { n with outbox, publisher, tooSlow := [] }

/-- The publisher under its lock, if nobody has it. -/
def locked (n : EngineNode) (f : Publisher → Publisher) : Option EngineNode :=
  if n.tooSlow = [] then some { n with publisher := f n.publisher } else none

/-- `subscribe`, up to the end of its lock. -/
def subscribe (n : EngineNode) (gatewayId : GatewayId) (symbols : List SymbolId) (fromSeq : FromSeq) :
    Option EngineNode :=
  if n.tooSlow = [] then
    (n.publisher.subscribe gatewayId symbols fromSeq).toOption.map
      fun (publisher, result, snapshots) =>
        match result.subscription with
        | none => { n with publisher }
        -- The snapshots are requested one by one, behind the lock.
        | some id => { n with publisher, requests := Function.update n.requests id snapshots }
  else none

/-- The `SnapshotRequester`: the snapshot command goes to the worker of the symbol. -/
def requestSnapshot (n : EngineNode) (symbol : SymbolId) (subscriber : SubscriberId) : Option EngineNode :=
  (n.workerOf symbol).map fun i => n.submit i { command := .takeSnapshot symbol subscriber }

/-- One pass of the loop at the end of `subscribe`. -/
def request (n : EngineNode) (id : SubscriberId) : Option EngineNode :=
  match n.requests id with
  | [] => none
  | symbol :: symbols =>
    { n with requests := Function.update n.requests id symbols }.requestSnapshot symbol id

/-- One action of a thread. -/
def step (n : EngineNode) : Action → Option EngineNode
  | .submit i item => some (n.submit i item)
  | .work i => n.work i
  | .push i => n.push i
  | .closeOutbox => some { n with outbox := n.outbox ++ [.outboxClosed] }
  | .miss id => n.miss id
  | .route => n.route
  | .subscribe gatewayId symbols fromSeq => n.subscribe gatewayId symbols fromSeq
  | .request id => n.request id
  | .subscribeReplies gatewayId => n.locked fun p => (p.subscribeReplies gatewayId).1
  | .unsubscribe id => n.locked fun p => p.unsubscribe id
  | .nextFor id => some { n with publisher := n.publisher.nextFor id }

/-- A list of actions, in the order in which they happen. -/
def run (n : EngineNode) (actions : List Action) : Option EngineNode := actions.foldlM step n

end EngineNode

end OrderBookEngine
