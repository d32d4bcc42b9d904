import OrderBookEngine.Server.EngineNode
import OrderBookEngine.Server.SequencerFeed

/-!
# The process

`main` of `engine_node.cpp`: a feed for each worker hands it the commands of its partition, and the main
thread waits for a signal and then stops everything, in the order of `ShutdownInOrder`. The feeds come on
top of the threads of `EngineNode`; what a feed does is cut at the calls of its stream, so that the other
threads can move between two messages.

A stop is a call, and then the wait for the thread. A stop that comes while a feed waits to retry is found
by the next pass of its loop.
-/

namespace OrderBookEngine

/-- A feed whose thread has been started. -/
structure FeedThread where
  /-- The feed itself. -/
  feed : SequencerFeed
  /-- `stop` has been called. -/
  stopping : Bool := false
  /-- A stream is open. -/
  reading : Bool := false

/-- How far the main thread has come. -/
inductive Phase where
  /-- It waits for a signal, or for a feed to fail. -/
  | serving
  /-- It stops a feed: it has called `stop`, or will. -/
  | stoppingFeed (i : ℕ) (called : Bool)
  /-- It stops a worker: it has pushed the shutdown, or will. -/
  | stoppingWorker (i : ℕ) (called : Bool)
  /-- All workers have been joined. -/
  | closingOutbox
  /-- The outbox has been closed. -/
  | joiningPublisher
  /-- It has returned from `main`. -/
  | stopped
deriving DecidableEq, Repr

/-- The process: its threads, and what the main thread has come to. -/
structure Process where
  /-- The number of partitions. -/
  partitions : ℕ
  /-- The list of instruments. -/
  instruments : List Instrument
  /-- Of the sequencer. -/
  address : String
  /-- The workers and the publisher. -/
  node : EngineNode
  /-- `none` until the thread has been started. -/
  feeds : ℕ → Option FeedThread := fun _ => none
  /-- Where the main thread is. -/
  phase : Phase := .serving

/-- The actions of the workers, the publisher and the subscribers. -/
def EngineNode.Action.internal : EngineNode.Action → Bool
  | .submit _ _ | .closeOutbox => false
  | _ => true

namespace Process

/-- The setup in `main`, up to the feeds. -/
def make (partitions : ℕ) (instruments : List Instrument) (options : PublisherOptions)
    (address : String) : Except Thrown Process :=
  (EngineNode.make partitions instruments options).map fun node =>
    { partitions, instruments, address, node }

/-- What one of the threads does. -/
inductive Action where
  /-- The thread of a feed starts. -/
  | startFeed (i : ℕ)
  /-- A feed asks for a stream. -/
  | openStream (i : ℕ)
  /-- A feed reads a command from its stream. -/
  | read (i : ℕ) (command : SequencedCommand)
  /-- A stream ends, with a status. -/
  | endStream (i : ℕ) (status : Status)
  /-- The main thread takes a step. -/
  | main
  /-- A worker, the publisher or a subscriber does something. -/
  | node (action : EngineNode.Action)

/-- A feed in the place of another. -/
def setFeed (p : Process) (i : ℕ) (t : FeedThread) : Process :=
  { p with feeds := Function.update p.feeds i (some t) }

/-- The symbols that the worker of a partition owns. -/
def owned (instruments : List Instrument) (i : ℕ) : List SymbolId :=
  (instruments.filter fun instrument => instrument.partition = i).map Instrument.id

/-- The main thread makes a feed and starts it. -/
def startFeed (p : Process) (i : ℕ) : Option Process :=
  if p.phase = .serving ∧ i < p.partitions ∧ (p.feeds i).isNone then
    (SequencerFeed.make (owned p.instruments i) { address := p.address, partition := i }).toOption.map
      fun feed => p.setFeed i { feed }
  else none

/-- The head of the loop of a feed. -/
def openStream (p : Process) (i : ℕ) : Option Process :=
  (p.feeds i).bind fun t =>
    if t.reading || t.feed.returned then none
    -- The condition of the loop: the thread returns without asking for a stream.
    else if t.stopping || t.feed.failed then some (p.setFeed i { t with feed := t.feed.return_ })
    else some (p.setFeed i { t with feed := t.feed.ask, reading := true })

/-- A stream delivers a message. What the feed submits is put into the inbox of the worker. -/
def read (pb : Protobuf) (p : Process) (i : ℕ) (command : SequencedCommand) : Option Process :=
  (p.feeds i).bind fun t =>
    if t.reading && !t.feed.failed then
      let feed := t.feed.receive pb command
      -- At most one item, that of the command.
      let items := feed.submitted.drop t.feed.submitted.length
      some { p.setFeed i { t with feed } with
        node := items.foldl (fun node item => node.submit i item) p.node }
    else none

/-- A stream ends. -/
def endStream (p : Process) (i : ℕ) (status : Status) : Option Process :=
  (p.feeds i).bind fun t =>
    if t.reading then
      some (p.setFeed i { t with
        -- A stop during the wait is found by the next `openStream`.
        feed := t.feed.finish { status, stopped := t.stopping }
        reading := false })
    else none

/-- The thread of a feed is not there, or has returned. -/
def feedJoined (p : Process) (i : ℕ) : Bool := ((p.feeds i).map fun t => t.feed.returned).getD true

/-- `stop` on a feed, up to the join. -/
def callStop (p : Process) (i : ℕ) : Process :=
  match p.feeds i with
  | none => p
  | some t => p.setFeed i { t with stopping := true }

/-- The next step of the main thread: a signal comes, and then the destructor of `ShutdownInOrder`. -/
def main (p : Process) : Option Process :=
  match p.phase with
  | .serving => some { p with phase := .stoppingFeed 0 false }
  | .stoppingFeed i false =>
    if i < p.partitions then some { p.callStop i with phase := .stoppingFeed i true }
    else some { p with phase := .stoppingWorker 0 false }
  | .stoppingFeed i true =>
    -- `join` waits until the thread has returned.
    if p.feedJoined i then some { p with phase := .stoppingFeed (i + 1) false } else none
  | .stoppingWorker i false =>
    if i < p.partitions then
      some { p with
        -- Every feed has been joined, so nothing is submitted behind this.
        node := p.node.submit i { command := .shutdown }
        phase := .stoppingWorker i true }
    else some { p with phase := .closingOutbox }
  | .stoppingWorker i true =>
    if (p.node.threads i).returned then some { p with phase := .stoppingWorker (i + 1) false }
    else none
  | .closingOutbox =>
    some { p with
      -- Every worker has returned, so this is the last output.
      node := { p.node with outbox := p.node.outbox ++ [.outboxClosed] }
      phase := .joiningPublisher }
  | .joiningPublisher => if p.node.publisher.closed then some { p with phase := .stopped } else none
  | .stopped => none

/-- One action of a thread. -/
def step (pb : Protobuf) (p : Process) : Action → Option Process
  | .startFeed i => p.startFeed i
  | .openStream i => p.openStream i
  | .read i command => p.read pb i command
  | .endStream i status => p.endStream i status
  | .main => p.main
  | .node action => if action.internal then (p.node.step action).map fun node => { p with node } else none

/-- A list of actions, in the order in which they happen. -/
def run (pb : Protobuf) (p : Process) (actions : List Action) : Option Process :=
  actions.foldlM (step pb) p

/-- What the feed of a partition has handed to the worker. -/
def submitted (p : Process) (i : ℕ) : List Stamped :=
  ((p.feeds i).map fun t => t.feed.submitted).getD []

/-- What the feed of a partition has done. -/
def trace (p : Process) (i : ℕ) : List FeedStep := ((p.feeds i).map fun t => t.feed.trace).getD []

end Process

end OrderBookEngine
