import OrderBookEngine.Server.Codec

/-!
# The sequencer feed

`sequencer_feed.cpp`: one thread subscribes to the sequencer, hands every command that it is sent to the
worker, and subscribes again when a stream ends. What the sequencer and the owner of the feed do is a
list of attempts; a thread that has returned leaves the rest of the list alone.
-/

namespace OrderBookEngine

/-- A command as the sequencer sends it. -/
structure SequencedCommand where
  /-- Its number in the partition. -/
  seq : UInt64
  /-- The time that the sequencer took. -/
  ts : ℤ
  /-- The symbol that it is for. -/
  symbol : SymbolId
  /-- The client's name for it. -/
  clientOrderId : ClientOrderId
  /-- Where it came from. -/
  gatewayId : GatewayId
  /-- Who sent it. -/
  accountId : AccountId
  /-- The body, as bytes. -/
  payload : Payload
deriving DecidableEq, Repr

/-- The codes of the calls' statuses. -/
inductive StatusCode where
  | ok
  | cancelled
  | unknown
  | invalidArgument
  | deadlineExceeded
  | notFound
  | alreadyExists
  | permissionDenied
  | resourceExhausted
  | failedPrecondition
  | aborted
  | outOfRange
  | unimplemented
  | internal
  | unavailable
  | dataLoss
  | unauthenticated
deriving DecidableEq, Repr

/-- How a call has ended. -/
structure Status where
  /-- The code. -/
  code : StatusCode
  /-- The text that the sequencer gives. -/
  message : String := ""
deriving DecidableEq, Repr

/-- What happens around one pass of the loop of `run`. -/
structure Attempt where
  /-- `stop` has been called before the stream is opened. -/
  stopping : Bool := false
  /-- The messages read from the stream. -/
  messages : List SequencedCommand := []
  /-- How the stream ended. -/
  status : Status
  /-- `stop` has been called by the end of the stream. -/
  stopped : Bool := false
  /-- `stop` is called during the wait. -/
  stoppedWaiting : Bool := false
deriving DecidableEq, Repr

/-- How a feed is configured. -/
structure FeedOptions where
  /-- Where the sequencer is. -/
  address : String
  /-- The partition to subscribe to. -/
  partition : ℕ := 0
  /-- The first number wanted. -/
  fromSeq : UInt64 := 1
  /-- How many refusals in a row are taken before the feed gives up. -/
  maxAlreadyExistsRetries : ℤ := 50
deriving DecidableEq, Repr

/-- Why a feed fails. -/
inductive FeedFailure where
  /-- A number was left out. -/
  | gap (expected got : UInt64)
  /-- A command was for a symbol of another worker. -/
  | notOwned (symbol : SymbolId)
  /-- The sequencer cannot serve from the number asked for. -/
  | cannotServe (seq : UInt64) (message : String)
  /-- The sequencer finds the request itself wrong. -/
  | configuration (message : String)
  /-- Somebody else reads the partition. -/
  | anotherSubscriber
deriving DecidableEq, Repr

/-- The text of a failure, as it is logged. -/
def FeedFailure.reason (partition : ℕ) : FeedFailure → String
  | gap expected got => "partition " ++ toString partition ++ ": gap, expected seq " ++
      toString expected ++ " but got " ++ toString got
  | notOwned symbol => "partition " ++ toString partition ++ ": symbol " ++ toString symbol ++
      " is not owned by this worker (config mismatch)"
  | cannotServe seq message => "sequencer cannot serve from seq " ++ toString seq ++ ": " ++ message
  | configuration message => "partition " ++ toString partition ++
      ": sequencer configuration error: " ++ message
  | anotherSubscriber => "another subscriber holds partition " ++ toString partition

/-- What a feed has done. -/
inductive FeedStep where
  /-- It has asked for a stream from a number on. -/
  | asked (seq : UInt64)
  /-- It has consumed a command. -/
  | consumed (command : SequencedCommand)
  /-- A stream has ended with `ALREADY_EXISTS`. -/
  | refused
  /-- A stream has ended otherwise, and is opened again. -/
  | retried
deriving DecidableEq, Repr

/-- The feed of a partition, as its thread goes on. -/
structure SequencerFeed where
  /-- How it is configured. -/
  options : FeedOptions
  /-- The symbols of the worker. -/
  owned : List SymbolId
  /-- The number of the last command consumed. -/
  last : UInt64
  /-- The refusals in a row. -/
  alreadyExistsRetries : ℤ := 0
  /-- Why it has failed, if it has. -/
  failure : Option FeedFailure := none
  /-- The thread has returned. -/
  returned : Bool := false
  /-- What has been handed to the worker. -/
  submitted : List Stamped := []
  /-- What has been written to the log. -/
  logged : List String := []
  /-- Only the statements read it. -/
  trace : List FeedStep := []

namespace SequencerFeed

/-- The constructor. -/
def make (owned : List SymbolId) (options : FeedOptions) : Except Thrown SequencerFeed :=
  if options.address = "" then .error (.invalidArgument "SequencerFeed needs an address")
  else if options.fromSeq = 0 then
    .error (.invalidArgument "SequencerFeed from_seq must not be zero")
  else .ok { options, owned, last := options.fromSeq - 1 }

/-- Whether the feed has failed. -/
def failed (f : SequencerFeed) : Bool := f.failure.isSome

/-- A line is written to the log. -/
def log (f : SequencerFeed) (message : String) : SequencerFeed :=
  { f with logged := f.logged ++ [message] }

/-- The feed fails, and logs why. -/
def fail (f : SequencerFeed) (failure : FeedFailure) : SequencerFeed :=
  { f with failure := some failure }.log (failure.reason f.options.partition)

/-- A step is put on record. -/
def note (f : SequencerFeed) (step : FeedStep) : SequencerFeed := { f with trace := f.trace ++ [step] }

/-- A command has been dealt with. -/
def consume (f : SequencerFeed) (command : SequencedCommand) : SequencerFeed :=
  { f with last := command.seq, alreadyExistsRetries := 0 }.note (.consumed command)

/-- What is handed to the worker for a command, unless it does not decode. -/
def stamped (pb : Protobuf) (command : SequencedCommand) : Option Stamped :=
  (pb.decodeBody command.symbol command.clientOrderId command.payload).command.map fun decoded =>
    { seq := command.seq.toNat
      ts := command.ts
      command := decoded
      gatewayId := command.gatewayId
      accountId := command.accountId }

/-- One pass of the loop over the messages of a stream. -/
def receive (pb : Protobuf) (f : SequencerFeed) (command : SequencedCommand) : SequencerFeed :=
  let expected := f.last + 1
  -- The order of the checks is that of the source: number, owner, payload.
  if command.seq ≠ expected then f.fail (.gap expected command.seq)
  else if command.symbol ∉ f.owned then f.fail (.notOwned command.symbol)
  else
    match stamped pb command with
    -- A command that does not decode is skipped, and still counts.
    | none =>
      let error := (pb.decodeBody command.symbol command.clientOrderId command.payload).error
      (f.log ("partition " ++ toString f.options.partition ++ ": skipping seq " ++
        toString command.seq ++ " from gateway " ++ command.gatewayId ++ " request " ++
        command.clientOrderId ++ ": " ++ error)).consume command
    | some item => { f with submitted := f.submitted ++ [item] }.consume command

/-- The loop over the messages of a stream, which a failure ends. -/
def readAll (pb : Protobuf) (f : SequencerFeed) : List SequencedCommand → SequencerFeed
  | [] => f
  | command :: commands =>
    let f := f.receive pb command
    if f.failed then f else f.readAll pb commands

/-- The thread returns. -/
def return_ (f : SequencerFeed) : SequencerFeed := { f with returned := true }

/-- What follows the end of a stream. -/
def finish (f : SequencerFeed) (attempt : Attempt) : SequencerFeed :=
  let status := attempt.status
  -- A failure while reading ends the thread, whatever the status.
  if f.failed then f.return_
  else if attempt.stopped then f.return_
  else if status.code = .outOfRange then
    (f.fail (.cannotServe (f.last + 1) status.message)).return_
  else if status.code = .notFound ∨ status.code = .invalidArgument then
    (f.fail (.configuration status.message)).return_
  else if status.code = .alreadyExists then
    -- The retries count from the last command that was consumed.
    let retries := f.alreadyExistsRetries + 1
    let f := { f with alreadyExistsRetries := retries }.note .refused
    if retries > f.options.maxAlreadyExistsRetries then (f.fail .anotherSubscriber).return_
    else
      let f := f.log ("partition " ++ toString f.options.partition ++
        ": subscriber already exists; retrying")
      if attempt.stoppedWaiting then f.return_ else f
  else
    -- Any other end of the stream starts the count again.
    let f : SequencerFeed := { f with alreadyExistsRetries := 0 }
    let f := (f.note .retried).log ("partition " ++ toString f.options.partition ++
      ": subscribe ended (" ++ status.message ++ "); retrying")
    if attempt.stoppedWaiting then f.return_ else f

/-- The request for a stream. -/
def ask (f : SequencerFeed) : SequencerFeed := f.note (.asked (f.last + 1))

/-- One pass of the loop of `run`. -/
def attempt (pb : Protobuf) (f : SequencerFeed) (attempt : Attempt) : SequencerFeed :=
  if f.returned then f
  else if attempt.stopping || f.failed then f.return_
  else (f.ask.readAll pb attempt.messages).finish attempt

/-- A list of attempts, until the thread has returned. -/
def run (pb : Protobuf) (f : SequencerFeed) (attempts : List Attempt) : SequencerFeed :=
  attempts.foldl (attempt pb) f

end SequencerFeed

end OrderBookEngine
