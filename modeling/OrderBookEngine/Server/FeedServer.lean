import OrderBookEngine.Server.FeedCodec
import OrderBookEngine.Server.Process

/-!
# The feed server

`engine_feed_server.cpp`: every call of a gateway has a handler, which subscribes at the publisher and then
pumps what its subscription is given to the client, until the client or the subscription ends. A handler
is cut where it lets go of a lock or waits, so that the threads of the process and the other handlers can
move in between: an empty poll and the question whether the subscription has ended are two actions, and so
are the status of a call and the `unsubscribe` when its handler leaves.

What the client does is left open: it may go away before any pass of the loop, and any write may fail.
-/

namespace OrderBookEngine

/-- What a handler writes: `FeedMessage`s to a market stream, `Reply`s to the other. -/
inductive Message where
  /-- An item of market data. -/
  | feed (message : Pb.FeedMessage)
  /-- An answer to a command. -/
  | reply (message : Pb.Reply)
deriving DecidableEq, Repr

/-- How far a handler is. -/
inductive PumpStage where
  /-- It is behind the lock of `subscribe`. -/
  | subscribing
  /-- At the head of the loop. -/
  | head
  /-- `next_for` has returned nothing. -/
  | empty
  /-- It has taken an item, and has yet to write it. -/
  | holding (message : Message)
  /-- It returns with a status. -/
  | returned (status : Status)
  /-- It has called `unsubscribe`. -/
  | left (status : Status)
deriving DecidableEq, Repr

/-- The handler of a call that holds a subscription. -/
structure Handler where
  /-- Which stream it writes. -/
  kind : SubscriberKind
  /-- Whose stream it is. -/
  gatewayId : GatewayId
  /-- Where it is in its loop. -/
  stage : PumpStage := .subscribing
  /-- What it has written so far. -/
  written : List Message := []
deriving DecidableEq, Repr

/-- The process, with the handlers of its streams. -/
structure FeedServer where
  /-- The node and its other threads. -/
  process : Process
  /-- By the id of the subscription. -/
  handlers : SubscriberId → Option Handler := fun _ => none
  /-- The statuses of the calls that have been refused. -/
  refused : List Status := []
  /-- What has been written to the log. -/
  logged : List String := []

/-! ## Statuses -/

/-- `refusal`: the status of a call that is refused. -/
def refusal (error : SubscribeError) (gatewayId : GatewayId) (rpc : String) (detail : String := "") :
    Status :=
  match error with
  | .emptyGatewayId => ⟨.invalidArgument, "gateway_id must not be empty"⟩
  | .gatewayAlreadySubscribed =>
    ⟨.alreadyExists, "gateway " ++ gatewayId ++ " already has a " ++ rpc ++ " stream"⟩
  | .unknownSymbol => ⟨.notFound, "unknown symbol in request"⟩
  | .closed => ⟨.unavailable, "engine is shutting down"⟩
  | .badFromSeq => ⟨.invalidArgument, if detail.isEmpty then "invalid from_seq" else detail⟩
  | .tooOld =>
    ⟨.outOfRange, if detail.isEmpty then "requested events are no longer retained" else detail⟩
  | .none => ⟨.internal, "unexpected subscribe result"⟩

namespace SubscriberKind

/-- The name of the call. -/
def rpc : SubscriberKind → String
  | .market => "Subscribe"
  | .replies => "SubscribeReplies"

/-- The name of the stream in the log. -/
def stream : SubscriberKind → String
  | .market => "market"
  | .replies => "replies"

/-- What a consumer is told that was too slow. -/
def slowMessage : SubscriberKind → String
  | .market => "fell behind; subscribe again for a fresh snapshot"
  | .replies => "fell behind; queued replies were lost, treat their outcomes as unknown"

/-- The `fill` that is handed to the pump; nothing when the item does not belong on the stream. -/
def fill : SubscriberKind → FeedItem → Except Thrown (Option Message)
  | .market, .reply _ => .ok none -- cannot happen: market subscribers get no replies
  | .market, item => item.fillFeedMessage.map fun message => some (.feed message)
  | .replies, .reply reply => .ok (some (.reply reply.fill))
  | .replies, _ => .ok none -- cannot happen: replies subscribers get nothing else

/-- The status of a pump whose subscription has ended. -/
def endStatus (kind : SubscriberKind) : EndReason → Status
  | .slowConsumer => ⟨.resourceExhausted, kind.slowMessage⟩
  | .shutdown => ⟨.unavailable, "engine is shutting down"⟩
  | .unsubscribed | .none => ⟨.cancelled, "unsubscribed"⟩

end SubscriberKind

/-- The status of a call whose client has gone. -/
def wentAway : Status := ⟨.cancelled, "subscriber went away"⟩

/-- The status of a call whose stream cannot be written. -/
def streamBroken : Status := ⟨.cancelled, "stream broken"⟩

/-- How the log names a handler. -/
def Handler.who (h : Handler) : String := "gateway " ++ h.gatewayId ++ " (" ++ h.kind.stream ++ ")"

/-- The actions of a node that are not the handlers'. -/
def EngineNode.Action.ofThreads : EngineNode.Action → Bool
  | .submit _ _ | .work _ | .push _ | .closeOutbox | .miss _ | .route => true
  | _ => false

/-- The actions of a process that are not the handlers'. -/
def Process.Action.ofThreads : Process.Action → Bool
  | .node action => action.ofThreads
  | _ => true

namespace FeedServer

/-- What the threads of the process and the handlers do, and the clients. -/
inductive Action where
  /-- A thread of the process does something. -/
  | process (action : Process.Action)
  /-- A gateway calls `Subscribe`. -/
  | subscribe (gatewayId : GatewayId) (symbols : List SymbolId) (fromSeq : FromSeq)
  /-- A gateway calls `SubscribeReplies`. -/
  | subscribeReplies (gatewayId : GatewayId)
  /-- The rest of `subscribe` requests a snapshot. -/
  | request (id : SubscriberId)
  /-- The loop of a handler begins. -/
  | pump (id : SubscriberId)
  /-- The client has gone away. -/
  | cancelled (id : SubscriberId)
  /-- A handler asks for the next item. -/
  | poll (id : SubscriberId)
  /-- A handler asks whether its subscription has ended. -/
  | check (id : SubscriberId)
  /-- A handler writes, or fails to. -/
  | write (id : SubscriberId) (written : Bool)
  /-- A handler unsubscribes. -/
  | leave (id : SubscriberId)

/-- The publisher of the process. -/
def publisher (s : FeedServer) : Publisher := s.process.node.publisher

/-- A line is written to the log. -/
def log (s : FeedServer) (message : String) : FeedServer := { s with logged := s.logged ++ [message] }

/-- A handler comes to another stage. -/
def setHandler (s : FeedServer) (id : SubscriberId) (h : Handler) : FeedServer :=
  { s with handlers := Function.update s.handlers id (some h) }

/-- An action of a subscriber at the publisher. -/
def onNode (s : FeedServer) (a : EngineNode.Action) : Option FeedServer :=
  (s.process.node.step a).map fun node => { s with process := { s.process with node } }

/-- A handler in some stage. -/
def handlerAt (s : FeedServer) (id : SubscriberId) (stage : PumpStage) : Option Handler :=
  (s.handlers id).filter fun h => h.stage = stage

/-- What a handler does with the answer of the publisher. -/
def answer (s : FeedServer) (kind : SubscriberKind) (gatewayId : GatewayId) (result : SubscribeResult) :
    Option FeedServer :=
  if result.error ≠ .none then
    -- The detail of a refusal is for market streams.
    let detail := match kind with
      | .market => result.detail
      | .replies => ""
    some { s with refused := s.refused ++ [refusal result.error gatewayId kind.rpc detail] }
  else result.subscription.map fun id => s.setHandler id { kind, gatewayId }

/-- `Subscribe`, up to its loop. -/
def subscribe (s : FeedServer) (gatewayId : GatewayId) (symbols : List SymbolId) (fromSeq : FromSeq) :
    Option FeedServer :=
  (s.onNode (.subscribe gatewayId symbols fromSeq)).bind fun s' =>
    -- The answer is that of the publisher before the call.
    (s.publisher.subscribe gatewayId symbols fromSeq).toOption.bind fun (_, result, _) =>
      s'.answer .market gatewayId result

/-- `SubscribeReplies`, up to its loop. -/
def subscribeReplies (s : FeedServer) (gatewayId : GatewayId) : Option FeedServer :=
  (s.onNode (.subscribeReplies gatewayId)).bind fun s' =>
    s'.answer .replies gatewayId (s.publisher.subscribeReplies gatewayId).2

/-- The call requests the next of its snapshots. -/
def request (s : FeedServer) (id : SubscriberId) : Option FeedServer :=
  (s.handlerAt id .subscribing).bind fun _ => s.onNode (.request id)

/-- The pump begins when every snapshot has been requested. -/
def pump (s : FeedServer) (id : SubscriberId) : Option FeedServer :=
  (s.handlerAt id .subscribing).bind fun h =>
    if s.process.node.requests id = [] then
      some ((s.setHandler id { h with stage := .head }).log (h.who ++ " subscribed"))
    else none

/-- The pass of the loop finds that the client has gone. -/
def cancelled (s : FeedServer) (id : SubscriberId) : Option FeedServer :=
  (s.handlerAt id .head).map fun h =>
    (s.setHandler id { h with stage := .returned wentAway }).log (h.who ++ " went away")

/-- The pass of the loop takes an item, if there is one. -/
def poll (s : FeedServer) (id : SubscriberId) : Option FeedServer :=
  (s.handlerAt id .head).bind fun h =>
    (s.onNode (.nextFor id)).bind fun s' =>
      match (s.publisher.subs id).nextFor.2 with
      | none => some (s'.setHandler id { h with stage := .empty })
      | some item =>
        match h.kind.fill item with
        -- An exception would end the handler: `poll` has no such step.
        | .error _ => none
        -- `continue`: the item is not for this stream.
        | .ok none => some s'
        | .ok (some message) => some (s'.setHandler id { h with stage := .holding message })

/-- The loop asks whether the subscription has ended, and goes on when it has not. -/
def check (s : FeedServer) (id : SubscriberId) : Option FeedServer :=
  (s.handlerAt id .empty).map fun h =>
    match (s.publisher.subs id).endReason with
    | .none => s.setHandler id { h with stage := .head }
    | reason =>
      let s := s.setHandler id { h with stage := .returned (h.kind.endStatus reason) }
      if reason = .slowConsumer then s.log (h.who ++ " dropped: fell behind") else s

/-- The message is written, or the stream is found broken. -/
def write (s : FeedServer) (id : SubscriberId) (written : Bool) : Option FeedServer :=
  (s.handlers id).bind fun h =>
    match h.stage with
    | .holding message =>
      if written then some (s.setHandler id { h with stage := .head, written := h.written ++ [message] })
      else
        some ((s.setHandler id { h with stage := .returned streamBroken }).log (h.who ++ " stream broke"))
    | _ => none

/-- However a handler ends, it leaves. -/
def leave (s : FeedServer) (id : SubscriberId) : Option FeedServer :=
  (s.handlers id).bind fun h =>
    match h.stage with
    | .returned status =>
      -- The destructor of `Leave` runs behind the `return`, so the status is fixed by now.
      (s.onNode (.unsubscribe id)).map fun s => s.setHandler id { h with stage := .left status }
    | _ => none

/-- One action. -/
def step (pb : Protobuf) (s : FeedServer) : Action → Option FeedServer
  | .process action =>
    if action.ofThreads then (s.process.step pb action).map fun process => { s with process } else none
  | .subscribe gatewayId symbols fromSeq => s.subscribe gatewayId symbols fromSeq
  | .subscribeReplies gatewayId => s.subscribeReplies gatewayId
  | .request id => s.request id
  | .pump id => s.pump id
  | .cancelled id => s.cancelled id
  | .poll id => s.poll id
  | .check id => s.check id
  | .write id written => s.write id written
  | .leave id => s.leave id

/-- A list of actions, in the order in which they happen. -/
def run (pb : Protobuf) (s : FeedServer) (actions : List Action) : Option FeedServer :=
  actions.foldlM (step pb) s

end FeedServer

end OrderBookEngine
