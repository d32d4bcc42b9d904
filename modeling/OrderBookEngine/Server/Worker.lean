import OrderBookEngine.Engine.Run
import OrderBookEngine.Server.Commands

/-!
# The worker

`worker.cpp`: one thread that owns some books and answers their commands in inbox order. The thread,
its start and its stop are left out: `run` is the body of its loop on the items that its inbox is given,
and `none` is the `logic_error` that ends the thread when a symbol has no book.

A model book keeps every event that it has emitted. So what `drain_events` returns is the part of its
stream that has not been drained before, and `Hosted` says how much has been.
-/

namespace OrderBookEngine

/-- A book, and how many of its events have been drained. -/
structure Hosted where
  /-- The book itself. -/
  book : Book
  /-- How many of its events have been drained. -/
  drained : ℕ := 0

/-- `Book::drain_events`. -/
def Hosted.drainEvents (h : Hosted) : List EngineEvent × Hosted :=
  (h.book.events.drop h.drained, { h with drained := h.book.events.length })

/-- A worker, without its inbox. -/
structure Worker where
  /-- The books of its symbols. -/
  books : SymbolId → Option Hosted
  /-- What it has yet to push, the oldest first. -/
  outbox : List Output := []
  /-- The latest time that it has seen. -/
  lastTs : ℤ := 0

namespace Worker

/-- A worker whose inbox has had nothing yet, with a fresh book for each of its symbols. -/
def make (cfgs : SymbolId → Option Config) : Worker where
  books symbol := (cfgs symbol).map fun cfg => { book := Book.make cfg }

/-- `book_for`. -/
def bookFor (w : Worker) (symbol : SymbolId) : Option Hosted := w.books symbol

/-- An output is pushed. -/
def push (w : Worker) (output : Output) : Worker := { w with outbox := w.outbox ++ [output] }

/-- The events that may carry the client's own id. -/
def carriesId : EventKind → Bool
  | .accepted | .stopAccepted | .rejected | .expired => true
  | _ => false

/-- What `publish` pushes for an event. -/
def published (symbol : SymbolId) (ownId : OrderId) (clientOrderId : ClientOrderId)
    (event : EngineEvent) : Output :=
  if carriesId event.kind && !clientOrderId.isEmpty && event.orderId = ownId then
    .marketEvent { symbol, event, clientOrderId }
  else .marketEvent { symbol, event }

/-- Drain a book of the worker. -/
def publish (w : Worker) (symbol : SymbolId) (h : Hosted) (ownId : OrderId := 0)
    (clientOrderId : ClientOrderId := "") : Worker :=
  let (events, h) := h.drainEvents
  { w with
    books := Function.update w.books symbol (some h)
    outbox := w.outbox ++ events.map (published symbol ownId clientOrderId) }

/-- `reply`: the answer to an item. -/
def reply (w : Worker) (item : Stamped) (clientOrderId : ClientOrderId) (symbol : SymbolId)
    (orderId : OrderId) (rejectReason : RejectReason) (unacceptedQuantity : ℤ := 0)
    (restedPrice : Option ℤ := none) : Worker :=
  w.push (.reply { clientOrderId, symbol, rejectReason, unacceptedQuantity, restedPrice,
                   gatewayId := item.gatewayId, accountId := item.accountId, orderId })

/-- The visitor of `run`: a command acts on the book of its symbol, which is then published, and the
sender is answered. -/
def handle (w : Worker) (item : Stamped) (now : ℤ) : Option Worker :=
  match item.command with
  | .newOrder clientOrderId symbol order =>
    (w.bookFor symbol).map fun h =>
      -- The engine assigns ids; any id in the payload is ignored.
      let order := { order with id := item.seq }
      -- The events are pushed before the reply, here and below.
      let (book, result) := h.book.addOrder order now
      let w := w.publish symbol { h with book } order.id clientOrderId
      w.reply item clientOrderId symbol order.id result.rejectReason result.unacceptedQuantity
        result.restedPrice
  | .cancelOrder clientOrderId symbol requester orderId =>
    (w.bookFor symbol).map fun h =>
      let (book, result) := h.book.cancelOrder orderId requester now
      (w.publish symbol { h with book }).reply item clientOrderId symbol orderId result
  | .modifyOrder clientOrderId symbol requester orderId newPrice newQuantity =>
    (w.bookFor symbol).map fun h =>
      let (book, result) := h.book.modifyOrder orderId requester newPrice newQuantity now
      (w.publish symbol { h with book }).reply item clientOrderId symbol orderId result.rejectReason
        result.unacceptedQuantity result.restedPrice
  | .placeStop clientOrderId symbol stop =>
    (w.bookFor symbol).map fun h =>
      let stop := { stop with id := item.seq }
      let (book, result) := h.book.placeStopOrder stop now
      let w := w.publish symbol { h with book } stop.id clientOrderId
      w.reply item clientOrderId symbol stop.id result
  | .cancelStop clientOrderId symbol requester orderId =>
    (w.bookFor symbol).map fun h =>
      let (book, result) := h.book.cancelStopOrder orderId requester now
      (w.publish symbol { h with book }).reply item clientOrderId symbol orderId result
  | .modifyStop clientOrderId symbol requester orderId newStopPrice newLimitPrice newQuantity =>
    (w.bookFor symbol).map fun h =>
      let (book, result) :=
        h.book.modifyStopOrder orderId requester newStopPrice newLimitPrice newQuantity now
      (w.publish symbol { h with book }).reply item clientOrderId symbol orderId result
  -- Handled before the visitor.
  | .shutdown | .takeSnapshot _ _ => some w

/-- The loop of the worker's thread. -/
def run (w : Worker) : List Stamped → Option Worker
  | [] => some w
  | item :: inbox =>
    match item.command with
    | .shutdown => some w
    | .takeSnapshot symbol subscriber =>
      (w.bookFor symbol).bind fun h =>
        -- A snapshot is no command: the clock of the worker stands still.
        run (w.push (.snapshotReady { symbol, subscriber, snapshot := h.book.snapshot })) inbox
    | _ =>
      -- The books see a clock that never goes back.
      let now := max item.ts w.lastTs
      ({ w with lastTs := now }.handle item now).bind fun w => run w inbox

end Worker

end OrderBookEngine
