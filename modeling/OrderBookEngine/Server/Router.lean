import OrderBookEngine.Server.EngineNode
import OrderBookEngine.Server.Serve

/-!
# The router

`router.cpp`: the server without a sequencer. Any number of threads submit commands, which the router numbers and
hands to the worker of their symbol, while one thread sets it up, starts it and shuts it down.

A call of `submit` is cut where it looks at `running_`, where it takes its number from `next_seq_` and its time from
the clock, and where it pushes into the inbox; the routes do not change once the router has started. So two commands
may reach a worker in another order than they were numbered in, and one that has found the router running may come
behind the shutdown of its worker. The workers are those of the engine node. Of the outbox, the model keeps all that
has been pushed into it; whoever reads it takes that from the front.
-/

namespace OrderBookEngine

/-- What `submit` returns. -/
inductive SubmitResult where
  | queued
  | unknownSymbol
  | notRunning
deriving DecidableEq, Repr

/-- What the router throws. -/
inductive RouterError where
  /-- A `std::logic_error`, or one of its kinds. -/
  | thrown (error : Thrown)
  /-- A `std::runtime_error` of the router. -/
  | runtimeError (what : String)
deriving DecidableEq, Repr

/-- A call of `submit` that has found the worker of its command. -/
structure Submission where
  /-- The worker of its symbol. -/
  worker : ℕ
  /-- The command itself. -/
  command : Command
  /-- `none` until the command has been numbered. -/
  stamped : Option Stamped := none

/-- How far `shutdown` is. -/
inductive Stopping where
  /-- It has not been called. -/
  | no
  /-- It stops a worker: it has pushed the shutdown, or will. -/
  | worker (i : ℕ) (called : Bool)
  /-- It has stopped all. -/
  | done
deriving DecidableEq, Repr

/-- The shutdown of a worker has been pushed into its inbox. -/
def Stopping.pilled (workerCount i : ℕ) : Stopping → Bool
  | no => false
  | worker k called => decide (i < workerCount ∧ (i < k ∨ i = k ∧ called = true))
  | done => decide (i < workerCount)

/-- The router, with its workers. -/
structure Router where
  /-- The number of workers. -/
  workerCount : ℕ
  /-- The workers, with their inboxes. -/
  threads : ℕ → WorkerThread := fun _ => { worker := Worker.make fun _ => none }
  /-- The worker of each symbol. -/
  routes : SymbolId → Option ℕ := fun _ => none
  /-- The next number to give. -/
  nextSeq : ℕ := 1
  /-- Whether `start` has been called. -/
  started : Bool := false
  /-- Whether commands are taken. -/
  running : Bool := false
  /-- What the workers have pushed. -/
  outbox : List Output := []
  /-- The calls of `submit` that are under way. -/
  submissions : List Submission := []
  /-- How far the shutdown is. -/
  stopping : Stopping := .no
  /-- The symbols that have been added. -/
  instruments : List Instrument := []
  /-- The commands that have been numbered. -/
  issued : List Stamped := []
  /-- The commands that have been pushed into the inbox of a worker, in front of its shutdown. -/
  accepted : List (ℕ × Stamped) := []
  /-- Those that have been pushed behind it. -/
  late : List (ℕ × Stamped) := []
  /-- What the calls of `submit` have returned. -/
  returned : List (Command × SubmitResult) := []
  /-- What has been thrown. -/
  failed : List RouterError := []

namespace Router

/-- The constructor; whether the clock is there. -/
def make (workerCount : ℕ) (clock : Bool) : Except RouterError Router :=
  if workerCount = 0 then .error (.thrown (.invalidArgument "Router needs at least one worker"))
  else if !clock then .error (.thrown (.invalidArgument "Router needs a clock"))
  else .ok { workerCount }

/-- `add_symbol`: a worker gets the book of a symbol. -/
def addSymbol (r : Router) (symbol : SymbolId) (workerIndex : ℕ) (cfg : Config) : Except RouterError Router :=
  if r.started then .error (.runtimeError "Cannot add symbol after router has started")
  else if r.workerCount ≤ workerIndex then .error (.runtimeError "Worker index out of bounds")
  else if (r.routes symbol).isSome then .error (.thrown (.logicError "Symbol already routed to a worker"))
  else
    match (r.threads workerIndex).worker.addBook symbol cfg with
    | .error error => .error (.thrown error)
    | .ok worker =>
      .ok { r with
        threads := Function.update r.threads workerIndex { r.threads workerIndex with worker }
        routes := Function.update r.routes symbol (some workerIndex)
        instruments := r.instruments ++ [{ id := symbol, partition := workerIndex, cfg }] }

/-- `start`: the workers run. -/
def start (r : Router) : Except RouterError Router :=
  if r.started then .error (.runtimeError "Router already started")
  else .ok { r with started := true, running := true }

/-- A call of `submit` returns. -/
def return_ (r : Router) (command : Command) (result : SubmitResult) : Router :=
  { r with returned := r.returned ++ [(command, result)] }

/-- `submit`, up to the worker of the command. -/
def submit (r : Router) (command : Command) : Except RouterError Router :=
  if !r.running then .ok (r.return_ command .notRunning)
  else
    match command with
    -- The kind is looked at before the symbol, and behind `running_`.
    | .shutdown => .error (.thrown (.invalidArgument "Shutdown command cannot be submitted"))
    | .takeSnapshot _ _ => .error (.thrown (.invalidArgument "TakeSnapshot command cannot be submitted"))
    | _ =>
      match command.symbol?.bind r.routes with
      | none => .ok (r.return_ command .unknownSymbol)
      | some worker => .ok { r with submissions := r.submissions ++ [{ worker, command }] }

/-- A submission takes its number, and then the time. -/
def stamp (r : Router) (k : ℕ) (now : ℤ) : Option Router :=
  match r.submissions[k]? with
  | some ⟨worker, command, none⟩ =>
    let item : Stamped := { seq := r.nextSeq, ts := now, command }
    some { r with
      -- The counter is a `Seq` of 64 bits.
      nextSeq := (r.nextSeq + 1) % 2 ^ 64
      submissions := r.submissions.set k ⟨worker, command, some item⟩
      issued := r.issued ++ [item] }
  | _ => none

/-- An item is pushed into the inbox of a worker. -/
def push (r : Router) (i : ℕ) (item : Stamped) : Router :=
  { r with
    threads := Function.update r.threads i { r.threads i with inbox := (r.threads i).inbox ++ [item] } }

/-- A submission is pushed into the inbox of its worker, and returns. -/
def enqueue (r : Router) (k : ℕ) : Option Router :=
  match r.submissions[k]? with
  | some ⟨worker, command, some item⟩ =>
    let r' := { (r.push worker item).return_ command .queued with submissions := r.submissions.eraseIdx k }
    -- The worker returns at its shutdown, so what is pushed behind it is never taken.
    if r.stopping.pilled r.workerCount worker then some { r' with late := r.late ++ [(worker, item)] }
    else some { r' with accepted := r.accepted ++ [(worker, item)] }
  | _ => none

/-- The thread of a worker takes the next item. -/
def work (r : Router) (i : ℕ) : Option Router :=
  (r.threads i).work.map fun t => { r with threads := Function.update r.threads i t }

/-- A worker pushes its next output. -/
def pushOutput (r : Router) (i : ℕ) : Option Router :=
  match (r.threads i).worker.outbox with
  | [] => none
  | output :: outputs =>
    some { r with
      threads := Function.update r.threads i
        { r.threads i with worker := { (r.threads i).worker with outbox := outputs } }
      outbox := r.outbox ++ [output] }

/-- The next step of `shutdown`, which stops one worker after the other: a second call finds nothing to do. -/
def shutdown (r : Router) : Option Router :=
  match r.stopping with
  | .no => if r.started then some { r with running := false, stopping := .worker 0 false } else some r
  | .worker i false =>
    if i < r.workerCount then some { r.push i { command := .shutdown } with stopping := .worker i true }
    else some { r with stopping := .done }
  -- `stop` joins one worker before it tells the next.
  | .worker i true => if (r.threads i).returned then some { r with stopping := .worker (i + 1) false } else none
  | .done => some r

/-- What the callers and the workers do. -/
inductive Action where
  /-- A caller adds a symbol. -/
  | addSymbol (symbol : SymbolId) (workerIndex : ℕ) (cfg : Config)
  /-- A caller starts the router. -/
  | start
  /-- A caller submits a command. -/
  | submit (command : Command)
  /-- A command is numbered, at a time. -/
  | stamp (k : ℕ) (now : ℤ)
  /-- A numbered command is pushed to its worker. -/
  | enqueue (k : ℕ)
  /-- A worker takes an item. -/
  | work (i : ℕ)
  /-- A worker pushes an output. -/
  | pushOutput (i : ℕ)
  /-- The shutdown begins, or goes on. -/
  | shutdown

/-- A call that throws leaves the router as it was. -/
def settle (r : Router) : Except RouterError Router → Router
  | .ok r' => r'
  | .error error => { r with failed := r.failed ++ [error] }

/-- One action. -/
def step (r : Router) : Action → Option Router
  | .addSymbol symbol workerIndex cfg => some (r.settle (r.addSymbol symbol workerIndex cfg))
  | .start => some (r.settle r.start)
  | .submit command => some (r.settle (r.submit command))
  | .stamp k now => r.stamp k now
  | .enqueue k => r.enqueue k
  | .work i => r.work i
  | .pushOutput i => r.pushOutput i
  | .shutdown => r.shutdown

/-- A list of actions, in the order in which they happen. -/
def run (r : Router) (actions : List Action) : Option Router := actions.foldlM step r

end Router

end OrderBookEngine
