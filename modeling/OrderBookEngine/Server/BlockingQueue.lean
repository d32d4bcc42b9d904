import Mathlib.Data.Fintype.Pi
import OrderBookEngine.Lib.Fifo

/-!
# The blocking queue

`blocking_queue.hpp`: a deque behind a mutex, and a condition variable on which `pop` sleeps while the deque is
empty. A call is cut where it waits for the mutex, where it has it, and in `push` where it has let the mutex go and
has yet to notify. A thread that sleeps lets the mutex go; when it wakes it waits for the mutex again, and looks
again. `notify_one` wakes one thread that sleeps if there is any, whichever, and a thread may also wake by itself.

The other modules take such a queue to be a list, with `push` and `pop` as single steps.
-/

namespace OrderBookEngine

/-- What a thread calls. -/
inductive QueueCall (T : Type) where
  /-- Puts an item at the end, and wakes one that waits. -/
  | push (item : T)
  /-- Waits for an item, and takes it. -/
  | pop
  /-- Takes an item if there is one. -/
  | tryPop
  /-- Counts the items. -/
  | size
deriving DecidableEq, Repr

/-- How far a thread is in its call. -/
inductive QueueStage (T : Type) where
  /-- It is in no call. -/
  | outside
  /-- It waits for the mutex. -/
  | locking (call : QueueCall T)
  /-- It holds the mutex. -/
  | locked (call : QueueCall T)
  /-- It has let the mutex go, and has yet to notify. -/
  | notifying (item : T)
  /-- It waits to be notified. -/
  | sleeping
deriving DecidableEq, Repr

/-- Whether a thread waits to be notified. -/
def QueueStage.isSleeping {T : Type} : QueueStage T → Bool
  | sleeping => true
  | _ => false

/-- A queue that some threads share. -/
structure BlockingQueue (ι T : Type) where
  /-- The items, the oldest first. -/
  deque : List T := []
  /-- The thread that holds the mutex. -/
  mutex : Option ι := none
  /-- How far every thread is. -/
  threads : ι → QueueStage T := fun _ => .outside
  /-- What has been done with the deque. -/
  history : List (ι × Fifo.Op T) := []
  /-- What the calls of a thread have returned. -/
  returned : ι → List (Fifo.Op T) := fun _ => []

namespace BlockingQueue

/-- What one of the threads does, or is done to it. -/
inductive Action (ι T : Type) where
  /-- A thread makes a call. -/
  | call (t : ι) (call : QueueCall T)
  /-- A thread takes the mutex. -/
  | lock (t : ι)
  /-- What is done with the mutex held. -/
  | work (t : ι)
  /-- A thread notifies one that sleeps, if there is any. -/
  | notify (t : ι) (woken : Option ι)
  /-- A thread wakes by itself. -/
  | wake (t : ι)

/-- The actions of the threads that are in a call, but those that wake by themselves. -/
def Action.inner {ι T : Type} : Action ι T → Bool
  | lock _ | work _ | notify _ _ => true
  | call _ _ | wake _ => false

variable {ι T : Type} [DecidableEq ι]

/-- A thread comes to another stage. -/
def setThread (q : BlockingQueue ι T) (t : ι) (stage : QueueStage T) : BlockingQueue ι T :=
  { q with threads := Function.update q.threads t stage }

/-- A thread lets the mutex go. -/
def unlock (q : BlockingQueue ι T) (t : ι) (stage : QueueStage T) : BlockingQueue ι T :=
  { q.setThread t stage with mutex := none }

/-- A thread returns from its call. -/
def return_ (q : BlockingQueue ι T) (t : ι) (op : Fifo.Op T) : BlockingQueue ι T :=
  { q.setThread t .outside with returned := Function.update q.returned t (q.returned t ++ [op]) }

/-- A call that returns when it lets the mutex go. -/
def finish (q : BlockingQueue ι T) (t : ι) (op : Fifo.Op T) (deque : List T) : BlockingQueue ι T :=
  { q.return_ t op with mutex := none, deque, history := q.history ++ [(t, op)] }

/-- What a call does while it holds the mutex. -/
def critical (q : BlockingQueue ι T) (t : ι) : QueueCall T → BlockingQueue ι T
  | .push item =>
    -- `push` notifies when it has let the mutex go.
    { q.unlock t (.notifying item) with deque := q.deque ++ [item], history := q.history ++ [(t, .push item)] }
  | .pop =>
    match q.deque with
    -- `wait` lets the mutex go and sleeps in one step.
    | [] => q.unlock t .sleeping
    | item :: rest => q.finish t (.pop item) rest
  | .tryPop =>
    match q.deque with
    | [] => q.finish t (.tryPop none) []
    | item :: rest => q.finish t (.tryPop (some item)) rest
  | .size => q.finish t (.size q.deque.length) q.deque

/-- A thread that is in no call makes one. -/
def call (q : BlockingQueue ι T) (t : ι) (call : QueueCall T) : Option (BlockingQueue ι T) :=
  match q.threads t with
  | .outside => some (q.setThread t (.locking call))
  | _ => none

/-- A thread takes the mutex if nobody holds it. -/
def lock (q : BlockingQueue ι T) (t : ι) : Option (BlockingQueue ι T) :=
  match q.threads t, q.mutex with
  | .locking call, none => some { q.setThread t (.locked call) with mutex := some t }
  | _, _ => none

/-- A thread does its work with the mutex held. -/
def work (q : BlockingQueue ι T) (t : ι) : Option (BlockingQueue ι T) :=
  match q.threads t with
  | .locked call => some (q.critical t call)
  | _ => none

/-- A thread that has been woken waits for the mutex, to look again. -/
def wake (q : BlockingQueue ι T) (t : ι) : Option (BlockingQueue ι T) :=
  if (q.threads t).isSleeping then some (q.setThread t (.locking .pop)) else none

/-- `notify_one`, with the thread that it wakes. -/
def notify [Fintype ι] (q : BlockingQueue ι T) (t : ι) (woken : Option ι) : Option (BlockingQueue ι T) :=
  match q.threads t with
  | .notifying item =>
    match woken with
    -- `notify_one` wakes a thread if one sleeps; which one is left open.
    | none => if ∀ u, (q.threads u).isSleeping = false then some (q.return_ t (.push item)) else none
    | some u => (q.return_ t (.push item)).wake u
  | _ => none

/-- One action. -/
def step [Fintype ι] (q : BlockingQueue ι T) : Action ι T → Option (BlockingQueue ι T)
  | .call t call => q.call t call
  | .lock t => q.lock t
  | .work t => q.work t
  | .notify t woken => q.notify t woken
  | .wake t => q.wake t

/-- A list of actions, one after another. -/
def run [Fintype ι] (q : BlockingQueue ι T) (actions : List (Action ι T)) : Option (BlockingQueue ι T) :=
  actions.foldlM step q

end BlockingQueue

end OrderBookEngine
