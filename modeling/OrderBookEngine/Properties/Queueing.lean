import OrderBookEngine.Lib.Progress
import OrderBookEngine.Server.BlockingQueue

/-!
# A blocking queue is a queue

Whatever the threads do, what has been done with the deque is a run of a sequential queue, an operation at a
time, and every call returns what its operation did (`linearizes`). `push` notifies when it has let the mutex go:
between the two, the item can be taken by another thread, or a thread can go to sleep. No wakeup is lost by that:
while a thread sleeps, there are as many threads about to look for an item or to notify as there are items
(`Sound.awake`). So threads sleep only on an empty queue, once those that are awake have come to rest
(`comes_to_rest`).
-/

namespace OrderBookEngine

namespace QueueStage

variable {T : Type}

/-- Whether a thread is about to look for an item, or to wake one that will. -/
def looks : QueueStage T → ℕ
  | .locking .pop | .locked .pop | .notifying _ => 1
  | _ => 0

/-- The steps that a thread has before it, with those of the one that it wakes. -/
def left : QueueStage T → ℕ
  | .outside | .sleeping => 0
  | .locked (.push _) => 4
  | .locked _ => 1
  | .locking (.push _) => 5
  | .locking _ => 2
  | .notifying _ => 3

/-- What a thread has done, and has not yet returned. -/
def unreturned : QueueStage T → List (Fifo.Op T)
  | .notifying item => [.push item]
  | _ => []

/-- A thread that sleeps does not look at the deque. -/
theorem looks_of_sleeping {stage : QueueStage T} (h : stage.isSleeping = true) : stage.looks = 0 := by
  cases stage with
  | sleeping => rfl
  | _ => cases h

/-- There is one way to sleep. -/
theorem eq_sleeping {stage : QueueStage T} (h : stage.isSleeping = true) : stage = .sleeping := by
  cases stage with
  | sleeping => rfl
  | _ => cases h

end QueueStage

namespace BlockingQueue

open QueueStage

variable {ι T : Type} [DecidableEq ι] {q q' : BlockingQueue ι T} {a : Action ι T} {t u : ι}
  {inner : Bool}

/-! ## What an action does -/

/-- By cases; an action of a thread that is in a call, or not. -/
inductive Does (q q' : BlockingQueue ι T) : Bool → Prop
  /-- A thread calls an operation. -/
  | call (t : ι) (call : QueueCall T) (stage : q.threads t = .outside) (eq : q' = q.setThread t (.locking call)) :
    Does q q' false
  /-- A thread that waits for the mutex gets it. -/
  | lock (t : ι) (call : QueueCall T) (stage : q.threads t = .locking call) (free : q.mutex = none)
      (eq : q' = { q.setThread t (.locked call) with mutex := some t }) : Does q q' true
  /-- A thread with the mutex pushes its item, and releases the mutex. -/
  | push (t : ι) (item : T) (stage : q.threads t = .locked (.push item))
      (eq : q' = { q.unlock t (.notifying item) with
        deque := q.deque ++ [item], history := q.history ++ [(t, .push item)] }) : Does q q' true
  /-- A `pop` on the empty queue goes to sleep, and releases the mutex. -/
  | sleep (t : ι) (stage : q.threads t = .locked .pop) (empty : q.deque = []) (eq : q' = q.unlock t .sleeping) :
    Does q q' true
  /-- A `pop` takes an item. -/
  | finish (t : ι) (call : QueueCall T) (op : Fifo.Op T) (deque : List T) (stage : q.threads t = .locked call)
      (step : Fifo.Step q.deque op deque) (takes : deque.length + (q.threads t).looks ≤ q.deque.length)
      (eq : q' = q.finish t op deque) : Does q q' true
  /-- A `push` notifies nobody. -/
  | unheard (t : ι) (item : T) (stage : q.threads t = .notifying item)
      (nobody : ∀ u, (q.threads u).isSleeping = false) (eq : q' = q.return_ t (.push item)) : Does q q' true
  /-- A `push` wakes a thread that sleeps. -/
  | heard (t : ι) (item : T) (u : ι) (stage : q.threads t = .notifying item)
      (sleeping : (q.threads u).isSleeping = true)
      (eq : q' = (q.return_ t (.push item)).setThread u (.locking .pop)) : Does q q' true
  /-- A thread wakes by itself. -/
  | wake (t : ι) (sleeping : (q.threads t).isSleeping = true) (eq : q' = q.setThread t (.locking .pop)) :
    Does q q' false

/-- What `work` does is one of the steps. -/
theorem does_of_work (hwork : q.work t = some q') : Does q q' true := by
  unfold work at hwork
  cases hstage : q.threads t with
  | locked call =>
    rw [hstage] at hwork
    obtain rfl := Option.some.inj hwork
    unfold critical
    cases call with
    | push item => exact .push t item hstage rfl
    | pop =>
      cases hdeque : q.deque with
      -- An empty queue puts the thread to sleep; it has done nothing yet.
      | nil => exact .sleep t hstage hdeque rfl
      | cons item rest =>
        refine .finish t .pop (.pop item) rest hstage (hdeque ▸ .pop item rest) ?_ rfl
        rw [hstage, hdeque]
        exact le_rfl
    | tryPop =>
      cases hdeque : q.deque with
      | nil =>
        refine .finish t .tryPop (.tryPop none) [] hstage (hdeque ▸ .nothing) ?_ rfl
        rw [hstage, hdeque]
        exact le_rfl
      | cons item rest =>
        refine .finish t .tryPop (.tryPop (some item)) rest hstage (hdeque ▸ .tryPop item rest) ?_ rfl
        rw [hstage, hdeque]
        exact Nat.le_succ _
    | size =>
      refine .finish t .size (.size q.deque.length) q.deque hstage (.size q.deque) ?_ rfl
      rw [hstage]
      exact le_rfl
  | _ =>
    rw [hstage] at hwork
    cases hwork

/-! ### One thread -/

section Mutex

variable {mutex : Option ι} {threads : ι → QueueStage T} {stage : QueueStage T}

/-- The thread that moves has not had the mutex. -/
theorem holds_move (h : ∀ t, mutex = some t ↔ ∃ call, threads t = .locked call)
    (hbefore : ∀ call, threads t ≠ .locked call) (hafter : ∀ call, stage ≠ .locked call) :
    ∀ u, mutex = some u ↔ ∃ call, Function.update threads t stage u = .locked call := by
  intro u
  by_cases hu : u = t
  · rw [hu, Function.update_self, h t]
    constructor
    · rintro ⟨call, hcall⟩
      exact absurd hcall (hbefore call)
    · rintro ⟨call, hcall⟩
      exact absurd hcall (hafter call)
  · rw [Function.update_of_ne hu]
    exact h u

/-- A thread that takes the free mutex is the one that holds it. -/
theorem holds_lock (h : ∀ t, mutex = some t ↔ ∃ call, threads t = .locked call) (hfree : mutex = none)
    (call : QueueCall T) :
    ∀ u, some t = some u ↔ ∃ call', Function.update threads t (.locked call) u = .locked call' := by
  intro u
  by_cases hu : u = t
  · rw [hu, Function.update_self]
    exact ⟨fun _ => ⟨call, rfl⟩, fun _ => rfl⟩
  · rw [Function.update_of_ne hu, ← h u, hfree]
    constructor
    · intro heq
      exact absurd (Option.some.inj heq).symm hu
    · intro hnone
      cases hnone

/-- No other thread has it. -/
theorem holds_unlock (h : ∀ t, mutex = some t ↔ ∃ call, threads t = .locked call) {call : QueueCall T}
    (hbefore : threads t = .locked call) (hafter : ∀ call, stage ≠ .locked call) :
    ∀ u, none = some u ↔ ∃ call, Function.update threads t stage u = .locked call := by
  intro u
  constructor
  · intro hnone
    cases hnone
  · rintro ⟨call', hcall'⟩
    by_cases hu : u = t
    · rw [hu, Function.update_self] at hcall'
      exact absurd hcall' (hafter call')
    · rw [Function.update_of_ne hu] at hcall'
      have hboth := ((h u).mpr ⟨call', hcall'⟩).symm.trans ((h t).mpr ⟨call, hbefore⟩)
      exact absurd (Option.some.inj hboth) hu

end Mutex

/-- The one that moves does not go to sleep. -/
theorem sleeps_of_move {threads : ι → QueueStage T} {stage : QueueStage T} (hafter : stage.isSleeping = false)
    (h : ∃ u, (Function.update threads t stage u).isSleeping = true) : ∃ u, (threads u).isSleeping = true := by
  obtain ⟨u, hu⟩ := h
  by_cases ht : u = t
  · rw [ht, Function.update_self, hafter] at hu
    cases hu
  · rw [Function.update_of_ne ht] at hu
    exact ⟨u, hu⟩

/-- What is done with the deque is done by one thread. -/
theorem opsOf_concat (history : List (ι × Fifo.Op T)) (t u : ι) (op : Fifo.Op T) :
    ((history ++ [(t, op)]).filter fun entry => entry.1 = u).map Prod.snd =
      (history.filter fun entry => entry.1 = u).map Prod.snd ++ if u = t then [op] else [] := by
  rw [List.filter_append, List.map_append]
  congr 1
  by_cases hu : u = t
  · have hmine : ((t, op) :: []).filter (fun entry : ι × Fifo.Op T => entry.1 = u) = [(t, op)] :=
      List.filter_cons_of_pos (decide_eq_true hu.symm)
    rw [hmine, if_pos hu]
    rfl
  · have hother : ((t, op) :: []).filter (fun entry : ι × Fifo.Op T => entry.1 = u) = [] :=
      List.filter_cons_of_neg (by simpa using Ne.symm hu)
    rw [hother, if_neg hu]
    rfl

variable [Fintype ι]

/-- What `notify` does is one of the steps. -/
theorem does_of_notify {woken : Option ι} (hnotify : q.notify t woken = some q') : Does q q' true := by
  unfold notify at hnotify
  cases hstage : q.threads t with
  | notifying item =>
    rw [hstage] at hnotify
    cases woken with
    | none =>
      simp only at hnotify
      split_ifs at hnotify with hnobody
      exact .unheard t item hstage hnobody (Option.some.inj hnotify).symm
    | some u =>
      simp only [wake] at hnotify
      split_ifs at hnotify with hsleeping
      refine .heard t item u hstage ?_ (Option.some.inj hnotify).symm
      -- The one that notifies does not sleep.
      have hne : u ≠ t := fun heq => by
        subst heq
        have hthread : (q.return_ u (.push item)).threads u = .outside := Function.update_self ..
        rw [hthread] at hsleeping
        cases hsleeping
      have hthread : (q.return_ t (.push item)).threads u = q.threads u := Function.update_of_ne hne ..
      rwa [hthread] at hsleeping
  | _ =>
    rw [hstage] at hnotify
    cases hnotify

/-- Every action is one of the steps. -/
theorem does_of_step (hstep : q.step a = some q') : Does q q' a.inner := by
  cases a with
  | call t c =>
    replace hstep : q.call t c = some q' := hstep
    unfold BlockingQueue.call at hstep
    cases hstage : q.threads t with
    | outside =>
      rw [hstage] at hstep
      exact .call t c hstage (Option.some.inj hstep).symm
    | _ =>
      rw [hstage] at hstep
      cases hstep
  | lock t =>
    replace hstep : q.lock t = some q' := hstep
    unfold lock at hstep
    cases hstage : q.threads t with
    | locking c =>
      cases hmutex : q.mutex with
      | none =>
        rw [hstage, hmutex] at hstep
        exact .lock t c hstage hmutex (Option.some.inj hstep).symm
      | some u =>
        rw [hstage, hmutex] at hstep
        cases hstep
    | _ =>
      rw [hstage] at hstep
      cases hstep
  | work t => exact does_of_work hstep
  | notify t woken => exact does_of_notify hstep
  | wake t =>
    replace hstep : q.wake t = some q' := hstep
    unfold BlockingQueue.wake at hstep
    split_ifs at hstep with hsleeping
    exact .wake t hsleeping (Option.some.inj hstep).symm

/-! ## What holds between the actions -/

/-- What a thread has done with the deque, in order. -/
def opsOf (q : BlockingQueue ι T) (t : ι) : List (Fifo.Op T) :=
  (q.history.filter fun entry => entry.1 = t).map Prod.snd

/-- What holds of a queue in every interleaving. -/
structure Sound (q : BlockingQueue ι T) : Prop where
  /-- The mutex is held by the thread that is inside. -/
  mutex : ∀ t, q.mutex = some t ↔ ∃ call, q.threads t = .locked call
  /-- What has been done with the deque is a run of a sequential queue. -/
  replays : Fifo.Run [] (q.history.map Prod.snd) q.deque
  /-- A thread has returned what it has done, but for the call it is in. -/
  returned : ∀ t, q.opsOf t = q.returned t ++ (q.threads t).unreturned
  /-- While a thread sleeps, there are as many looks to come as there are items. -/
  awake : (∃ t, (q.threads t).isSleeping = true) → q.deque.length ≤ ∑ t, (q.threads t).looks

/-- One step keeps who holds the mutex. -/
theorem Sound.mutex_step (h : q.Sound) (hdoes : Does q q' inner) :
    ∀ t, q'.mutex = some t ↔ ∃ call, q'.threads t = .locked call := by
  have hmove : ∀ {q : BlockingQueue ι T} {t : ι} {stage : QueueStage T},
      (∀ t, q.mutex = some t ↔ ∃ call, q.threads t = .locked call) → (∀ call, q.threads t ≠ .locked call) →
      (∀ call, stage ≠ .locked call) →
      ∀ u, (q.setThread t stage).mutex = some u ↔ ∃ call, (q.setThread t stage).threads u = .locked call :=
    fun h => holds_move h
  cases hdoes with
  | call t c stage eq =>
    subst eq
    exact hmove h.mutex (by simp [stage]) (by simp)
  | lock t c stage free eq =>
    subst eq
    exact holds_lock h.mutex free c
  | push t item stage eq =>
    subst eq
    exact holds_unlock h.mutex stage (by simp)
  | sleep t stage empty eq =>
    subst eq
    exact holds_unlock h.mutex stage (by simp)
  | finish t c op deque stage step takes eq =>
    subst eq
    exact holds_unlock h.mutex stage (by simp)
  | unheard t item stage nobody eq =>
    subst eq
    exact hmove h.mutex (by simp [stage]) (by simp)
  | heard t item u stage sleeping eq =>
    subst eq
    have hreturned : ∀ v, (q.return_ t (Fifo.Op.push item)).mutex = some v ↔
        ∃ call, (q.return_ t (Fifo.Op.push item)).threads v = .locked call :=
      hmove h.mutex (by simp [stage]) (by simp)
    refine hmove hreturned (fun call hcall => ?_) (by simp)
    -- A sleeping thread has not the mutex.
    have hlocked : q.mutex = some u := (hreturned u).mpr ⟨call, hcall⟩
    obtain ⟨call', hcall'⟩ := (h.mutex u).mp hlocked
    rw [hcall'] at sleeping
    cases sleeping
  | wake t sleeping eq =>
    subst eq
    refine hmove h.mutex (fun call hcall => ?_) (by simp)
    rw [hcall] at sleeping
    cases sleeping

/-! ### The deque -/

/-- One step keeps the run of the sequential queue. -/
theorem Sound.replays_step (h : q.Sound) (hdoes : Does q q' inner) :
    Fifo.Run [] (q'.history.map Prod.snd) q'.deque := by
  cases hdoes with
  -- Two kinds of steps act on the deque; the others leave it alone.
  | push t item stage eq =>
    subst eq
    show Fifo.Run [] ((q.history ++ [(t, Fifo.Op.push item)]).map Prod.snd) (q.deque ++ [item])
    rw [List.map_append]
    exact h.replays.concat (.push q.deque item)
  | finish t c op deque stage step takes eq =>
    subst eq
    show Fifo.Run [] ((q.history ++ [(t, op)]).map Prod.snd) deque
    rw [List.map_append]
    exact h.replays.concat step
  | call t c stage eq =>
    subst eq
    exact h.replays
  | lock t c stage free eq =>
    subst eq
    exact h.replays
  | sleep t stage empty eq =>
    subst eq
    exact h.replays
  | unheard t item stage nobody eq =>
    subst eq
    exact h.replays
  | heard t item u stage sleeping eq =>
    subst eq
    exact h.replays
  | wake t sleeping eq =>
    subst eq
    exact h.replays

/-- One step keeps what has been returned. -/
theorem Sound.returned_step (h : q.Sound) (hdoes : Does q q' inner) (v : ι) :
    q'.opsOf v = q'.returned v ++ (q'.threads v).unreturned := by
  have hv := h.returned v
  -- A thread that moves within a call has done nothing, and returns nothing.
  have hmove : ∀ {t : ι} {stage : QueueStage T}, (q.threads t).unreturned = [] → stage.unreturned = [] →
      q.opsOf v = q.returned v ++ (Function.update q.threads t stage v).unreturned := by
    intro t stage hbefore hafter
    by_cases ht : v = t
    · rw [ht, Function.update_self, hafter, ← hbefore]
      exact ht ▸ hv
    · rw [Function.update_of_ne ht]
      exact hv
  have hreturn : ∀ {t : ι} {item : T}, q.threads t = .notifying item →
      q.opsOf v = (q.return_ t (.push item)).returned v ++ ((q.return_ t (.push item)).threads v).unreturned := by
    intro t item hstage
    show _ = Function.update q.returned t _ v ++ (Function.update q.threads t _ v).unreturned
    by_cases ht : v = t
    · rw [ht, Function.update_self, Function.update_self, ← ht, hv, ht, hstage]
      exact (List.append_nil _).symm
    · rw [Function.update_of_ne ht, Function.update_of_ne ht]
      exact hv
  cases hdoes with
  | call t c stage eq =>
    subst eq
    exact hmove (by rw [stage]; rfl) rfl
  | lock t c stage free eq =>
    subst eq
    exact hmove (by rw [stage]; rfl) rfl
  | push t item stage eq =>
    subst eq
    show ((q.history ++ [(t, Fifo.Op.push item)]).filter _).map _ =
      q.returned v ++ (Function.update q.threads t (.notifying item) v).unreturned
    rw [opsOf_concat]
    show q.opsOf v ++ _ = _
    rw [hv]
    by_cases ht : v = t
    · rw [if_pos ht, ht, Function.update_self, stage]
      simp [unreturned]
    · rw [if_neg ht, Function.update_of_ne ht, List.append_nil]
  | sleep t stage empty eq =>
    subst eq
    exact hmove (by rw [stage]; rfl) rfl
  | finish t c op deque stage step takes eq =>
    subst eq
    show ((q.history ++ [(t, op)]).filter _).map _ =
      Function.update q.returned t _ v ++ (Function.update q.threads t .outside v).unreturned
    rw [opsOf_concat]
    show q.opsOf v ++ _ = _
    rw [hv]
    by_cases ht : v = t
    · rw [if_pos ht, ht, Function.update_self, Function.update_self, stage]
      simp [unreturned]
    · rw [if_neg ht, Function.update_of_ne ht, Function.update_of_ne ht, List.append_nil]
  | unheard t item stage nobody eq =>
    subst eq
    exact hreturn stage
  | heard t item u stage sleeping eq =>
    subst eq
    have hreturned := hreturn stage
    show q.opsOf v = (q.return_ t (.push item)).returned v ++
      (Function.update (q.return_ t (.push item)).threads u (.locking .pop) v).unreturned
    by_cases hu : v = u
    · have hne : u ≠ t := fun heq => by
        subst heq
        rw [stage] at sleeping
        cases sleeping
      have hthread : (q.return_ t (Fifo.Op.push item)).threads u = q.threads u := Function.update_of_ne hne ..
      have hasleep : (q.threads u).unreturned = [] := by
        cases hstage : q.threads u with
        | notifying item =>
          rw [hstage] at sleeping
          cases sleeping
        | _ => rfl
      rw [hu, Function.update_self, ← hu, hreturned, hu, hthread, hasleep]
      rfl
    · rw [Function.update_of_ne hu]
      exact hreturned
  | wake t sleeping eq =>
    subst eq
    refine hmove ?_ rfl
    cases hstage : q.threads t with
    | notifying item =>
      rw [hstage] at sleeping
      cases sleeping
    | _ => rfl

/-! ### Wakeups -/

/-- One step keeps the deque looked at. -/
theorem Sound.awake_step (h : q.Sound) (hdoes : Does q q' inner)
    (hsleeps : ∃ t, (q'.threads t).isSleeping = true) :
    q'.deque.length ≤ ∑ t, (q'.threads t).looks := by
  cases hdoes with
  | call t c stage eq =>
    subst eq
    have hawake := h.awake (sleeps_of_move rfl hsleeps)
    have hsum := sum_update q.threads looks t (.locking c)
    rw [stage] at hsum
    show q.deque.length ≤ ∑ u, (Function.update q.threads t (.locking c) u).looks
    have hnone : (QueueStage.outside : QueueStage T).looks = 0 := rfl
    omega
  | lock t c stage free eq =>
    subst eq
    have hawake := h.awake (sleeps_of_move rfl hsleeps)
    have hsum := sum_update q.threads looks t (.locked c)
    have hsame : (QueueStage.locking c).looks = (QueueStage.locked c).looks := by cases c <;> rfl
    rw [stage] at hsum
    show q.deque.length ≤ ∑ u, (Function.update q.threads t (.locked c) u).looks
    omega
  | push t item stage eq =>
    -- One more item, and one more thread that is to notify.
    subst eq
    have hawake := h.awake (sleeps_of_move rfl hsleeps)
    have hsum := sum_update q.threads looks t (.notifying item)
    rw [stage] at hsum
    show (q.deque ++ [item]).length ≤ ∑ u, (Function.update q.threads t (.notifying item) u).looks
    have hone : (QueueStage.notifying item).looks = 1 := rfl
    have hnone : (QueueStage.locked (.push item)).looks = 0 := rfl
    rw [List.length_append, List.length_singleton]
    omega
  | sleep t stage empty eq =>
    subst eq
    show q.deque.length ≤ _
    rw [empty]
    exact Nat.zero_le _
  | finish t c op deque stage step takes eq =>
    subst eq
    have hawake := h.awake (sleeps_of_move rfl hsleeps)
    have hsum := sum_update q.threads looks t .outside
    show deque.length ≤ ∑ u, (Function.update q.threads t .outside u).looks
    have hnone : (QueueStage.outside : QueueStage T).looks = 0 := rfl
    omega
  | unheard t item stage nobody eq =>
    subst eq
    obtain ⟨u, hu⟩ := sleeps_of_move rfl hsleeps
    rw [nobody u] at hu
    cases hu
  | heard t item u stage sleeping eq =>
    -- The one that is woken looks instead of the one that has notified.
    subst eq
    have hawake := h.awake ⟨u, sleeping⟩
    have hne : u ≠ t := fun heq => by
      subst heq
      rw [stage] at sleeping
      cases sleeping
    have hfirst := sum_update q.threads looks t .outside
    have hsecond := sum_update (Function.update q.threads t .outside) looks u (.locking .pop)
    rw [Function.update_of_ne hne, looks_of_sleeping sleeping] at hsecond
    rw [stage] at hfirst
    show q.deque.length ≤ ∑ v, (Function.update (Function.update q.threads t .outside) u (.locking .pop) v).looks
    have hone : (QueueStage.notifying item).looks = 1 := rfl
    have hlocking : (QueueStage.locking (.pop : QueueCall T)).looks = 1 := rfl
    have hnone : (QueueStage.outside : QueueStage T).looks = 0 := rfl
    omega
  | wake t sleeping eq =>
    subst eq
    have hawake := h.awake ⟨t, sleeping⟩
    have hsum := sum_update q.threads looks t (.locking .pop)
    rw [looks_of_sleeping sleeping] at hsum
    show q.deque.length ≤ ∑ u, (Function.update q.threads t (.locking .pop) u).looks
    omega

/-- Every step keeps the queue sound. -/
theorem Sound.step (h : q.Sound) (hstep : q.step a = some q') : q'.Sound := by
  have hdoes := does_of_step hstep
  exact ⟨h.mutex_step hdoes, h.replays_step hdoes, h.returned_step hdoes, h.awake_step hdoes⟩

/-- A new queue is sound. -/
theorem sound_make : ({} : BlockingQueue ι T).Sound where
  mutex t := by
    constructor
    · intro hnone
      cases hnone
    · rintro ⟨call, hcall⟩
      cases hcall
  replays := .nil
  returned _ := rfl
  awake _ := Nat.zero_le _

/-- Every run keeps the queue sound. -/
theorem Sound.run (h : q.Sound) {actions : List (Action ι T)} (hrun : q.run actions = some q') : q'.Sound := by
  induction actions generalizing q with
  | nil => exact Option.some.inj hrun ▸ h
  | cons a actions ih =>
    obtain ⟨q₁, hstep, hrest⟩ := Option.bind_eq_some_iff.mp hrun
    exact ih (h.step hstep) hrest

/-- What has been done stays done. -/
theorem history_run {actions : List (Action ι T)} (hrun : q.run actions = some q') : q.history <+: q'.history := by
  induction actions generalizing q with
  | nil => exact Option.some.inj hrun ▸ List.prefix_refl _
  | cons a actions ih =>
    obtain ⟨q₁, hstep, hrest⟩ := Option.bind_eq_some_iff.mp hrun
    refine List.IsPrefix.trans ?_ (ih hrest)
    have hdoes := does_of_step hstep
    generalize a.inner = inner at hdoes
    -- Only a push and the end of an operation are recorded, both behind the others.
    cases hdoes with
    | push t item stage eq =>
      subst eq
      exact List.prefix_append _ _
    | finish t c op deque stage step takes eq =>
      subst eq
      exact List.prefix_append _ _
    | call t c stage eq =>
      subst eq
      exact List.prefix_refl _
    | lock t c stage free eq =>
      subst eq
      exact List.prefix_refl _
    | sleep t stage empty eq =>
      subst eq
      exact List.prefix_refl _
    | unheard t item stage nobody eq =>
      subst eq
      exact List.prefix_refl _
    | heard t item u stage sleeping eq =>
      subst eq
      exact List.prefix_refl _
    | wake t sleeping eq =>
      subst eq
      exact List.prefix_refl _

/-- **A queue.** In every interleaving of any number of threads, with wakeups at any time, what has been done with
the deque is a run of a sequential queue, so that the items that have been taken and those that are left are those
that have been pushed, in order. Each call has returned what its operation did; what has been done is never undone,
so that a call that has returned comes before one that is made later. -/
theorem linearizes (actions later : List (Action ι T)) (q q' : BlockingQueue ι T) (hrun : run {} actions = some q)
    (hlater : q.run later = some q') :
    Fifo.Run [] (q.history.map Prod.snd) q.deque ∧
      q.history.filterMap (fun entry => entry.2.put?) =
        q.history.filterMap (fun entry => entry.2.taken?) ++ q.deque ∧
      (∀ t, q.opsOf t = q.returned t ++ (q.threads t).unreturned) ∧ q.history <+: q'.history := by
  have h := sound_make.run hrun
  refine ⟨h.replays, ?_, h.returned, history_run hlater⟩
  have hconserves := h.replays.conserves
  rw [List.nil_append, List.filterMap_map, List.filterMap_map] at hconserves
  exact hconserves

/-- One thread sleeps, another pushes, and a third takes the item before the first is told. -/
def barging : List (Action (Fin 3) ℕ) :=
  [.call 0 .pop, .lock 0, .work 0, .call 1 (.push 7), .lock 1, .work 1, .call 2 .pop, .lock 2, .work 2]

/-- The thread that was asleep finds nothing, and sleeps again. -/
theorem linearizes_barging :
    ∃ q q', run {} barging = some q ∧ q.run [.notify 1 (some 0), .lock 0, .work 0] = some q' ∧
      q.returned 2 = [.pop 7] ∧ q.returned 1 = [] ∧ q.history.map Prod.snd = [.push 7, .pop 7] ∧
      Fifo.Run [] (q.history.map Prod.snd) q.deque ∧ q.history <+: q'.history := by
  have hchain : ((run {} barging).bind fun q => (q.run [.notify 1 (some 0), .lock 0, .work 0]).map fun _ =>
      (q.returned 2, q.returned 1, q.history.map Prod.snd)) = some ([.pop 7], [], [.push 7, .pop 7]) := by decide
  obtain ⟨q, hrun, hchain⟩ := Option.bind_eq_some_iff.mp hchain
  obtain ⟨q', hlater, hlast⟩ := Option.map_eq_some_iff.mp hchain
  simp only [Prod.mk.injEq] at hlast
  obtain ⟨htaken, hpending, hhistory⟩ := hlast
  obtain ⟨hreplays, -, -, hgrows⟩ := linearizes barging _ q q' hrun hlater
  exact ⟨q, q', hrun, hlater, htaken, hpending, hhistory, hreplays, hgrows⟩

/-! ## Coming to rest -/

/-- A thread that is in a call goes on. -/
def Continues (q q' : BlockingQueue ι T) : Prop := ∃ a, a.inner = true ∧ q.step a = some q'

/-- No thread is in a call but those that sleep, and these sleep because there is nothing. -/
structure AtRest (q : BlockingQueue ι T) : Prop where
  /-- Every thread is in no call, or sleeps. -/
  outside : ∀ t, q.threads t = .outside ∨ q.threads t = .sleeping
  /-- A thread sleeps on an empty deque only. -/
  empty : (∃ t, q.threads t = .sleeping) → q.deque = []

/-- A thread that moves on leaves less to do. -/
theorem left_move {stage : QueueStage T} (hless : stage.left < (q.threads t).left) :
    ∑ u, (Function.update q.threads t stage u).left < ∑ u, (q.threads u).left := by
  have hsum := sum_update q.threads QueueStage.left t stage
  omega

/-- Every step of a call leaves less to do. -/
theorem left_lt (hcontinues : Continues q q') : ∑ t, (q'.threads t).left < ∑ t, (q.threads t).left := by
  obtain ⟨a, ha, hstep⟩ := hcontinues
  have hdoes := does_of_step hstep
  rw [ha] at hdoes
  cases hdoes with
  | lock t c stage free eq =>
    subst eq
    apply left_move
    rw [stage]
    cases c <;> simp [QueueStage.left]
  | push t item stage eq =>
    subst eq
    apply left_move
    rw [stage]
    simp [QueueStage.left]
  | sleep t stage empty eq =>
    subst eq
    apply left_move
    rw [stage]
    simp [QueueStage.left]
  | finish t c op deque stage step takes eq =>
    subst eq
    apply left_move
    rw [stage]
    cases c <;> simp [QueueStage.left]
  | unheard t item stage nobody eq =>
    subst eq
    apply left_move
    rw [stage]
    simp [QueueStage.left]
  | heard t item u stage sleeping eq =>
    -- The one that notifies has more before it than the one that it wakes.
    subst eq
    have hne : u ≠ t := fun heq => by
      subst heq
      rw [stage] at sleeping
      cases sleeping
    have hfirst := sum_update q.threads QueueStage.left t .outside
    have hsecond := sum_update (Function.update q.threads t .outside) QueueStage.left u (.locking .pop)
    rw [Function.update_of_ne hne, eq_sleeping sleeping] at hsecond
    rw [stage] at hfirst
    show ∑ v, (Function.update (Function.update q.threads t .outside) u (.locking .pop) v).left < _
    simp only [QueueStage.left] at hfirst hsecond ⊢
    omega

/-- A thread in a call can go on, unless all that are in a call sleep. -/
theorem exists_continues (h : q.Sound) (hnot : ¬ ∀ t, q.threads t = .outside ∨ q.threads t = .sleeping) :
    ∃ q', Continues q q' := by
  obtain ⟨t, ht⟩ := not_forall.mp hnot
  obtain ⟨houtside, hsleeping⟩ := not_or.mp ht
  -- The one that has the mutex comes first.
  cases hmutex : q.mutex with
  | some u =>
    obtain ⟨c, hstage⟩ := (h.mutex u).mp hmutex
    exact ⟨q.critical u c, .work u, rfl, by simp [step, work, hstage]⟩
  | none =>
    cases hstage : q.threads t with
    | outside => exact absurd hstage houtside
    | sleeping => exact absurd hstage hsleeping
    | locked c =>
      have hhas := (h.mutex t).mpr ⟨c, hstage⟩
      rw [hmutex] at hhas
      cases hhas
    | locking c => exact ⟨_, .lock t, rfl, by simp [step, lock, hstage, hmutex]; rfl⟩
    | notifying item =>
      by_cases hnobody : ∀ u, (q.threads u).isSleeping = false
      · exact ⟨q.return_ t (.push item), .notify t none, rfl, by simp [step, notify, hstage, hnobody]⟩
      · obtain ⟨u, hu⟩ := not_forall.mp hnobody
        have hu : (q.threads u).isSleeping = true := by simpa using hu
        have hne : u ≠ t := fun heq => by
          subst heq
          rw [hstage] at hu
          cases hu
        have hthread : (q.return_ t (Fifo.Op.push item)).threads u = q.threads u := Function.update_of_ne hne ..
        exact ⟨_, .notify t (some u), rfl, by simp [step, notify, hstage, wake, hthread, hu]; rfl⟩

/-- **Threads sleep only on an empty queue.** From every state that an interleaving has led to, what the threads in
a call have left to do comes to an end, in every order, if no thread wakes by itself. Then none is in a call but
those that sleep in `pop`, and these sleep because the queue is empty: no wakeup has been lost. -/
theorem comes_to_rest (actions : List (Action ι T)) (q : BlockingQueue ι T) (hrun : run {} actions = some q) :
    Settles Continues AtRest q := by
  have hnext : ∀ q : BlockingQueue ι T, q.Sound → ¬ q.AtRest → ∃ q', Continues q q' := by
    intro q h hnot
    apply exists_continues h
    intro houtside
    refine hnot ⟨houtside, fun hsleeps => ?_⟩
    -- Nobody looks, so there is nothing to look for.
    obtain ⟨t, ht⟩ := hsleeps
    have hawake := h.awake ⟨t, by rw [ht]; rfl⟩
    have hnone : ∑ t, (q.threads t).looks = 0 := by
      refine Finset.sum_eq_zero fun u _ => ?_
      rcases houtside u with hu | hu
      · rw [hu]
        rfl
      · rw [hu]
        rfl
    rw [hnone] at hawake
    exact List.eq_nil_of_length_eq_zero (Nat.le_zero.mp hawake)
  refine Settles.of_measure (fun q => ∑ t, (q.threads t).left) (fun q q' h hstep => ⟨?_, left_lt hstep⟩) hnext
    (sound_make.run hrun)
  obtain ⟨a, -, hstep⟩ := hstep
  exact h.step hstep

/-- The first is told in vain, and sleeps again. -/
theorem comes_to_rest_after_barging :
    ∃ q q', run {} barging = some q ∧ Relation.ReflTransGen Continues q q' ∧ AtRest q' := by
  have hsome : (run {} barging).isSome = true := by decide
  obtain ⟨q, hrun⟩ := Option.isSome_iff_exists.mp hsome
  obtain ⟨q', hreaches, hrest⟩ := (comes_to_rest barging q hrun).reaches
  exact ⟨q, q', hrun, hreaches, hrest⟩

end BlockingQueue

end OrderBookEngine
