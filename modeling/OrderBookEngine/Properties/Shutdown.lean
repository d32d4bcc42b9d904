import Mathlib.Data.Prod.Lex
import OrderBookEngine.Lib.Progress
import OrderBookEngine.Properties.Answered

/-!
# The end of a process

No thread of a process throws, and each goes on as soon as there is something in its queue (`never_stuck`).
So once the process is told to stop it does, however its threads take turns: the steps that the main thread
and the threads that it waits for have left to do come to an end, and they do not end before the process
has stopped (`shutdown_finishes`).
-/

namespace OrderBookEngine

namespace Phase

/-- The main thread has called `stop` on the feed of a partition. -/
def feedCalled (i : ℕ) : Phase → Bool
  | .serving => false
  | .stoppingFeed k called => decide (i < k ∨ i = k ∧ called = true)
  | _ => true

/-- The thread that is waited for is there. -/
def Within (partitions : ℕ) : Phase → Prop
  | .stoppingFeed i true | .stoppingWorker i true => i < partitions
  | _ => True

/-- The steps that the main thread has before it, at most. -/
def left (partitions : ℕ) : Phase → ℕ
  | .serving => 4 * partitions + 6
  | .stoppingFeed i called => 2 * (partitions - i) + (if called then 0 else 1) + 2 * partitions + 4
  | .stoppingWorker i called => 2 * (partitions - i) + (if called then 0 else 1) + 3
  | .closingOutbox => 3
  | .joiningPublisher => 2
  | .stopped => 1

end Phase

namespace Process

variable {pb : Protobuf} {p p' : Process} {i : ℕ}

/-! ## Nobody is stuck -/

namespace Running

/-- A worker can take an item whenever there is one, and it has pushed the outputs of the last. -/
theorem isSome_work (h : p.Running pb) (i : ℕ) :
    (p.node.work i).isSome ↔ (p.node.threads i).returned = false ∧ (p.node.worker i).outbox = [] ∧
      (p.node.threads i).inbox ≠ [] := by
  obtain ⟨taken, waiting, hworks⟩ := h.works i
  rw [EngineNode.work, Option.isSome_map]
  exact hworks.attends.isSome_work

/-- The publisher can take an output whenever there is one, until it closes. -/
theorem isSome_route (h : p.Running pb) :
    p.node.route.isSome ↔ p.node.publisher.closed = false ∧ p.node.outbox ≠ [] := by
  unfold EngineNode.route
  split_ifs with hclosed
  · simp [hclosed]
  · cases houtbox : p.node.outbox with
    | nil => simp
    | cons output outbox =>
      obtain ⟨-, -, hwf⟩ := Publisher.dropAll_spec (p := p.node.publisher) p.node.tooSlow
      obtain ⟨publisher, htake, -⟩ := Publisher.take_spec (hwf h.publisher) output
      simp only [htake]
      simpa [Except.toOption] using hclosed

/-- A snapshot can be asked for whenever one is to be. -/
theorem isSome_request (h : p.Running pb) (id : SubscriberId) :
    (p.node.request id).isSome ↔ p.node.requests id ≠ [] := by
  unfold EngineNode.request
  cases hrequests : p.node.requests id with
  | nil => simp
  | cons symbol symbols =>
    obtain ⟨i, cfg, hworker, -⟩ := Listed.workerOf (h.requests id symbol (hrequests ▸ List.mem_cons_self))
    simp only [EngineNode.requestSnapshot, h.workerOf, hworker]
    simp

/-- A subscription can be made whenever nobody waits to be dropped. -/
theorem isSome_subscribe (gatewayId : GatewayId) (symbols : List SymbolId) (fromSeq : FromSeq) :
    (p.node.subscribe gatewayId symbols fromSeq).isSome ↔ p.node.tooSlow = [] := by
  unfold EngineNode.subscribe
  split_ifs with hfree
  · obtain ⟨_, _, _, hsubscribe, -⟩ := p.node.publisher.subscribe_spec gatewayId symbols fromSeq
    rw [hsubscribe]
    simp [Except.toOption, hfree]
  · simp [hfree]

end Running

/-- **No thread throws.** In every interleaving, a worker takes the next item as soon as it has pushed what
it has, the publisher takes the next output, and a call that has subscribed requests its next snapshot:
whatever stands in a queue can be handled, so no lookup fails that would end the thread. -/
theorem never_stuck (pb : Protobuf) (partitions : ℕ) (instruments : List Instrument)
    (options : PublisherOptions) (address : String) (p₀ : Process)
    (hmake : make partitions instruments options address = .ok p₀) (actions : List Action) (p : Process)
    (hrun : p₀.run pb actions = some p) :
    (∀ i, (p.node.work i).isSome ↔ (p.node.threads i).returned = false ∧ (p.node.worker i).outbox = [] ∧
      (p.node.threads i).inbox ≠ []) ∧
    (p.node.route.isSome ↔ p.node.publisher.closed = false ∧ p.node.outbox ≠ []) ∧
    (∀ id, (p.node.request id).isSome ↔ p.node.requests id ≠ []) ∧
    ∀ gatewayId symbols fromSeq, (p.node.subscribe gatewayId symbols fromSeq).isSome ↔
      p.node.tooSlow = [] := by
  have h := (running_make pb hmake).run hrun
  exact ⟨h.isSome_work, h.isSome_route, h.isSome_request, Running.isSome_subscribe⟩

/-- An output of the worker is waiting for the publisher, which can take it. -/
theorem never_stuck_with_output :
    ∃ p₀ p, make 1 [{ id := 1, partition := 0, cfg := { poolCapacity := 4 } }] {} "sequencer" = .ok p₀ ∧
      p₀.run generated (cancelsThenStop.take 6) = some p ∧ p.node.outbox.length = 1 ∧
      p.node.route.isSome := by
  have hchain : ((make 1 [{ id := 1, partition := 0, cfg := { poolCapacity := 4 } }] {}
      "sequencer").toOption.bind fun p₀ => (p₀.run generated (cancelsThenStop.take 6)).map fun p =>
        (p.node.publisher.closed, p.node.outbox.length)) = some (false, 1) := by decide +kernel
  obtain ⟨p₀, hmake, hchain⟩ := Option.bind_eq_some_iff.mp hchain
  obtain ⟨p, hrun, hlast⟩ := Option.map_eq_some_iff.mp hchain
  obtain ⟨hclosed, hlength⟩ := Prod.mk.inj hlast
  have hmake := EngineNode.ok_of_toOption hmake
  obtain ⟨-, hroute, -, -⟩ := never_stuck generated _ _ _ _ p₀ hmake _ p hrun
  exact ⟨p₀, p, hmake, hrun, hlength, hroute.mpr ⟨hclosed, List.ne_nil_of_length_pos (hlength ▸ Nat.one_pos)⟩⟩

/-! ## The main thread -/

/-- The main thread stops one after the other. -/
structure Orderly (p : Process) : Prop where
  /-- A feed that has been called is told to stop. -/
  called : ∀ i t, p.feeds i = some t → p.phase.feedCalled i = true → t.stopping = true
  /-- The worker that is being stopped is one of the workers. -/
  within : p.phase.Within p.partitions

/-- The main thread comes nearer to its end. -/
theorem left_main (h : p.phase.Within p.partitions) (hstep : p.main = some p') :
    p'.partitions = p.partitions ∧ p'.phase.Within p.partitions ∧
      p'.phase.left p.partitions < p.phase.left p.partitions := by
  have hcall : ∀ i, (p.callStop i).partitions = p.partitions := fun i => by
    unfold callStop
    cases p.feeds i <;> rfl
  -- Every step of the main thread brings it closer to the end.
  unfold main at hstep
  cases hphase : p.phase with
  | serving =>
    simp only [hphase, Option.some.injEq] at hstep
    subst hstep
    refine ⟨rfl, trivial, ?_⟩
    simp only [Phase.left, Bool.false_eq_true, if_false]
    omega
  | stoppingFeed i called =>
    rw [hphase] at h
    cases called with
    | false =>
      simp only [hphase] at hstep
      split_ifs at hstep with hi
      · obtain rfl := Option.some.inj hstep
        refine ⟨hcall i, hi, ?_⟩
        simp [Phase.left]
      · obtain rfl := Option.some.inj hstep
        refine ⟨rfl, trivial, ?_⟩
        simp only [Phase.left, Bool.false_eq_true, if_false]
        omega
    | true =>
      simp only [hphase] at hstep
      split_ifs at hstep
      obtain rfl := Option.some.inj hstep
      have hi : i < p.partitions := h
      refine ⟨rfl, trivial, ?_⟩
      simp only [Phase.left, Bool.false_eq_true, if_false, if_true]
      omega
  | stoppingWorker i called =>
    rw [hphase] at h
    cases called with
    | false =>
      simp only [hphase] at hstep
      split_ifs at hstep with hi
      · obtain rfl := Option.some.inj hstep
        refine ⟨rfl, hi, ?_⟩
        simp [Phase.left]
      · obtain rfl := Option.some.inj hstep
        refine ⟨rfl, trivial, ?_⟩
        simp only [Phase.left, Bool.false_eq_true, if_false]
        omega
    | true =>
      simp only [hphase] at hstep
      split_ifs at hstep
      obtain rfl := Option.some.inj hstep
      have hi : i < p.partitions := h
      refine ⟨rfl, trivial, ?_⟩
      simp only [Phase.left, Bool.false_eq_true, if_false, if_true]
      omega
  | closingOutbox =>
    simp only [hphase, Option.some.injEq] at hstep
    subst hstep
    exact ⟨rfl, trivial, Nat.lt_succ_self 2⟩
  | joiningPublisher =>
    simp only [hphase] at hstep
    split_ifs at hstep
    obtain rfl := Option.some.inj hstep
    exact ⟨rfl, trivial, Nat.lt_succ_self 1⟩
  | stopped => simp [hphase] at hstep

namespace Orderly

/-- A feed that is put in, and knows of its call, keeps the order. -/
theorem setFeed (h : p.Orderly) {t : FeedThread}
    (hcalled : p.phase.feedCalled i = true → t.stopping = true) : (p.setFeed i t).Orderly where
  called j t' ht' hj := by
    rw [feeds_setFeed] at ht'
    split_ifs at ht' with heq
    · obtain rfl := Option.some.inj ht'
      exact hcalled (heq ▸ hj)
    · exact h.called j t' ht' hj
  within := h.within

/-- The main thread keeps the order. -/
theorem main (h : p.Orderly) (hfeeds : ∀ i t, p.feeds i = some t → i < p.partitions)
    (hstep : p.main = some p') : p'.Orderly := by
  obtain ⟨hpartitions, hwithin, -⟩ := left_main h.within hstep
  refine ⟨fun j t ht hj => ?_, hpartitions ▸ hwithin⟩
  unfold Process.main at hstep
  cases hphase : p.phase with
  | serving =>
    simp only [hphase, Option.some.injEq] at hstep
    subst hstep
    simp [Phase.feedCalled] at hj
  | stoppingFeed i called =>
    have hbefore : ∀ j t, p.feeds j = some t → j < i → t.stopping = true := fun j t ht hlt =>
      h.called j t ht (by rw [hphase]; exact decide_eq_true (Or.inl hlt))
    cases called with
    | false =>
      simp only [hphase] at hstep
      split_ifs at hstep with hi
      · obtain rfl := Option.some.inj hstep
        have ht : (p.callStop i).feeds j = some t := ht
        have hj := of_decide_eq_true hj
        unfold callStop at ht
        cases hfeed : p.feeds i with
        | none =>
          rw [hfeed] at ht
          rcases hj with hlt | ⟨rfl, -⟩
          · exact hbefore j t ht hlt
          · rw [hfeed] at ht
            cases ht
        | some t₀ =>
          rw [hfeed] at ht
          simp only [feeds_setFeed] at ht
          split_ifs at ht with heq
          · obtain rfl := Option.some.inj ht
            rfl
          · exact hbefore j t ht (by omega)
      · -- No feed is behind the last partition.
        obtain rfl := Option.some.inj hstep
        exact hbefore j t ht ((hfeeds j t ht).trans_le (not_lt.mp hi))
    | true =>
      simp only [hphase] at hstep
      split_ifs at hstep
      obtain rfl := Option.some.inj hstep
      refine h.called j t ht ?_
      have hj : j < i + 1 ∨ j = i + 1 ∧ false = true := of_decide_eq_true hj
      rw [hphase]
      refine decide_eq_true ?_
      simp only [Bool.false_eq_true, and_false, or_false, and_true] at hj ⊢
      omega
  | stoppingWorker i called =>
    have hsame : p'.feeds = p.feeds := by
      simp only [hphase] at hstep
      cases called with
      | false =>
        simp only at hstep
        split_ifs at hstep
        all_goals obtain rfl := Option.some.inj hstep; rfl
      | true =>
        simp only at hstep
        split_ifs at hstep
        obtain rfl := Option.some.inj hstep
        rfl
    rw [hsame] at ht
    exact h.called j t ht (by rw [hphase]; rfl)
  | closingOutbox =>
    simp only [hphase, Option.some.injEq] at hstep
    subst hstep
    exact h.called j t ht (by rw [hphase]; rfl)
  | joiningPublisher =>
    simp only [hphase] at hstep
    split_ifs at hstep
    obtain rfl := Option.some.inj hstep
    exact h.called j t ht (by rw [hphase]; rfl)
  | stopped => simp [hphase] at hstep

/-- A step of another thread leaves the main thread where it is, and takes back no stop. -/
theorem step {a : Action} (h : p.Orderly) (hfeeds : ∀ i t, p.feeds i = some t → i < p.partitions)
    (hstep : p.step pb a = some p') : p'.Orderly := by
  cases a with
  | startFeed i =>
    replace hstep : p.startFeed i = some p' := hstep
    unfold startFeed at hstep
    split_ifs at hstep with hcan
    obtain ⟨feed, -, rfl⟩ := Option.map_eq_some_iff.mp hstep
    -- Feeds are started only before the first of them is told to stop.
    refine h.setFeed fun hcalled => ?_
    rw [hcan.1] at hcalled
    cases hcalled
  | openStream i =>
    obtain ⟨t, ht, hstep⟩ := Option.bind_eq_some_iff.mp hstep
    split_ifs at hstep
    all_goals
      obtain rfl := Option.some.inj hstep
      exact h.setFeed (h.called i t ht)
  | read i command =>
    obtain ⟨t, ht, hstep⟩ := Option.bind_eq_some_iff.mp hstep
    split_ifs at hstep
    obtain rfl := Option.some.inj hstep
    obtain ⟨hcalled, hwithin⟩ : (p.setFeed i { t with feed := t.feed.receive pb command }).Orderly :=
      h.setFeed (h.called i t ht)
    exact ⟨hcalled, hwithin⟩
  | endStream i status =>
    obtain ⟨t, ht, hstep⟩ := Option.bind_eq_some_iff.mp hstep
    split_ifs at hstep
    obtain rfl := Option.some.inj hstep
    exact h.setFeed (h.called i t ht)
  | main => exact h.main hfeeds hstep
  | node action =>
    replace hstep : (if action.internal then (p.node.step action).map fun node => { p with node }
      else none) = some p' := hstep
    split_ifs at hstep
    obtain ⟨node, -, rfl⟩ := Option.map_eq_some_iff.mp hstep
    exact ⟨h.called, h.within⟩

end Orderly

/-- What holds between the steps, with the order of the main thread. -/
theorem orderly_run {actions : List Action} (h : p.Running pb) (horderly : p.Orderly)
    (hrun : p.run pb actions = some p') : p'.Running pb ∧ p'.Orderly := by
  induction actions generalizing p with
  | nil => exact Option.some.inj hrun ▸ ⟨h, horderly⟩
  | cons a actions ih =>
    obtain ⟨p₁, hstep, hrest⟩ := Option.bind_eq_some_iff.mp hrun
    exact ih (h.step hstep) (horderly.step (fun i t ht => (h.feeds i t ht).1) hstep) hrest

/-- A new process is orderly. -/
theorem orderly_make {partitions : ℕ} {instruments : List Instrument} {options : PublisherOptions}
    {address : String} (h : make partitions instruments options address = .ok p) : p.Orderly := by
  unfold make at h
  cases hnode : EngineNode.make partitions instruments options with
  | error e => rw [hnode] at h; cases h
  | ok node =>
    rw [hnode] at h
    obtain rfl := Except.ok.inj h
    exact ⟨fun i t ht => absurd ht (Option.some_ne_none t).symm, trivial⟩

/-! ## The end -/

/-- What the main thread and the threads that it waits for still have to do: a feed that has been told to
stop ends its stream and returns, a worker takes what is in its inbox and pushes it, and the publisher
takes what has been pushed. -/
inductive Closing (p : Process) : Action → Prop
  /-- The main thread goes on. -/
  | main : Closing p .main
  /-- A feed that has been told to stop opens a stream. -/
  | openStream (i : ℕ) (t : FeedThread) (feed : p.feeds i = some t) (stopping : t.stopping = true) :
      Closing p (.openStream i)
  /-- The stream of a feed that has been told to stop ends. -/
  | endStream (i : ℕ) (t : FeedThread) (status : Status) (feed : p.feeds i = some t)
      (stopping : t.stopping = true) : Closing p (.endStream i status)
  /-- A worker takes an item. -/
  | work (i : ℕ) (partition : i < p.partitions) : Closing p (.node (.work i))
  /-- A worker pushes an output. -/
  | push (i : ℕ) (partition : i < p.partitions) : Closing p (.node (.push i))
  /-- The publisher takes an output. -/
  | route : Closing p (.node .route)

/-- A step of the closing. -/
def Closes (pb : Protobuf) (p p' : Process) : Prop := ∃ a, Closing p a ∧ p.step pb a = some p'

/-- The sum over the partitions. -/
def total (p : Process) (f : ℕ → ℕ) : ℕ := (Finset.range p.partitions).sum f

/-- What is left to do. A step may leave more of what comes later in the list. -/
def left (p : Process) : ℕ ×ₗ ℕ ×ₗ ℕ ×ₗ ℕ ×ₗ ℕ :=
  toLex (p.phase.left p.partitions, toLex (p.total fun i => if p.feedJoined i then 0 else 1,
    toLex (p.total fun i => (p.node.threads i).inbox.length,
      toLex (p.total fun i => (p.node.worker i).outbox.length, p.node.outbox.length))))

/-- Less at one partition, with the same at the others, is less in total. -/
theorem total_lt {f g : ℕ → ℕ} (hi : i < p.partitions) (hless : f i < g i)
    (hother : ∀ j, j ≠ i → f j = g j) : p.total f < p.total g := sum_range_lt hi hless hother

/-- The same at every partition is the same in total. -/
theorem total_congr {f g : ℕ → ℕ} (h : ∀ j, f j = g j) : p.total f = p.total g := by
  rw [funext h]

/-- A feed that has been told to stop returns at the end of what it does. -/
theorem left_return {t t' : FeedThread} (hi : i < p.partitions) (ht : p.feeds i = some t)
    (hrunning : t.feed.returned = false) (hreturned : t'.feed.returned = true) :
    (p.setFeed i t').left < p.left := by
  refine Prod.Lex.toLex_lt_toLex'.mpr ⟨le_rfl, fun _ => ?_⟩
  refine Prod.Lex.toLex_lt_toLex.mpr (Or.inl ?_)
  refine total_lt hi ?_ fun j hj => ?_
  · rw [feedJoined_setFeed, if_pos rfl, feedJoined_of_feed ht, hreturned, hrunning]
    exact Nat.zero_lt_one
  · rw [feedJoined_setFeed, if_neg hj]

/-- **One step.** Less is left. -/
theorem left_closes (h : p.Running pb) (horderly : p.Orderly) (hstep : Closes pb p p') :
    p'.left < p.left := by
  obtain ⟨a, hclosing, hstep⟩ := hstep
  cases hclosing with
  | main =>
    obtain ⟨hpartitions, -, hless⟩ := left_main horderly.within hstep
    refine Prod.Lex.toLex_lt_toLex.mpr (Or.inl ?_)
    rw [hpartitions]
    exact hless
  | openStream i t feed stopping =>
    obtain ⟨t', ht', hstep⟩ := Option.bind_eq_some_iff.mp hstep
    obtain rfl := Option.some.inj (feed.symm.trans ht')
    split_ifs at hstep with hbusy hstop
    · obtain rfl := Option.some.inj hstep
      refine left_return (h.feeds i t feed).1 feed ?_ rfl
      simp only [Bool.or_eq_true, not_or, Bool.not_eq_true] at hbusy
      exact hbusy.2
    · simp [stopping] at hstop
  | endStream i t status feed stopping =>
    obtain ⟨t', ht', hstep⟩ := Option.bind_eq_some_iff.mp hstep
    obtain rfl := Option.some.inj (feed.symm.trans ht')
    split_ifs at hstep with hreading
    obtain rfl := Option.some.inj hstep
    obtain ⟨hi, -, hreturned⟩ := h.feeds i t feed
    refine left_return hi feed ?_ ?_
    · rw [← Bool.not_eq_true]
      exact fun hr => by rw [hreturned hr] at hreading; cases hreading
    · unfold SequencerFeed.finish
      simp only [stopping, if_true]
      split_ifs <;> rfl
  | work i partition =>
    obtain ⟨node, hnode, rfl⟩ := Option.map_eq_some_iff.mp hstep
    replace hnode : p.node.work i = some node := hnode
    obtain ⟨t, hwork, rfl⟩ := Option.map_eq_some_iff.mp hnode
    obtain ⟨item, inbox, w, -, -, hinbox, -, rfl⟩ := WorkerThread.work_spec hwork
    refine Prod.Lex.toLex_lt_toLex'.mpr ⟨le_rfl, fun _ => Prod.Lex.toLex_lt_toLex'.mpr ⟨le_rfl, fun _ => ?_⟩⟩
    refine Prod.Lex.toLex_lt_toLex.mpr (Or.inl (total_lt partition ?_ fun j hj => ?_))
    · show (Function.update p.node.threads i _ i).inbox.length < _
      rw [Function.update_self, hinbox]
      exact Nat.lt_succ_self _
    · show (Function.update p.node.threads i _ j).inbox.length = _
      rw [Function.update_of_ne hj]
  | push i partition =>
    obtain ⟨node, hnode, rfl⟩ := Option.map_eq_some_iff.mp hstep
    replace hnode : p.node.push i = some node := hnode
    unfold EngineNode.push at hnode
    simp only at hnode
    cases hpending : (p.node.threads i).worker.outbox with
    | nil => simp [hpending] at hnode
    | cons output outputs =>
      simp only [hpending] at hnode
      obtain rfl := Option.some.inj hnode
      refine Prod.Lex.toLex_lt_toLex'.mpr ⟨le_rfl, fun _ => Prod.Lex.toLex_lt_toLex'.mpr ⟨le_rfl, fun _ =>
        Prod.Lex.toLex_lt_toLex'.mpr ⟨le_of_eq ?_, fun _ => ?_⟩⟩⟩
      · refine total_congr fun j => ?_
        show (Function.update p.node.threads i _ j).inbox.length = _
        by_cases hj : j = i
        · rw [hj, Function.update_self]
        · rw [Function.update_of_ne hj]
      · refine Prod.Lex.toLex_lt_toLex.mpr (Or.inl (total_lt partition ?_ fun j hj => ?_))
        · show (Function.update p.node.threads i _ i).worker.outbox.length < (p.node.threads i).worker.outbox.length
          rw [Function.update_self, hpending]
          exact Nat.lt_succ_self _
        · show (Function.update p.node.threads i _ j).worker.outbox.length = (p.node.threads j).worker.outbox.length
          rw [Function.update_of_ne hj]
  | route =>
    obtain ⟨node, hnode, rfl⟩ := Option.map_eq_some_iff.mp hstep
    replace hnode : p.node.route = some node := hnode
    unfold EngineNode.route at hnode
    split_ifs at hnode
    cases houtbox : p.node.outbox with
    | nil => simp [houtbox] at hnode
    | cons output outbox =>
      simp only [houtbox] at hnode
      obtain ⟨publisher, -, rfl⟩ := Option.map_eq_some_iff.mp hnode
      -- The queues of the workers are as they were.
      refine Prod.Lex.toLex_lt_toLex'.mpr ⟨le_rfl, fun _ => Prod.Lex.toLex_lt_toLex'.mpr ⟨le_rfl, fun _ =>
        Prod.Lex.toLex_lt_toLex'.mpr ⟨le_rfl, fun _ => Prod.Lex.toLex_lt_toLex'.mpr ⟨le_rfl, fun _ => ?_⟩⟩⟩⟩
      show outbox.length < p.node.outbox.length
      rw [houtbox]
      exact Nat.lt_succ_self _

/-- **No dead end.** While the process has not stopped, one of these threads can go on. -/
theorem exists_closes (h : p.Running pb) (horderly : p.Orderly) (hphase : p.phase ≠ .stopped) :
    ∃ p', Closes pb p p' := by
  have hclose : ∀ a, Closing p a → (p.step pb a).isSome → ∃ p', Closes pb p p' := by
    intro a hclosing hsome
    obtain ⟨p', hp'⟩ := Option.isSome_iff_exists.mp hsome
    exact ⟨p', a, hclosing, hp'⟩
  have hnode : ∀ a : EngineNode.Action, a.internal = true → Closing p (.node a) → (p.node.step a).isSome →
      ∃ p', Closes pb p p' := by
    intro a ha hclosing hsome
    refine hclose (.node a) hclosing ?_
    show (if a.internal then (p.node.step a).map fun node => { p with node } else none).isSome
    rw [if_pos ha, Option.isSome_map]
    exact hsome
  have hmain : ∀ p', p.main = some p' → ∃ p', Closes pb p p' := fun p' hp' => ⟨p', .main, .main, hp'⟩
  -- The main thread goes on by itself, unless it waits for a feed, a worker or the publisher.
  cases hat : p.phase with
  | serving => exact hmain _ (by unfold main; rw [hat])
  | stoppingFeed i called =>
    cases called with
    | false =>
      by_cases hi : i < p.partitions
      · exact hmain _ (by unfold main; rw [hat]; exact if_pos hi)
      · exact hmain _ (by unfold main; rw [hat]; exact if_neg hi)
    | true =>
      by_cases hjoined : p.feedJoined i = true
      · exact hmain _ (by unfold main; rw [hat]; exact if_pos hjoined)
      · -- The feed has been told to stop and has not returned.
        cases ht : p.feeds i with
        | none =>
          unfold feedJoined at hjoined
          rw [ht] at hjoined
          exact absurd rfl hjoined
        | some t =>
          rw [feedJoined_of_feed ht] at hjoined
          have hstopping : t.stopping = true := horderly.called i t ht (by
            rw [hat]
            exact decide_eq_true (Or.inr ⟨rfl, rfl⟩))
          -- Its next action ends the stream that it reads, or opens one and finds that it has to stop.
          by_cases hreading : t.reading = true
          · refine hclose (.endStream i ⟨.cancelled, ""⟩) (.endStream i t _ ht hstopping) ?_
            show ((p.feeds i).bind _).isSome
            rw [ht, Option.bind_some, if_pos hreading]
            rfl
          · refine hclose (.openStream i) (.openStream i t ht hstopping) ?_
            show ((p.feeds i).bind _).isSome
            rw [ht, Option.bind_some, if_neg (by simp [hreading, hjoined]), if_pos (by simp [hstopping])]
            rfl
  | stoppingWorker i called =>
    cases called with
    | false =>
      by_cases hi : i < p.partitions
      · exact hmain _ (by unfold main; rw [hat]; exact if_pos hi)
      · exact hmain _ (by unfold main; rw [hat]; exact if_neg hi)
    | true =>
      have hi : i < p.partitions := by
        have hwithin := horderly.within
        rw [hat] at hwithin
        exact hwithin
      by_cases hreturned : (p.node.threads i).returned = true
      · exact hmain _ (by unfold main; rw [hat]; exact if_pos hreturned)
      · by_cases hidle : (p.node.worker i).outbox = []
        · -- The shutdown is still in the inbox.
          refine hnode (.work i) rfl (.work i hi) ((h.isSome_work i).mpr
            ⟨Bool.not_eq_true _ ▸ hreturned, hidle, ?_⟩)
          obtain ⟨taken, waiting, hworks⟩ := h.works i
          have hqueued := hworks.queued
          have hpilled : p.phase.pilled p.partitions i = true := by
            rw [hat]
            exact decide_eq_true ⟨hi, Or.inr ⟨rfl, rfl⟩⟩
          cases hqueued with
          | serving not_pilled running inbox => simp [hpilled] at not_pilled
          | stopping pill rest is_pilled running shutdown inbox => simp [inbox]
          | returned is_pilled stopped nothing idle => exact absurd stopped hreturned
        · -- The worker still has outputs to push.
          refine hnode (.push i) rfl (.push i hi) ?_
          show (p.node.push i).isSome
          obtain ⟨output, outputs, hpending⟩ := List.exists_cons_of_ne_nil hidle
          have hpending : (p.node.threads i).worker.outbox = output :: outputs := hpending
          unfold EngineNode.push
          simp only [hpending]
          rfl
  | closingOutbox => exact hmain _ (by unfold main; rw [hat])
  | joiningPublisher =>
    by_cases hclosed : p.node.publisher.closed = true
    · exact hmain { p with phase := .stopped } (by unfold main; rw [hat]; exact if_pos hclosed)
    · -- The pill has been pushed and not been taken.
      refine hnode .route rfl .route (h.isSome_route.mpr ⟨Bool.not_eq_true _ ▸ hclosed, fun hempty => ?_⟩)
      have hpill := h.pill
      rw [hat] at hpill
      obtain ⟨before, hpushed, -⟩ := hpill
      rw [EngineNode.pushed, hempty, List.append_nil] at hpushed
      exact hclosed (h.closed.mpr (hpushed ▸ List.mem_append_right _ (List.mem_singleton_self _)))
  | stopped => exact absurd hat hphase

/-- When the process has stopped its threads have returned, its queues are empty, and nobody is subscribed
any more. -/
structure Ended (p : Process) : Prop where
  /-- The main thread has returned. -/
  stopped : p.phase = .stopped
  /-- Every feed has returned. -/
  feeds : ∀ i, p.feedJoined i = true
  /-- Every worker has returned. -/
  workers : ∀ i, i < p.partitions → (p.node.threads i).returned = true
  /-- Every worker has pushed everything. -/
  drained : ∀ i, (p.node.worker i).outbox = []
  /-- The publisher has taken everything. -/
  outbox : p.node.outbox = []
  /-- Nobody is subscribed any more. -/
  subscribers : ∀ id, p.node.publisher.subscribers.lookup id = none

/-- A process that has stopped has ended. -/
theorem ended_of_stopped (h : p.Running pb) (hstopped : p.phase = .stopped) : p.Ended where
  stopped := hstopped
  feeds i := h.feedsStopped i (hstopped ▸ rfl)
  workers i hi := h.workersStopped i (by rw [hstopped]; exact decide_eq_true hi)
  drained := h.idle_of_closed (by rw [hstopped]; rfl)
  outbox := h.outbox_of_stopped hstopped
  subscribers := h.publisher.shut (h.stopped hstopped)

/-- **A process that is told to stop does.** From every state that an interleaving has led to, the steps
that the main thread and those it waits for have left come to an end in every order, whatever else is still
queued. Where they end the process has stopped: all its threads have returned, no output is left over, and
no subscriber is. -/
theorem shutdown_finishes (pb : Protobuf) (partitions : ℕ) (instruments : List Instrument)
    (options : PublisherOptions) (address : String) (p₀ : Process)
    (hmake : make partitions instruments options address = .ok p₀) (actions : List Action) (p : Process)
    (hrun : p₀.run pb actions = some p) : Settles (Closes pb) Ended p := by
  have h := orderly_run (running_make pb hmake) (orderly_make hmake) hrun
  refine @Settles.of_measure _ _ _ (fun q => q.Running pb ∧ q.Orderly) _ _ _ _ left ?_ ?_ h
  · rintro q q' ⟨hq, horderly⟩ hstep
    refine ⟨?_, left_closes hq horderly hstep⟩
    obtain ⟨a, -, hstep⟩ := hstep
    exact ⟨hq.step hstep, horderly.step (fun i t ht => (hq.feeds i t ht).1) hstep⟩
  · rintro q ⟨hq, horderly⟩ hnot
    exact exists_closes hq horderly fun hstopped => hnot (ended_of_stopped hq hstopped)

/-- Two commands have come and the stream is open. -/
theorem shutdown_finishes_while_reading :
    ∃ p₀ p p', make 1 [{ id := 1, partition := 0, cfg := { poolCapacity := 4 } }] {} "sequencer" =
        .ok p₀ ∧
      p₀.run generated (cancelsThenStop.take 5) = some p ∧ p.phase = .serving ∧
      Relation.ReflTransGen (Closes generated) p p' ∧ p'.Ended := by
  have hchain : ((make 1 [{ id := 1, partition := 0, cfg := { poolCapacity := 4 } }] {}
      "sequencer").toOption.bind fun p₀ => (p₀.run generated (cancelsThenStop.take 5)).map fun p =>
        p.phase) = some .serving := by decide +kernel
  obtain ⟨p₀, hmake, hchain⟩ := Option.bind_eq_some_iff.mp hchain
  obtain ⟨p, hrun, hphase⟩ := Option.map_eq_some_iff.mp hchain
  have hmake := EngineNode.ok_of_toOption hmake
  obtain ⟨p', hcloses, hended⟩ := (shutdown_finishes generated _ _ _ _ p₀ hmake _ p hrun).reaches
  exact ⟨p₀, p, p', hmake, hrun, hphase, hcloses, hended⟩

end Process

end OrderBookEngine
