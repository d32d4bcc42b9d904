import OrderBookEngine.Properties.CodecRoundTrip
import OrderBookEngine.Properties.HandOver
import OrderBookEngine.Properties.Serving

/-!
# The threads of a process

Between any two steps, each worker is a sequential worker on the commands that its feed has submitted, with
requests for snapshots between them (`Process.Running`). The main thread stops the feeds before it stops
the workers, and all of them before it closes the outbox; so when a worker meets its shutdown nothing is
submitted any more, and when the publisher meets the end of the outbox nothing is pushed any more.
-/

namespace OrderBookEngine

/-! ## The main thread -/

namespace Phase

/-- The main thread has stopped the feed of a partition. -/
def feedStopped (i : ℕ) : Phase → Bool
  | .serving => false
  | .stoppingFeed k _ => decide (i < k)
  | _ => true

/-- The main thread has put the shutdown into the inbox of a worker. -/
def pilled (partitions i : ℕ) : Phase → Bool
  | .serving | .stoppingFeed _ _ => false
  | .stoppingWorker k called => decide (i < partitions ∧ (i < k ∨ i = k ∧ called = true))
  | _ => decide (i < partitions)

/-- The main thread has waited for a worker. -/
def workerStopped (partitions i : ℕ) : Phase → Bool
  | .serving | .stoppingFeed _ _ => false
  | .stoppingWorker k _ => decide (i < partitions ∧ i < k)
  | _ => decide (i < partitions)

/-- The main thread has closed the outbox. -/
def outboxClosed : Phase → Bool
  | .joiningPublisher | .stopped => true
  | _ => false

/-- A worker is not told to stop before every feed has been stopped. -/
theorem feedStopped_of_pilled {partitions i j : ℕ} {phase : Phase}
    (h : phase.pilled partitions i = true) : phase.feedStopped j = true := by
  cases phase <;> simp_all [pilled, feedStopped]

end Phase

namespace Process

variable {pb : Protobuf} {p p' : Process} {i j : ℕ} {symbol : SymbolId}

/-- The books that a worker was given. -/
def cfgs (p : Process) (i : ℕ) : SymbolId → Option Config := cfgsOf p.instruments i

/-- A worker has taken some items, and will take some more. -/
structure Works (p : Process) (i : ℕ) (taken waiting : List Stamped) : Prop where
  /-- It has served the items taken. -/
  serving : Serving (p.cfgs i) (outputsOf (p.cfgs i) p.node.pushed) taken (p.node.worker i)
  /-- The others are in its inbox. -/
  queued : Queued (p.phase.pilled p.partitions i) (p.node.threads i) waiting
  /-- They are for its own symbols. -/
  owned : Worker.Owned (p.cfgs i) waiting
  /-- Its commands are those that the feed has submitted. -/
  commands : commandsOf (taken ++ waiting) = p.submitted i

/-- The thread of a worker attends to the items that it has taken or will take. -/
theorem Works.attends {taken waiting : List Stamped} (h : p.Works i taken waiting) :
    Attends (p.cfgs i) (outputsOf (p.cfgs i) p.node.pushed) (p.phase.pilled p.partitions i) (p.node.threads i)
      (taken ++ waiting) := ⟨taken, waiting, rfl, h.serving, h.queued, h.owned⟩

/-- The options of a feed. -/
def feedOptions (p : Process) (i : ℕ) : FeedOptions := { address := p.address, partition := i }

/-- What holds between the steps of the threads. -/
structure Running (pb : Protobuf) (p : Process) : Prop where
  /-- No instrument is listed twice, and every one at a partition. -/
  listed : Listed p.partitions p.instruments
  /-- The publisher is well formed. -/
  publisher : p.node.publisher.Wf
  /-- The publisher has closed once it has taken the pill. -/
  closed : p.node.publisher.closed = true ↔ .outboxClosed ∈ p.node.publisher.routed
  /-- The publisher knows the instruments. -/
  symbolList : p.node.publisher.symbolList = p.instruments.map Instrument.id
  /-- A request goes to the worker of the symbol. -/
  workerOf : p.node.workerOf =
    fun symbol => (p.instruments.find? fun x => x.id = symbol).map Instrument.partition
  /-- A request is for an instrument. -/
  requests : ∀ id, ∀ symbol ∈ p.node.requests id, symbol ∈ p.instruments.map Instrument.id
  /-- Every worker is at work on what its feed submits. -/
  works : ∀ i, ∃ taken waiting, p.Works i taken waiting
  /-- All that is pushed is for a symbol of some worker, or the pill. -/
  known : ∀ o ∈ p.node.pushed, o = .outboxClosed ∨ ∃ i, (o.symbol?.bind (p.cfgs i)).isSome
  /-- Every feed keeps its record, and reads nothing once it has returned. -/
  feeds : ∀ i t, p.feeds i = some t → i < p.partitions ∧
    t.feed.Keeps pb (p.feedOptions i) (owned p.instruments i) ∧
    (t.feed.returned = true → t.reading = false)
  /-- A feed that has been stopped has been joined. -/
  feedsStopped : ∀ i, p.phase.feedStopped i = true → p.feedJoined i = true
  /-- A worker that has been stopped has returned. -/
  workersStopped : ∀ i, p.phase.workerStopped p.partitions i = true → (p.node.threads i).returned = true
  /-- The pill is the last that is pushed. -/
  pill : if p.phase.outboxClosed then ∃ before, p.node.pushed = before ++ [.outboxClosed] ∧
      .outboxClosed ∉ before else .outboxClosed ∉ p.node.pushed
  /-- At the end the publisher has closed. -/
  stopped : p.phase = .stopped → p.node.publisher.closed = true

/-- A feed that is put in replaces its own. -/
theorem feeds_setFeed (p : Process) (i : ℕ) (t : FeedThread) (j : ℕ) :
    (p.setFeed i t).feeds j = if j = i then some t else p.feeds j := Function.update_apply ..

/-- What is submitted for a partition is that of its feed. -/
theorem submitted_setFeed (p : Process) (i : ℕ) (t : FeedThread) (j : ℕ) :
    (p.setFeed i t).submitted j = if j = i then t.feed.submitted else p.submitted j := by
  unfold submitted
  rw [feeds_setFeed]
  split_ifs <;> rfl

/-- Whether a partition's feed is joined depends on that feed. -/
theorem feedJoined_setFeed (p : Process) (i : ℕ) (t : FeedThread) (j : ℕ) :
    (p.setFeed i t).feedJoined j = if j = i then t.feed.returned else p.feedJoined j := by
  unfold feedJoined
  rw [feeds_setFeed]
  split_ifs <;> rfl

/-- A feed submits for its partition. -/
theorem submitted_of_feed {t : FeedThread} (h : p.feeds i = some t) :
    p.submitted i = t.feed.submitted := by
  unfold submitted
  rw [h]
  rfl

/-- A feed is joined once it has returned. -/
theorem feedJoined_of_feed {t : FeedThread} (h : p.feeds i = some t) :
    p.feedJoined i = t.feed.returned := by
  unfold feedJoined
  rw [h]
  rfl

namespace Running

/-- A feed goes on, and submits nothing. -/
theorem setFeed (h : p.Running pb) {t : FeedThread} (hi : i < p.partitions)
    (hkeeps : t.feed.Keeps pb (p.feedOptions i) (owned p.instruments i))
    (hreading : t.feed.returned = true → t.reading = false)
    (hsubmitted : t.feed.submitted = p.submitted i)
    (hjoined : p.phase.feedStopped i = true → t.feed.returned = true) : (p.setFeed i t).Running pb := by
  constructor
  case listed => exact h.listed
  case publisher => exact h.publisher
  case closed => exact h.closed
  case symbolList => exact h.symbolList
  case workerOf => exact h.workerOf
  case requests => exact h.requests
  -- What the feed has submitted stays, so that its worker has nothing new.
  case works =>
    intro j
    obtain ⟨taken, waiting, hworks⟩ := h.works j
    refine ⟨taken, waiting, hworks.serving, hworks.queued, hworks.owned, ?_⟩
    rw [submitted_setFeed, hworks.commands]
    split_ifs with hj
    · rw [hj, hsubmitted]
    · rfl
  case known => exact h.known
  case feeds =>
    intro j t' ht'
    rw [feeds_setFeed] at ht'
    split_ifs at ht' with hj
    · obtain rfl := Option.some.inj ht'
      subst hj
      exact ⟨hi, hkeeps, hreading⟩
    · exact h.feeds j t' ht'
  case feedsStopped =>
    intro j hj
    rw [feedJoined_setFeed]
    split_ifs with heq
    · exact hjoined (heq ▸ hj)
    · exact h.feedsStopped j hj
  case workersStopped => exact h.workersStopped
  case pill => exact h.pill
  case stopped => exact h.stopped

/-- A feed whose thread has not returned has not been stopped for good. -/
theorem not_stopped (h : p.Running pb) {t : FeedThread} (ht : p.feeds i = some t)
    (hrunning : t.feed.returned = false) : ¬ p.phase.feedStopped i = true := fun hstopped => by
  have hjoined := h.feedsStopped i hstopped
  rw [feedJoined_of_feed ht, hrunning] at hjoined
  cases hjoined

/-- A feed that starts keeps the process running. -/
theorem startFeed (h : p.Running pb) (hstep : p.startFeed i = some p') : p'.Running pb := by
  unfold Process.startFeed at hstep
  split_ifs at hstep with hcan
  obtain ⟨hphase, hi, hnone⟩ := hcan
  obtain ⟨feed, hmake, rfl⟩ := Option.map_eq_some_iff.mp hstep
  have hmake := EngineNode.ok_of_toOption hmake
  obtain ⟨hkeeps, -⟩ := @SequencerFeed.keeps_make pb feed _ _ hmake
  have hfresh : feed.submitted = [] ∧ feed.returned = false := by
    unfold SequencerFeed.make at hmake
    split_ifs at hmake
    obtain rfl := Except.ok.inj hmake
    exact ⟨rfl, rfl⟩
  refine h.setFeed hi hkeeps (fun hr => ?_) ?_ fun hstopped => ?_
  · rfl
  · rw [hfresh.1, Process.submitted, Option.isNone_iff_eq_none.mp hnone]
    rfl
  · rw [hphase] at hstopped
    cases hstopped

/-- A stream that is opened keeps the process running. -/
theorem openStream (h : p.Running pb) (hstep : p.openStream i = some p') : p'.Running pb := by
  obtain ⟨t, ht, hstep⟩ := Option.bind_eq_some_iff.mp hstep
  obtain ⟨hi, hkeeps, -⟩ := h.feeds i t ht
  split_ifs at hstep with hbusy hstop
  · obtain rfl := Option.some.inj hstep
    simp only [Bool.or_eq_true, not_or, Bool.not_eq_true] at hbusy
    exact h.setFeed hi hkeeps.return_ (fun _ => hbusy.1) (submitted_of_feed ht).symm fun _ => rfl
  · obtain rfl := Option.some.inj hstep
    simp only [Bool.or_eq_true, not_or, Bool.not_eq_true] at hbusy hstop
    have hrunning : t.feed.failure = none := Option.not_isSome_iff_eq_none.mp (by
      rw [← SequencerFeed.failed, hstop.2]
      exact Bool.false_ne_true)
    refine h.setFeed hi (hkeeps.ask hrunning).1 (fun hr => ?_) (submitted_of_feed ht).symm fun hstopped => ?_
    · rw [show t.feed.ask.returned = t.feed.returned from rfl, hbusy.2] at hr
      cases hr
    · exact absurd hstopped (h.not_stopped ht hbusy.2)

/-- A stream that ends keeps the process running. -/
theorem endStream {status : Status} (h : p.Running pb) (hstep : p.endStream i status = some p') :
    p'.Running pb := by
  obtain ⟨t, ht, hstep⟩ := Option.bind_eq_some_iff.mp hstep
  obtain ⟨hi, hkeeps, hreturned⟩ := h.feeds i t ht
  split_ifs at hstep with hreading
  obtain rfl := Option.some.inj hstep
  have hrunning : t.feed.returned = false := by
    rw [← Bool.not_eq_true]
    exact fun hr => by rw [hreturned hr] at hreading; cases hreading
  have hsubmitted : ∀ attempt, (t.feed.finish attempt).submitted = t.feed.submitted := by
    intro attempt
    unfold SequencerFeed.finish
    simp only
    split_ifs <;> rfl
  refine h.setFeed hi (hkeeps.finish _).1 (fun _ => rfl) ?_ fun hstopped => ?_
  · rw [hsubmitted, submitted_of_feed ht]
  · exact absurd hstopped (h.not_stopped ht hrunning)

/-- A submitted item is a command for a symbol that the worker owns. -/
theorem owned_of_stamped {command : SequencedCommand} {item : Stamped}
    (hstamped : SequencerFeed.stamped pb command = some item)
    (howned : command.symbol ∈ Process.owned p.instruments i) :
    Worker.Owned (p.cfgs i) [item] ∧ commandsOf [item] = [item] := by
  obtain ⟨decoded, hdecoded, rfl⟩ := Option.map_eq_some_iff.mp hstamped
  -- What decodes is a command that a gateway can send: no shutdown and no snapshot.
  obtain ⟨hwire, hreceived⟩ : decoded.OnWire ∧
      decoded.received command.symbol command.clientOrderId = decoded := by
    unfold Protobuf.decodeBody at hdecoded
    split_ifs at hdecoded
    cases hparse : pb.parse command.payload with
    | none => simp [hparse] at hdecoded
    | some message =>
      simp only [hparse] at hdecoded
      exact (Protobuf.commandOf_eq_some _ hdecoded).2
  obtain ⟨cfg, hcfg⟩ := Option.isSome_iff_exists.mp (Listed.cfgsOf_isSome.mpr howned)
  constructor
  · intro x hx
    rw [List.mem_singleton.mp hx]
    refine ⟨command.symbol, cfg, ?_, hcfg⟩
    show decoded.symbol? = _
    rw [← hreceived]
    cases decoded with
    | shutdown => cases hwire
    | takeSnapshot => cases hwire
    | _ => rfl
  · refine List.filter_cons_of_pos ?_
    show (!decoded.isSnapshot) = true
    cases decoded with
    | takeSnapshot => cases hwire
    | _ => rfl

/-- What a feed submits for a message. -/
theorem submitted_receive (f : SequencerFeed) (command : SequencedCommand) :
    ∃ items, (f.receive pb command).submitted = f.submitted ++ items ∧
      (f.receive pb command).returned = f.returned ∧ (items = [] ∨ command.symbol ∈ f.owned ∧
        ∃ item, SequencerFeed.stamped pb command = some item ∧ items = [item]) := by
  unfold SequencerFeed.receive
  simp only
  split_ifs with hgap howner
  · exact ⟨[], (List.append_nil _).symm, rfl, Or.inl rfl⟩
  · cases hstamped : SequencerFeed.stamped pb command with
    | none => exact ⟨[], (List.append_nil _).symm, rfl, Or.inl rfl⟩
    | some item => exact ⟨[item], rfl, rfl, Or.inr ⟨howner, item, rfl, rfl⟩⟩
  · exact ⟨[], (List.append_nil _).symm, rfl, Or.inl rfl⟩

/-- A command that is read keeps the process running. -/
theorem read {command : SequencedCommand} (h : p.Running pb) (hstep : p.read pb i command = some p') :
    p'.Running pb := by
  obtain ⟨t, ht, hstep⟩ := Option.bind_eq_some_iff.mp hstep
  obtain ⟨hi, hkeeps, hreturned⟩ := h.feeds i t ht
  split_ifs at hstep with hreading
  simp only [Bool.and_eq_true, Bool.not_eq_true'] at hreading
  have hrunning : t.feed.returned = false := by
    rw [← Bool.not_eq_true]
    exact fun hr => by rw [hreturned hr] at hreading; cases hreading.1
  have hfailure : t.feed.failure = none := Option.not_isSome_iff_eq_none.mp (by
    rw [← SequencerFeed.failed, hreading.2]
    exact Bool.false_ne_true)
  obtain ⟨items, hsubmitted, hstill, hitems⟩ := @submitted_receive pb t.feed command
  rw [hkeeps.owned_eq] at hitems
  simp only [hsubmitted, List.drop_left, Option.some.injEq] at hstep
  subst hstep
  have hnew : Worker.Owned (p.cfgs i) items ∧ commandsOf items = items := by
    rcases hitems with rfl | ⟨howned, item, hstamped, rfl⟩
    · exact ⟨fun x hx => absurd hx List.not_mem_nil, rfl⟩
    · exact owned_of_stamped hstamped howned
  -- The thread of the feed is there, so its worker has not been stopped.
  have hopen : p.phase.pilled p.partitions i = false := by
    rw [← Bool.not_eq_true]
    exact fun hpilled => h.not_stopped ht hrunning (Phase.feedStopped_of_pilled hpilled)
  have hsub : ∀ n : EngineNode, items.foldl (fun node item => node.submit i item) n =
      n.setThread i { n.threads i with inbox := (n.threads i).inbox ++ items } := by
    intro n
    rcases hitems with rfl | ⟨-, item, -, rfl⟩
    · show n = _
      unfold EngineNode.setThread
      rw [List.append_nil]
      exact (congrArg (fun threads => { n with threads }) (Function.update_eq_self i n.threads)).symm
    · rfl
  have hworker : (p.node.setThread i
      { p.node.threads i with inbox := (p.node.threads i).inbox ++ items }).worker = p.node.worker := by
    rw [EngineNode.worker_setThread]
    exact Function.update_eq_self i p.node.worker
  rw [hsub]
  constructor
  case listed => exact h.listed
  case publisher => exact h.publisher
  case closed => exact h.closed
  case symbolList => exact h.symbolList
  case workerOf => exact h.workerOf
  case requests => exact h.requests
  case works =>
    intro j
    obtain ⟨taken, waiting, hworks⟩ := h.works j
    have hserving : Serving (p.cfgs j) (outputsOf (p.cfgs j) p.node.pushed) taken
        ((p.node.setThread i { p.node.threads i with
          inbox := (p.node.threads i).inbox ++ items }).worker j) := by
      rw [hworker]
      exact hworks.serving
    by_cases hj : j = i
    · subst hj
      refine ⟨taken, waiting ++ items, hserving, ?_, ?_, ?_⟩
      · show Queued _ (Function.update p.node.threads j _ j) _
        rw [Function.update_self]
        exact hworks.queued.handOver hopen items
      · intro x hx
        rcases List.mem_append.mp hx with hx | hx
        · exact hworks.owned x hx
        · exact hnew.1 x hx
      · rw [← List.append_assoc, commandsOf_append, hworks.commands, hnew.2, submitted_of_feed ht]
        show _ = (p.setFeed j _).submitted j
        rw [submitted_setFeed, if_pos rfl]
        exact hsubmitted.symm
    · refine ⟨taken, waiting, hserving, ?_, hworks.owned, ?_⟩
      · show Queued _ (Function.update p.node.threads i _ j) _
        rw [Function.update_of_ne hj]
        exact hworks.queued
      · rw [hworks.commands]
        show _ = (p.setFeed i _).submitted j
        rw [submitted_setFeed, if_neg hj]
  case known => exact h.known
  case feeds =>
    intro j t' ht'
    have ht' : (p.setFeed i _).feeds j = some t' := ht'
    rw [feeds_setFeed] at ht'
    split_ifs at ht' with hj
    · obtain rfl := Option.some.inj ht'
      subst hj
      refine ⟨hi, hkeeps.receive hfailure, fun hr => ?_⟩
      rw [hstill, hrunning] at hr
      cases hr
    · exact h.feeds j t' ht'
  case feedsStopped =>
    intro j hj
    show (p.setFeed i _).feedJoined j = true
    rw [feedJoined_setFeed]
    split_ifs with heq
    · exact absurd (heq ▸ hj) (h.not_stopped ht hrunning)
    · exact h.feedsStopped j hj
  case workersStopped =>
    intro j hj
    show (Function.update p.node.threads i _ j).returned = true
    by_cases heq : j = i
    · rw [heq, Function.update_self]
      exact h.workersStopped i (heq ▸ hj)
    · rw [Function.update_of_ne heq]
      exact h.workersStopped j hj
  case pill => exact h.pill
  case stopped => exact h.stopped

/-- The main thread goes on, and touches nothing. -/
theorem atPhase (h : p.Running pb) {phase : Phase}
    (hpilled : ∀ i, phase.pilled p.partitions i = p.phase.pilled p.partitions i)
    (hfeeds : ∀ i, phase.feedStopped i = true → p.feedJoined i = true)
    (hworkers : ∀ i, phase.workerStopped p.partitions i = true → (p.node.threads i).returned = true)
    (hclosed : phase.outboxClosed = p.phase.outboxClosed)
    (hstopped : phase = .stopped → p.node.publisher.closed = true) :
    Running pb { p with phase } := by
  constructor
  case listed => exact h.listed
  case publisher => exact h.publisher
  case closed => exact h.closed
  case symbolList => exact h.symbolList
  case workerOf => exact h.workerOf
  case requests => exact h.requests
  -- The inboxes are the same, and by the new phase nothing else has to be in them.
  case works =>
    intro j
    obtain ⟨taken, waiting, hworks⟩ := h.works j
    refine ⟨taken, waiting, hworks.serving, ?_, hworks.owned, hworks.commands⟩
    show Queued (phase.pilled p.partitions j) _ _
    rw [hpilled]
    exact hworks.queued
  case known => exact h.known
  case feeds => exact h.feeds
  case feedsStopped => exact hfeeds
  case workersStopped => exact hworkers
  case pill =>
    show if phase.outboxClosed then _ else _
    rw [hclosed]
    exact h.pill
  case stopped => exact hstopped

/-- The main thread puts the shutdown into an inbox, when all feeds have returned. -/
theorem stopWorker (h : p.Running pb) (hphase : p.phase = .stoppingWorker i false)
    (hi : i < p.partitions) : Running pb { p with
      node := p.node.submit i { command := .shutdown }
      phase := .stoppingWorker i true } := by
  constructor
  case listed => exact h.listed
  case publisher => exact h.publisher
  case closed => exact h.closed
  case symbolList => exact h.symbolList
  case workerOf => exact h.workerOf
  case requests => exact h.requests
  case works =>
    intro j
    obtain ⟨taken, waiting, hworks⟩ := h.works j
    refine ⟨taken, waiting, ?_, ?_, hworks.owned, hworks.commands⟩
    · show Serving _ _ _ ((p.node.submit i _).worker j)
      rw [EngineNode.worker_submit]
      exact hworks.serving
    · have hqueued := hworks.queued
      rw [hphase] at hqueued
      show Queued (Phase.pilled p.partitions j (.stoppingWorker i true))
        (Function.update p.node.threads i _ j) _
      -- Only the worker that is stopped finds something new in its inbox.
      by_cases hj : j = i
      · have hbefore : Phase.pilled p.partitions i (.stoppingWorker i false) = false := by
          simp [Phase.pilled]
        have hafter : Phase.pilled p.partitions i (.stoppingWorker i true) = true := by
          simp [Phase.pilled, hi]
        rw [hj, Function.update_self, hafter]
        rw [hj, hbefore] at hqueued
        exact hqueued.stop _ rfl
      · have hsame : Phase.pilled p.partitions j (.stoppingWorker i true) =
            Phase.pilled p.partitions j (.stoppingWorker i false) := by
          simp [Phase.pilled, hj]
        rw [Function.update_of_ne hj, hsame]
        exact hqueued
  case known => exact h.known
  case feeds => exact h.feeds
  case feedsStopped => exact fun j _ => h.feedsStopped j (hphase ▸ rfl)
  case workersStopped =>
    intro j hj
    have hj : Phase.workerStopped p.partitions j (.stoppingWorker i true) = true := hj
    simp only [Phase.workerStopped, decide_eq_true_eq] at hj
    show (Function.update p.node.threads i _ j).returned = true
    rw [Function.update_of_ne hj.2.ne]
    refine h.workersStopped j ?_
    rw [hphase]
    exact decide_eq_true hj
  case pill =>
    have hpill := h.pill
    rw [hphase] at hpill
    exact hpill
  case stopped => exact fun heq => by cases heq

/-- The main thread closes the outbox, when all workers have returned. -/
theorem closeOutbox (h : p.Running pb) (hphase : p.phase = .closingOutbox) : Running pb { p with
      node := { p.node with outbox := p.node.outbox ++ [.outboxClosed] }
      phase := .joiningPublisher } := by
  have hpushed : EngineNode.pushed { p.node with outbox := p.node.outbox ++ [.outboxClosed] } =
      p.node.pushed ++ [.outboxClosed] := (List.append_assoc ..).symm
  constructor
  case listed => exact h.listed
  case publisher => exact h.publisher
  case closed => exact h.closed
  case symbolList => exact h.symbolList
  case workerOf => exact h.workerOf
  case requests => exact h.requests
  case works =>
    intro j
    obtain ⟨taken, waiting, hworks⟩ := h.works j
    refine ⟨taken, waiting, ?_, ?_, hworks.owned, hworks.commands⟩
    · show Serving (p.cfgs j) (outputsOf (p.cfgs j) (EngineNode.pushed _)) taken (p.node.worker j)
      -- The pill is no worker's output.
      rw [hpushed, outputsOf_append, @outputsOf_eq_nil _ [.outboxClosed] fun o ho => by
        rw [List.mem_singleton.mp ho]; rfl, List.append_nil]
      exact hworks.serving
    · have hqueued := hworks.queued
      rw [hphase] at hqueued
      exact hqueued
  case known =>
    intro o ho
    have ho : o ∈ EngineNode.pushed _ := ho
    rw [hpushed] at ho
    rcases List.mem_append.mp ho with ho | ho
    · exact h.known o ho
    · exact Or.inl (List.mem_singleton.mp ho)
  case feeds => exact h.feeds
  case feedsStopped => exact fun j _ => h.feedsStopped j (hphase ▸ rfl)
  case workersStopped => exact fun j hj => h.workersStopped j (hphase ▸ hj)
  case pill =>
    have hpill := h.pill
    rw [hphase] at hpill
    exact ⟨p.node.pushed, hpushed, hpill⟩
  case stopped => exact fun heq => by cases heq

/-- A feed that is told to stop keeps the process running. -/
theorem callStop (h : p.Running pb) (i : ℕ) : (p.callStop i).Running pb := by
  unfold Process.callStop
  cases ht : p.feeds i with
  | none => exact h
  | some t =>
    obtain ⟨hi, hkeeps, hreturned⟩ := h.feeds i t ht
    refine h.setFeed hi hkeeps hreturned (submitted_of_feed ht).symm fun hstopped => ?_
    rw [← feedJoined_of_feed ht]
    exact h.feedsStopped i hstopped

/-- A step of the main thread keeps the process running. -/
theorem main (h : p.Running pb) (hstep : p.main = some p') : p'.Running pb := by
  unfold Process.main at hstep
  cases hphase : p.phase with
  | serving =>
    simp only [hphase, Option.some.injEq] at hstep
    subst hstep
    refine h.atPhase (fun j => by rw [hphase]; rfl) (fun j hj => ?_) (fun j hj => by cases hj)
      (by rw [hphase]; rfl) fun heq => by cases heq
    have hj : decide (j < 0) = true := hj
    exact absurd (of_decide_eq_true hj) (Nat.not_lt_zero j)
  | stoppingFeed i called =>
    cases called with
    | false =>
      simp only [hphase] at hstep
      split_ifs at hstep with hi
      · obtain rfl := Option.some.inj hstep
        -- Telling a feed to stop does not move the main thread.
        have hcalled := h.callStop i
        have hsame : (p.callStop i).phase = p.phase := by
          unfold Process.callStop
          cases p.feeds i <;> rfl
        refine hcalled.atPhase (fun j => by rw [hsame, hphase]; rfl) (fun j hj => ?_)
          (fun j hj => by cases hj) (by rw [hsame, hphase]; rfl) fun heq => by cases heq
        exact hcalled.feedsStopped j (by rw [hsame, hphase]; exact hj)
      · obtain rfl := Option.some.inj hstep
        refine h.atPhase (fun j => by rw [hphase]; simp [Phase.pilled]) (fun j _ => ?_) (fun j hj => ?_)
          (by rw [hphase]; rfl) fun heq => by cases heq
        · -- Behind the last partition there is no feed.
          by_cases hj : j < i
          · exact h.feedsStopped j (by rw [hphase]; exact decide_eq_true hj)
          · unfold Process.feedJoined
            cases ht : p.feeds j with
            | none => rfl
            | some t => exact absurd (h.feeds j t ht).1 (by omega)
        · simp only [Phase.workerStopped, decide_eq_true_eq] at hj
          exact absurd hj.2 (Nat.not_lt_zero j)
    | true =>
      simp only [hphase] at hstep
      split_ifs at hstep with hjoined
      obtain rfl := Option.some.inj hstep
      refine h.atPhase (fun j => by rw [hphase]; rfl) (fun j hj => ?_) (fun j hj => by cases hj)
        (by rw [hphase]; rfl) fun heq => by cases heq
      rcases Nat.lt_succ_iff_lt_or_eq.mp (of_decide_eq_true hj) with hlt | rfl
      · exact h.feedsStopped j (by rw [hphase]; exact decide_eq_true hlt)
      · exact hjoined
  | stoppingWorker i called =>
    -- All feeds have been joined, and the workers before this one have returned.
    have hfeeds : ∀ j, p.feedJoined j = true := fun j => h.feedsStopped j (hphase ▸ rfl)
    have hworkers : ∀ j, j < p.partitions → j < i → (p.node.threads j).returned = true := fun j hj hlt =>
      h.workersStopped j (by rw [hphase]; exact decide_eq_true ⟨hj, hlt⟩)
    cases called with
    | false =>
      simp only [hphase] at hstep
      split_ifs at hstep with hi
      · obtain rfl := Option.some.inj hstep
        exact h.stopWorker hphase hi
      · obtain rfl := Option.some.inj hstep
        refine h.atPhase (fun j => ?_) (fun j _ => hfeeds j) (fun j hj => ?_) (by rw [hphase]; rfl)
          fun heq => by cases heq
        · rw [hphase]
          simp only [Phase.pilled, decide_eq_decide]
          omega
        · have hj := of_decide_eq_true hj
          exact hworkers j hj (by omega)
    | true =>
      simp only [hphase] at hstep
      split_ifs at hstep with hreturned
      obtain rfl := Option.some.inj hstep
      refine h.atPhase (fun j => ?_) (fun j _ => hfeeds j) (fun j hj => ?_) (by rw [hphase]; rfl)
        fun heq => by cases heq
      · rw [hphase]
        simp only [Phase.pilled, decide_eq_decide, Bool.false_eq_true, and_false, or_false, and_true]
        omega
      · obtain ⟨hj, hlt⟩ := of_decide_eq_true hj
        rcases Nat.lt_succ_iff_lt_or_eq.mp hlt with hlt | rfl
        · exact hworkers j hj hlt
        · exact hreturned
  | closingOutbox =>
    simp only [hphase, Option.some.injEq] at hstep
    subst hstep
    exact h.closeOutbox hphase
  | joiningPublisher =>
    simp only [hphase] at hstep
    split_ifs at hstep with hclosed
    obtain rfl := Option.some.inj hstep
    exact h.atPhase (fun j => by rw [hphase]; rfl) (fun j _ => h.feedsStopped j (hphase ▸ rfl))
      (fun j hj => h.workersStopped j (hphase ▸ hj)) (by rw [hphase]; rfl) fun _ => hclosed
  | stopped => simp [hphase] at hstep

/-- An internal action that only moves one thread of the workers, and what is pushed. -/
theorem moveThread (h : p.Running pb) {node : EngineNode} {t : WorkerThread} (i : ℕ)
    (hthreads : node.threads = Function.update p.node.threads i t)
    (hworkerOf : node.workerOf = p.node.workerOf) (hpublisher : node.publisher = p.node.publisher)
    (hrequests : ∀ id, ∀ symbol ∈ node.requests id, symbol ∈ p.node.requests id)
    (hreturned : (p.node.threads i).returned = true → t.returned = true)
    (hother : ∀ j, j ≠ i → outputsOf (p.cfgs j) node.pushed = outputsOf (p.cfgs j) p.node.pushed)
    (hmoved : ∀ items, Attends (p.cfgs i) (outputsOf (p.cfgs i) p.node.pushed)
        (p.phase.pilled p.partitions i) (p.node.threads i) items → commandsOf items = p.submitted i →
      ∃ items', Attends (p.cfgs i) (outputsOf (p.cfgs i) node.pushed) (p.phase.pilled p.partitions i) t items' ∧
        commandsOf items' = p.submitted i)
    (hknown : ∀ o ∈ node.pushed, o = .outboxClosed ∨ ∃ i, (o.symbol?.bind (p.cfgs i)).isSome)
    (hpill : if p.phase.outboxClosed then ∃ before, node.pushed = before ++ [.outboxClosed] ∧
      .outboxClosed ∉ before else .outboxClosed ∉ node.pushed) : Running pb { p with node } := by
  have hworker : ∀ j, node.worker j = if j = i then t.worker else p.node.worker j := by
    intro j
    unfold EngineNode.worker
    rw [hthreads]
    -- The worker of the thread that moves, and the others.
    by_cases hj : j = i
    · rw [hj, Function.update_self, if_pos rfl]
    · rw [Function.update_of_ne hj, if_neg hj]
  constructor
  case listed => exact h.listed
  case publisher => exact hpublisher ▸ h.publisher
  case closed => exact hpublisher ▸ h.closed
  case symbolList => exact hpublisher ▸ h.symbolList
  case workerOf => exact hworkerOf.trans h.workerOf
  case requests => exact fun id symbol hmem => h.requests id symbol (hrequests id symbol hmem)
  case works =>
    intro j
    obtain ⟨taken, waiting, hworks⟩ := h.works j
    by_cases hj : j = i
    · subst hj
      obtain ⟨_, ⟨taken', waiting', rfl, hserving, hqueued, howned⟩, hcommands⟩ :=
        hmoved _ hworks.attends hworks.commands
      refine ⟨taken', waiting', ?_, ?_, howned, hcommands⟩
      · show Serving _ _ _ (node.worker j)
        rw [hworker, if_pos rfl]
        exact hserving
      · show Queued _ (node.threads j) _
        rw [hthreads, Function.update_self]
        exact hqueued
    · refine ⟨taken, waiting, ?_, ?_, hworks.owned, hworks.commands⟩
      · show Serving _ (outputsOf (p.cfgs j) node.pushed) _ (node.worker j)
        rw [hworker, if_neg hj, hother j hj]
        exact hworks.serving
      · show Queued _ (node.threads j) _
        rw [hthreads, Function.update_of_ne hj]
        exact hworks.queued
  case known => exact hknown
  case feeds => exact h.feeds
  case feedsStopped => exact h.feedsStopped
  case workersStopped =>
    intro j hj
    show (node.threads j).returned = true
    rw [hthreads]
    by_cases heq : j = i
    · rw [heq, Function.update_self]
      exact hreturned (h.workersStopped i (heq ▸ hj))
    · rw [Function.update_of_ne heq]
      exact h.workersStopped j hj
  case pill => exact hpill
  case stopped =>
    intro hstopped
    show node.publisher.closed = true
    rw [hpublisher]
    exact h.stopped hstopped

/-- A worker that takes an item keeps the process running. -/
theorem work (h : p.Running pb) {item : Stamped} {inbox : List Stamped} {w : Worker}
    (hrunning : (p.node.threads i).returned = false) (hidle : (p.node.worker i).outbox = [])
    (hnext : (p.node.threads i).inbox = item :: inbox) (hrun : (p.node.worker i).run [item] = some w) :
    Running pb { p with
      node := p.node.setThread i { worker := w, inbox, returned := item.command = .shutdown } } := by
  have hwork : (p.node.threads i).work = some { worker := w, inbox, returned := item.command = .shutdown } := by
    have hidle : (p.node.threads i).worker.outbox = [] := hidle
    have hrun : (p.node.threads i).worker.run [item] = some w := hrun
    unfold WorkerThread.work
    rw [if_neg (by simp [hrunning, hidle]), hnext]
    simp only
    rw [hrun]
    rfl
  refine h.moveThread i rfl rfl rfl (fun _ _ hmem => hmem) (fun hr => ?_) (fun _ _ => rfl)
    (fun items hattends hcommands => ⟨items, hattends.work hwork, hcommands⟩) h.known h.pill
  rw [hrunning] at hr
  cases hr

/-- A worker whose thread has been waited for has pushed all. -/
theorem idle_of_closed (h : p.Running pb) (hclosed : p.phase.outboxClosed = true) (i : ℕ) :
    (p.node.worker i).outbox = [] := by
  obtain ⟨taken, waiting, hworks⟩ := h.works i
  refine hworks.attends.idle ?_
  by_cases hi : i < p.partitions
  · refine Or.inl (h.workersStopped i ?_)
    cases hphase : p.phase <;> simp_all [Phase.outboxClosed, Phase.workerStopped]
  · exact Or.inr (h.listed.cfgsOf_eq_none hi)

/-- A worker that pushes an output keeps the process running. -/
theorem push (h : p.Running pb) {output : Output} {outputs : List Output}
    (hpending : (p.node.worker i).outbox = output :: outputs) : Running pb { p with
      node := { p.node.setThread i { p.node.threads i with
        worker := { p.node.worker i with outbox := outputs } } with
        outbox := p.node.outbox ++ [output] } } := by
  obtain ⟨taken, waiting, hworks⟩ := h.works i
  -- The output is of a symbol of this worker, so the outbox is still open.
  obtain ⟨symbol, cfg, hsymbol, hcfg⟩ := hworks.serving.mine output (hpending ▸ List.mem_cons_self)
  have hopen : p.phase.outboxClosed = false := by
    rw [← Bool.not_eq_true]
    intro hclosed
    rw [h.idle_of_closed hclosed] at hpending
    cases hpending
  refine h.moveThread i rfl rfl rfl (fun _ _ hmem => hmem) id (fun j hj => ?_)
    (fun items hattends hcommands => ⟨items, ?_, hcommands⟩) (fun o ho => ?_) ?_
  · -- The symbol is at no other worker.
    have hnone : p.cfgs j symbol = none := by
      by_contra hsome
      obtain ⟨cfg', hcfg'⟩ := Option.ne_none_iff_exists'.mp hsome
      exact hj (h.listed.apart hcfg' hcfg)
    show outputsOf _ (p.node.publisher.routed ++ (p.node.outbox ++ [output])) = _
    rw [← List.append_assoc, outputsOf_append, @outputsOf_eq_nil _ [output] fun o ho => by
      rw [List.mem_singleton.mp ho, hsymbol, Option.bind_some, hnone], List.append_nil]
    rfl
  · show Attends _ (outputsOf _ (p.node.publisher.routed ++ (p.node.outbox ++ [output]))) _ _ _
    rw [← List.append_assoc, outputsOf_append]
    exact hattends.push hpending
  · have ho : o ∈ p.node.publisher.routed ++ (p.node.outbox ++ [output]) := ho
    rw [← List.append_assoc] at ho
    rcases List.mem_append.mp ho with ho | ho
    · exact h.known o ho
    · refine Or.inr ⟨i, ?_⟩
      rw [List.mem_singleton.mp ho, hsymbol, Option.bind_some, hcfg]
      rfl
  · have hpill := h.pill
    rw [hopen] at hpill ⊢
    have hnone : .outboxClosed ∉ p.node.pushed := hpill
    show .outboxClosed ∉ p.node.publisher.routed ++ (p.node.outbox ++ [output])
    rw [← List.append_assoc, List.mem_append, List.mem_singleton]
    rintro (hmem | rfl)
    · exact hnone hmem
    · cases hsymbol

/-- A request that is submitted keeps the process running. -/
theorem request (h : p.Running pb) {id : SubscriberId} {symbols : List SymbolId}
    (hnext : p.node.requests id = symbol :: symbols) (hworker : p.node.workerOf symbol = some i) :
    Running pb { p with
      node := { p.node with requests := Function.update p.node.requests id symbols }.submit i
        { command := .takeSnapshot symbol id } } := by
  refine h.moveThread i rfl rfl rfl (fun other symbol' hmem => ?_) (fun hr => hr) (fun _ _ => rfl)
    (fun items hattends hcommands => ?_) h.known h.pill
  · have hmem : symbol' ∈ Function.update p.node.requests id symbols other := hmem
    by_cases hother : other = id
    · rw [hother, Function.update_self] at hmem
      rw [hother, hnext]
      exact List.mem_cons_of_mem _ hmem
    · rwa [Function.update_of_ne hother] at hmem
  · -- The request is for a symbol of the worker that it goes to.
    obtain ⟨j, cfg, hj, hcfg⟩ := Listed.workerOf (h.requests id symbol (hnext ▸ List.mem_cons_self))
    rw [h.workerOf] at hworker
    obtain rfl := Option.some.inj (hj.symm.trans hworker)
    have howned : Worker.Owned (p.cfgs j) [{ command := .takeSnapshot symbol id }] := by
      intro x hx
      rw [List.mem_singleton.mp hx]
      exact ⟨symbol, cfg, rfl, hcfg⟩
    rcases hattends.request howned with hahead | hbehind
    · refine ⟨_, hahead, ?_⟩
      rw [commandsOf_append, hcommands]
      exact List.append_nil _
    · exact ⟨_, hbehind, hcommands⟩

/-- The publisher and its subscribers keep the process running. -/
theorem publishes (h : p.Running pb) {node : EngineNode} (hnode : EngineNode.Publishes p.node node) :
    Running pb { p with node } := by
  have hworker : node.worker = p.node.worker := by
    unfold EngineNode.worker
    rw [hnode.threads]
  constructor
  case listed => exact h.listed
  case publisher => exact hnode.publisher
  case closed => exact hnode.closed h.closed
  case symbolList => exact hnode.symbolList.trans h.symbolList
  case workerOf => exact hnode.workerOf.trans h.workerOf
  case requests =>
    intro id symbol hmem
    -- What is still to be requested was so before, or comes from a call that has just been made.
    rcases hnode.requests id symbol hmem with hmem | hmem
    · exact h.requests id symbol hmem
    · exact h.symbolList ▸ hmem
  case works =>
    intro j
    obtain ⟨taken, waiting, hworks⟩ := h.works j
    refine ⟨taken, waiting, ?_, ?_, hworks.owned, hworks.commands⟩
    · show Serving _ (outputsOf _ node.pushed) _ (node.worker j)
      rw [hnode.pushed, hworker]
      exact hworks.serving
    · show Queued _ (node.threads j) _
      rw [hnode.threads]
      exact hworks.queued
  case known =>
    show ∀ o ∈ node.pushed, _
    rw [hnode.pushed]
    exact h.known
  case feeds => exact h.feeds
  case feedsStopped => exact h.feedsStopped
  case workersStopped =>
    intro j hj
    show (node.threads j).returned = true
    rw [hnode.threads]
    exact h.workersStopped j hj
  case pill =>
    show if p.phase.outboxClosed then ∃ before, node.pushed = _ ∧ _ else _ ∉ node.pushed
    rw [hnode.pushed]
    exact h.pill
  case stopped => exact fun hstopped => hnode.stays (h.stopped hstopped)

/-- **One step.** -/
theorem step {a : Action} (h : p.Running pb) (hstep : p.step pb a = some p') : p'.Running pb := by
  cases a with
  | startFeed i => exact h.startFeed hstep
  | openStream i => exact h.openStream hstep
  | read i command => exact h.read hstep
  | endStream i status => exact h.endStream hstep
  | main => exact h.main hstep
  | node action =>
    replace hstep : (if action.internal then (p.node.step action).map fun node => { p with node }
      else none) = some p' := hstep
    split_ifs at hstep with hinternal
    obtain ⟨node, hnode, rfl⟩ := Option.map_eq_some_iff.mp hstep
    cases EngineNode.moves_of_step h.publisher hinternal hnode with
    | work i item inbox w running idle next run eq =>
      rw [eq]
      exact h.work running idle next run
    | push i output outputs pending eq =>
      rw [eq]
      exact h.push pending
    | request id symbol symbols i next worker eq =>
      rw [eq]
      exact h.request next worker
    | publishes publishes => exact h.publishes publishes

/-- **Every interleaving.** -/
theorem run (h : p.Running pb) {actions : List Action} (hrun : p.run pb actions = some p') :
    p'.Running pb := by
  induction actions generalizing p with
  | nil => exact Option.some.inj hrun ▸ h
  | cons a actions ih =>
    obtain ⟨p₁, hstep, hrest⟩ := Option.bind_eq_some_iff.mp hrun
    exact ih (h.step hstep) hrest

end Running

/-- **The start.** -/
theorem running_make (pb : Protobuf) {partitions : ℕ} {instruments : List Instrument}
    {options : PublisherOptions} {address : String}
    (h : make partitions instruments options address = .ok p) : p.Running pb := by
  obtain ⟨node, hnode, rfl⟩ : ∃ node, EngineNode.make partitions instruments options = .ok node ∧
      ({ partitions, instruments, address, node } : Process) = p := by
    unfold make at h
    cases hnode : EngineNode.make partitions instruments options with
    | error e => rw [hnode] at h; cases h
    | ok node =>
      rw [hnode] at h
      exact ⟨node, rfl, Except.ok.inj h⟩
  obtain ⟨hlisted, hworker, hthreads, hworkerOf, hsymbols, hclosed, houtbox, hrequests⟩ :=
    EngineNode.setup_of_make hnode
  have hpublisher := (EngineNode.parts_of_make hnode).2.1
  obtain ⟨hwf, -, -, hrouted⟩ := Publisher.wf_make hpublisher
  have hpushed : node.pushed = [] := by
    unfold EngineNode.pushed
    rw [hrouted, houtbox]
    rfl
  -- Nothing has been started, so the invariants are about empty lists.
  constructor
  case listed => exact hlisted
  case publisher => exact hwf
  case closed =>
    show node.publisher.closed = true ↔ _ ∈ node.publisher.routed
    rw [hclosed, hrouted]
    exact ⟨fun hc => absurd hc Bool.false_ne_true, fun hc => absurd hc List.not_mem_nil⟩
  case symbolList => exact hsymbols
  case workerOf => exact hworkerOf
  case requests =>
    intro id symbol hmem
    have hmem : symbol ∈ node.requests id := hmem
    rw [hrequests] at hmem
    exact absurd hmem List.not_mem_nil
  case works =>
    intro i
    refine ⟨[], [], ?_, .serving rfl (hthreads i).2 (hthreads i).1, fun x hx => absurd hx List.not_mem_nil, rfl⟩
    show Serving (cfgsOf instruments i) (outputsOf _ node.pushed) [] (node.worker i)
    rw [hpushed, hworker]
    exact Serving.make _
  case known =>
    intro o ho
    have ho : o ∈ node.pushed := ho
    rw [hpushed] at ho
    exact absurd ho List.not_mem_nil
  case feeds => exact fun i t ht => by cases ht
  case feedsStopped => exact fun i hi => by cases hi
  case workersStopped => exact fun i hi => by cases hi
  case pill =>
    show _ ∉ node.pushed
    rw [hpushed]
    exact List.not_mem_nil
  case stopped => exact fun heq => by cases heq

end Process

end OrderBookEngine
