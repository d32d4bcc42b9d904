import OrderBookEngine.Properties.Running

/-!
# Every command is answered once

What a process publishes for a partition is what one sequential worker pushes for the commands of that
partition, in the order of the sequencer, whatever its threads do in between (`sequential`). So the replies
that have been published are to the first of the commands, one to each and in their order, and when the
process has stopped no command is left without its reply (`answered_once`).
-/

namespace OrderBookEngine

/-- A reply is to a command. -/
structure Answers (item : Stamped) (reply : Reply) : Prop where
  /-- The reply carries the id that the client gave. -/
  clientOrderId : reply.clientOrderId = item.command.clientOrderId
  /-- It is about the symbol of the command. -/
  symbol : item.command.symbol? = some reply.symbol
  /-- It is for the gateway that sent the command. -/
  gatewayId : reply.gatewayId = item.gatewayId
  /-- It is for the account of the command. -/
  accountId : reply.accountId = item.accountId
  /-- It has the order id of the command. -/
  orderId : reply.orderId = item.orderId

/-- The reply of an output, if it is one. -/
def Output.reply? : Output → Option Reply
  | reply r => some r
  | _ => none

/-- The replies of a stream of outputs, in order. -/
def repliesOf (outputs : List Output) : List Reply := outputs.filterMap Output.reply?

/-- The replies of two streams follow one another. -/
theorem repliesOf_append (outputs outputs' : List Output) :
    repliesOf (outputs ++ outputs') = repliesOf outputs ++ repliesOf outputs' := List.filterMap_append

namespace Worker

variable {cfgs : SymbolId → Option Config} {inbox : List Stamped} {item : Stamped} {symbol : SymbolId}
  {w w' : Worker} {b : Book} {last : ℤ}

/-- A command is replied to, and a request for a snapshot is not. -/
theorem repliesOf_outputs (hsymbol : item.command.symbol? = some symbol) (b : Book) (last : ℤ) :
    List.Forall₂ Answers (commandsOf [item]) (repliesOf (item.outputs symbol b last)) := by
  rcases Stamped.call_or_snapshot hsymbol with ⟨call, hcall, -⟩ | ⟨subscriber, hcommand⟩
  · rw [Stamped.outputs_of_call hsymbol hcall, repliesOf_append]
    have hevents : ∀ es : List EngineEvent,
        repliesOf (es.map fun e => .marketEvent (item.tag symbol e)) = [] := fun es => by
      refine List.filterMap_eq_nil_iff.mpr fun o ho => ?_
      obtain ⟨e, -, rfl⟩ := List.mem_map.mp ho
      rfl
    have hplain : commandsOf [item] = [item] :=
      List.filter_cons_of_pos (by simp [Stamped.isSnapshot_of_call? hcall])
    rw [hevents, hplain, List.nil_append]
    exact .cons ⟨rfl, hsymbol, rfl, rfl, rfl⟩ .nil
  · have hnone : commandsOf [item] = [] :=
      List.filter_cons_of_neg (by simp [hcommand, Command.isSnapshot])
    rw [Stamped.outputs_of_snapshot hcommand, hnone]
    exact List.Forall₂.nil

/-- A worker replies to each command of its inbox once, in inbox order. -/
theorem answers (howned : Owned cfgs inbox) (hrun : (make cfgs).run inbox = some w) :
    List.Forall₂ Answers (commandsOf inbox) (repliesOf w.outbox) := by
  obtain ⟨_, hrun', -, hanswers⟩ := serves
    (P := fun inbox w => List.Forall₂ Answers (commandsOf inbox) (repliesOf w.outbox)) .nil
    (fun htakes hanswers => by
      rw [htakes.outbox, repliesOf_append, commandsOf_append]
      exact List.rel_append hanswers (repliesOf_outputs htakes.symbol_eq _ _)) inbox howned
  obtain rfl := Option.some.inj (hrun'.symm.trans hrun)
  exact hanswers

/-- The books of the symbols show in what is pushed. -/
theorem eventsOf_run (howned : Owned cfgs inbox) (hrun : (make cfgs).run inbox = some w) {cfg : Config}
    (hcfg : cfgs symbol = some cfg) :
    eventsOf symbol w.outbox = ((Book.make cfg).run (callsFrom symbol 0 inbox)).events := by
  obtain ⟨_, hrun', -, hcarries⟩ := serves
    (P := fun inbox w => ∀ symbol cfg, cfgs symbol = some cfg →
      Carries symbol ((Book.make cfg).run (callsFrom symbol 0 inbox)) (outputsFor symbol w.outbox))
    (fun symbol cfg _ => Carries.make symbol cfg)
    (fun {inbox w item symbol cfg w'} htakes hcarries other cfg' hother => by
      have hbefore := hcarries other cfg' hother
      rw [htakes.outbox, outputsFor_append, callsFrom_concat, Book.run_append]
      -- The outputs of an item are those of its own symbol, and no other symbol has a call.
      by_cases heq : other = symbol
      · subst heq
        have hall : outputsFor other (outputsAfter cfg inbox item other) = outputsAfter cfg inbox item other :=
          List.filter_eq_self.mpr fun o ho => decide_eq_true (symbol_outputs htakes.symbol_eq _ _ o ho)
        rw [hall]
        obtain rfl := Option.some.inj (hother.symm.trans htakes.cfg_eq)
        exact hbefore.handle htakes.symbol_eq
      · have hnone : outputsFor other (outputsAfter cfg inbox item symbol) = [] :=
          List.filter_eq_nil_iff.mpr fun o ho he => heq (Option.some.inj
            ((of_decide_eq_true he).symm.trans (symbol_outputs htakes.symbol_eq _ _ o ho)))
        rw [hnone, List.append_nil, callOn_of_ne htakes.symbol_eq heq]
        exact hbefore)
    inbox howned
  obtain rfl := Option.some.inj (hrun'.symm.trans hrun)
  rw [← (hcarries symbol cfg hcfg).events, eventsOf_outputsFor]

end Worker

/-! ## In a process -/

namespace Process

variable {pb : Protobuf} {p : Process} {i : ℕ}

/-- What the publisher has taken for the symbols of a partition. -/
def published (p : Process) (i : ℕ) : List Output := outputsOf (p.cfgs i) p.node.publisher.routed

/-- No queue holds anything for a partition. -/
def Drained (p : Process) (i : ℕ) : Prop :=
  (p.node.threads i).inbox = [] ∧ (p.node.worker i).outbox = [] ∧ p.node.outbox = []

namespace Running

/-- Nothing is pushed behind the pill. -/
theorem pill_last (h : p.Running pb) {front back : List Output}
    (hpushed : p.node.pushed = front ++ .outboxClosed :: back) : back = [] := by
  have hpill := h.pill
  rw [hpushed] at hpill
  split_ifs at hpill
  · obtain ⟨before, hsplit, hbefore⟩ := hpill
    rcases List.eq_nil_or_concat back with hnone | ⟨rest, last, rfl⟩
    · exact hnone
    · rw [List.concat_eq_append, ← List.cons_append, ← List.append_assoc] at hsplit
      obtain ⟨rfl, -⟩ := List.append_inj' hsplit rfl
      exact absurd (List.mem_append_right _ List.mem_cons_self) hbefore
  · exact absurd (List.mem_append_right _ List.mem_cons_self) hpill

/-- When the process has stopped, all that was pushed has been taken. -/
theorem outbox_of_stopped (h : p.Running pb) (hstopped : p.phase = .stopped) : p.node.outbox = [] := by
  obtain ⟨front, back, hsplit⟩ := List.append_of_mem (h.closed.mp (h.stopped hstopped))
  have hpushed : p.node.pushed = front ++ .outboxClosed :: (back ++ p.node.outbox) := by
    rw [EngineNode.pushed, hsplit, List.append_assoc, List.cons_append]
  exact (List.append_eq_nil_iff.mp (h.pill_last hpushed)).2

/-- A partition hands over what the sequencer's commands stamp, and they are numbered in order. -/
theorem feed_of_partition (h : p.Running pb) (i : ℕ) :
    p.submitted i = (consumedOf (p.trace i)).filterMap (SequencerFeed.stamped pb) ∧
      (consumedOf (p.trace i)).map (·.seq) =
        (List.range (consumedOf (p.trace i)).length).map (SequencerFeed.seqAt (p.feedOptions i)) := by
  cases ht : p.feeds i with
  | none =>
    unfold submitted trace
    rw [ht]
    exact ⟨rfl, rfl⟩
  | some t =>
    obtain ⟨-, hkeeps, -⟩ := h.feeds i t ht
    unfold submitted trace
    rw [ht]
    exact ⟨hkeeps.submitted, hkeeps.numbered⟩

/-- A partition, as a sequential worker. -/
theorem asWorker (h : p.Running pb) (i : ℕ) :
    ∃ taken w, Worker.Owned (p.cfgs i) taken ∧ (Worker.make (p.cfgs i)).run taken = some w ∧
      commandsOf taken <+: p.submitted i ∧ p.published i <+: w.outbox ∧
      (p.phase = .stopped ∨ p.Drained i → commandsOf taken = p.submitted i ∧ p.published i = w.outbox) := by
  obtain ⟨_, _, hworks⟩ := h.works i
  obtain ⟨taken, w, htaken, howned, hrun, hshown, hall⟩ := hworks.attends.asWorker
  have hpublished : p.published i ++ outputsOf (p.cfgs i) p.node.outbox = outputsOf (p.cfgs i) p.node.pushed :=
    (outputsOf_append _ _ _).symm
  refine ⟨taken, w, howned, hrun, hworks.commands ▸ htaken.filter _,
    (hpublished ▸ List.prefix_append _ _).trans hshown, fun hdone => ?_⟩
  have hempty : p.node.outbox = [] := hdone.elim h.outbox_of_stopped fun hdrained => hdrained.2.2
  rw [hempty] at hpublished
  obtain ⟨rfl, hsame⟩ := hall (by
    rcases hdone with hstopped | ⟨hinbox, hidle, -⟩
    · by_cases hi : i < p.partitions
      · exact Or.inl (h.workersStopped i (by rw [hstopped]; exact decide_eq_true hi))
      · exact Or.inr (Or.inl (h.listed.cfgsOf_eq_none hi))
    · exact Or.inr (Or.inr ⟨hinbox, hidle⟩))
  exact ⟨hworks.commands, ((List.append_nil _).symm.trans hpublished).trans hsame⟩

end Running

/-- **One sequential worker a partition.** In every interleaving of its threads, what a process has
published for a partition is what one worker that takes the commands of the partition one by one pushes
for the first of them, snapshots at some places between; and for all of them, once the process has stopped
or has nothing queued. -/
theorem sequential (pb : Protobuf) (partitions : ℕ) (instruments : List Instrument)
    (options : PublisherOptions) (address : String) (p₀ : Process)
    (hmake : make partitions instruments options address = .ok p₀) (actions : List Action) (p : Process)
    (hrun : p₀.run pb actions = some p) (i : ℕ) :
    ∃ taken w, Worker.Owned (p.cfgs i) taken ∧ (Worker.make (p.cfgs i)).run taken = some w ∧
      commandsOf taken <+: p.submitted i ∧ p.published i <+: w.outbox ∧
      (p.phase = .stopped ∨ p.Drained i → commandsOf taken = p.submitted i ∧ p.published i = w.outbox) :=
  ((running_make pb hmake).run hrun).asWorker i

/-- Two orders are cancelled by a gateway that is not listening, and the process is stopped meanwhile. -/
def cancelsThenStop : List Action :=
  [.startFeed 0, .openStream 0, .read 0 (SequencerFeed.cancelAt 1), .node (.work 0),
   .read 0 (SequencerFeed.cancelAt 2), .node (.push 0), .main, .main, .node .route,
   .endStream 0 ⟨.cancelled, ""⟩, .main, .main, .main, .node (.work 0), .node (.push 0), .node (.work 0),
   .main, .main, .main, .node .route, .node .route, .main]

/-- The process submits both cancels and comes to a stop. -/
theorem run_cancelsThenStop :
    ∃ p₀ p, make 1 [{ id := 1, partition := 0, cfg := { poolCapacity := 4 } }] {} "sequencer" = .ok p₀ ∧
      p₀.run generated cancelsThenStop = some p ∧ p.phase = .stopped ∧ (p.submitted 0).length = 2 := by
  have hchain : ((make 1 [{ id := 1, partition := 0, cfg := { poolCapacity := 4 } }] {}
      "sequencer").toOption.bind fun p₀ => (p₀.run generated cancelsThenStop).map fun p =>
        (p.phase, (p.submitted 0).length)) = some (.stopped, 2) := by decide +kernel
  obtain ⟨p₀, hmake, hchain⟩ := Option.bind_eq_some_iff.mp hchain
  obtain ⟨p, hrun, hlast⟩ := Option.map_eq_some_iff.mp hchain
  obtain ⟨hphase, hsubmitted⟩ := Prod.mk.inj hlast
  exact ⟨p₀, p, EngineNode.ok_of_toOption hmake, hrun, hphase, hsubmitted⟩

/-- Both commands have been taken, though the second was not before the process was told to stop. -/
theorem sequential_when_stopped :
    ∃ p₀ p taken w, make 1 [{ id := 1, partition := 0, cfg := { poolCapacity := 4 } }] {} "sequencer" =
        .ok p₀ ∧
      p₀.run generated cancelsThenStop = some p ∧ (Worker.make (p.cfgs 0)).run taken = some w ∧
      (commandsOf taken).length = 2 ∧ p.published 0 = w.outbox := by
  obtain ⟨p₀, p, hmake, hrun, hphase, hsubmitted⟩ := run_cancelsThenStop
  obtain ⟨taken, w, -, hw, -, -, hdone⟩ := sequential generated _ _ _ _ p₀ hmake cancelsThenStop p hrun 0
  obtain ⟨htaken, hpublished⟩ := hdone (Or.inl hphase)
  exact ⟨p₀, p, taken, w, hmake, hrun, hw, by rw [htaken, hsubmitted], hpublished⟩

/-- **Every command is answered once.** In every interleaving: what a feed submits are the commands that it
has consumed, numbered from 1, but for those that do not decode. The replies published for the partition
answer the first of these, one each and in their order, and all of them once the process has stopped or
has nothing queued. No other reply is published. -/
theorem answered_once (pb : Protobuf) (partitions : ℕ) (instruments : List Instrument)
    (options : PublisherOptions) (address : String) (p₀ : Process)
    (hmake : make partitions instruments options address = .ok p₀) (actions : List Action) (p : Process)
    (hrun : p₀.run pb actions = some p) :
    (∀ i, p.submitted i = (consumedOf (p.trace i)).filterMap (SequencerFeed.stamped pb) ∧
      (consumedOf (p.trace i)).map (·.seq) =
        (List.range (consumedOf (p.trace i)).length).map (1 + UInt64.ofNat ·)) ∧
    (∀ i, ∃ answered, answered <+: p.submitted i ∧
      List.Forall₂ Answers answered (repliesOf (p.published i)) ∧
      (p.phase = .stopped ∨ p.Drained i → answered = p.submitted i)) ∧
    ∀ reply ∈ repliesOf p.node.publisher.routed, ∃ i, reply ∈ repliesOf (p.published i) := by
  have h := (running_make pb hmake).run hrun
  refine ⟨h.feed_of_partition, fun i => ?_, fun reply hreply => ?_⟩
  · obtain ⟨taken, w, howned, hw, htaken, ⟨rest, hrest⟩, hdone⟩ := h.asWorker i
    have hanswers := Worker.answers howned hw
    -- What has been published is the first part of what the worker outputs, and so are its replies.
    have hfirst := hanswers
    rw [← hrest, repliesOf_append] at hfirst
    refine ⟨_, (List.take_prefix _ _).trans htaken, List.forall₂_take_append _ _ _ hfirst, fun hstop => ?_⟩
    obtain ⟨hall, hsame⟩ := hdone hstop
    rw [hsame, ← hanswers.length_eq, List.take_length, hall]
  · obtain ⟨o, ho, hsome⟩ := List.mem_filterMap.mp hreply
    have hpushed : o ∈ p.node.pushed := List.mem_append_left _ ho
    rcases h.known o hpushed with rfl | ⟨i, hi⟩
    · cases hsome
    · exact ⟨i, List.mem_filterMap.mpr ⟨o, List.mem_filter.mpr ⟨ho, hi⟩, hsome⟩⟩

/-- Nobody has read the two replies, and nevertheless they have been given. -/
theorem answered_once_when_stopped :
    ∃ p₀ p, make 1 [{ id := 1, partition := 0, cfg := { poolCapacity := 4 } }] {} "sequencer" = .ok p₀ ∧
      p₀.run generated cancelsThenStop = some p ∧ (repliesOf (p.published 0)).length = 2 := by
  obtain ⟨p₀, p, hmake, hrun, hphase, hsubmitted⟩ := run_cancelsThenStop
  obtain ⟨-, hanswered, -⟩ := answered_once generated _ _ _ _ p₀ hmake cancelsThenStop p hrun
  obtain ⟨answered, -, hanswers, hall⟩ := hanswered 0
  rw [hall (Or.inl hphase)] at hanswers
  exact ⟨p₀, p, hmake, hrun, hanswers.length_eq.symm.trans hsubmitted⟩

end Process

end OrderBookEngine
