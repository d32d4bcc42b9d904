import Mathlib.Data.List.DropRight
import OrderBookEngine.Server.Generated
import OrderBookEngine.Server.SequencerFeed

/-!
# The hand-over from the sequencer

The commands that a feed has consumed, in all its streams, are numbered on from the first that it was to
ask for, and what it has handed to the worker is those of them that decode (`Keeps`). Sequence numbers
have 64 bits, so the numbers grow as long as they do not wrap.
-/

namespace OrderBookEngine

namespace FeedStep

/-- The command of a step that consumes one. -/
def command? : FeedStep → Option SequencedCommand
  | consumed command => some command
  | _ => none

/-- Whether a step asks the sequencer for a stream. -/
def isAsked : FeedStep → Bool
  | asked _ => true
  | _ => false

end FeedStep

/-- The commands that have been consumed. -/
def consumedOf (trace : List FeedStep) : List SequencedCommand := trace.filterMap FeedStep.command?

/-- The refusals since a command was last consumed or a stream ended otherwise. -/
def refusals (trace : List FeedStep) : ℕ :=
  ((trace.filter fun step => !step.isAsked).rtakeWhile fun step => step = .refused).length

/-- One more step consumes its command, if it has one. -/
theorem consumedOf_concat (trace : List FeedStep) (step : FeedStep) :
    consumedOf (trace ++ [step]) = consumedOf trace ++ step.command?.toList := by
  unfold consumedOf
  rw [List.filterMap_append]
  cases h : step.command? <;> simp [h]

/-- One more step is a refusal, a request that leaves their count, or one that ends the row. -/
theorem refusals_concat (trace : List FeedStep) (step : FeedStep) :
    refusals (trace ++ [step]) =
      match step with
      | .asked _ => refusals trace
      | .refused => refusals trace + 1
      | _ => 0 := by
  unfold refusals
  rw [List.filter_append]
  -- Requests are left out of the count, and a command or a retry ends the row of refusals.
  cases step with
  | asked seq => rw [List.filter_cons_of_neg (by simp [FeedStep.isAsked]), List.filter_nil, List.append_nil]
  | refused =>
    rw [List.filter_cons_of_pos (by simp [FeedStep.isAsked]), List.filter_nil,
      List.rtakeWhile_concat_pos _ _ _ (by simp), List.length_append]
    rfl
  | consumed command =>
    rw [List.filter_cons_of_pos (by simp [FeedStep.isAsked]), List.filter_nil,
      List.rtakeWhile_concat_neg _ _ _ (by simp)]
    rfl
  | retried =>
    rw [List.filter_cons_of_pos (by simp [FeedStep.isAsked]), List.filter_nil,
      List.rtakeWhile_concat_neg _ _ _ (by simp)]
    rfl

namespace SequencerFeed

variable {pb : Protobuf} {f : SequencerFeed} {command : SequencedCommand} {failure : FeedFailure}
  {options : FeedOptions} {owned : List SymbolId}

/-! ## The invariant -/

/-- The sequence number of a command, from how many came before it. -/
def seqAt (options : FeedOptions) (n : ℕ) : UInt64 := options.fromSeq + .ofNat n

/-- What holds of a feed, whatever the sequencer does. -/
structure Keeps (pb : Protobuf) (options : FeedOptions) (owned : List SymbolId) (f : SequencerFeed) :
    Prop where
  /-- The options stay. -/
  options_eq : f.options = options
  /-- The symbols stay. -/
  owned_eq : f.owned = owned
  /-- The next number is the one after the commands consumed. -/
  next : f.last + 1 = seqAt options (consumedOf f.trace).length
  /-- The commands consumed are numbered in order. -/
  numbered : (consumedOf f.trace).map (·.seq) =
    (List.range (consumedOf f.trace).length).map (seqAt options)
  /-- They are for symbols of the partition. -/
  mine : ∀ command ∈ consumedOf f.trace, command.symbol ∈ owned
  /-- What is submitted is what they stamp. -/
  submitted : f.submitted = (consumedOf f.trace).filterMap (stamped pb)
  /-- Every request asked for the number that was next then. -/
  asked : ∀ before seq after, f.trace = before ++ .asked seq :: after →
    seq = seqAt options (consumedOf before).length
  /-- The refusals in a row are counted. -/
  retries : f.alreadyExistsRetries = refusals f.trace
  /-- The feed gave up exactly when it was refused too often. -/
  gaveUp : f.failure = some .anotherSubscriber ↔
    0 < refusals f.trace ∧ options.maxAlreadyExistsRetries < refusals f.trace

/-- What holds at every request so far and at a new one holds at all of them. -/
theorem asked_concat {trace : List FeedStep} {step : FeedStep} {P : List FeedStep → UInt64 → Prop}
    (h : ∀ before seq after, trace = before ++ .asked seq :: after → P before seq)
    (hstep : ∀ seq, step = .asked seq → P trace seq) :
    ∀ before seq after, trace ++ [step] = before ++ .asked seq :: after → P before seq := by
  intro before seq after heq
  rcases List.eq_nil_or_concat after with rfl | ⟨after, last, rfl⟩
  · obtain ⟨rfl, hlast⟩ := List.append_inj' heq rfl
    exact hstep seq (List.cons.inj hlast).1
  · rw [List.concat_eq_append, ← List.cons_append, ← List.append_assoc] at heq
    exact h before seq after (List.append_inj' heq rfl).1

/-- The number after the next one. -/
theorem seqAt_succ (options : FeedOptions) (n : ℕ) : seqAt options n + 1 = seqAt options (n + 1) := by
  unfold seqAt
  rw [UInt64.ofNat_add, UInt64.add_assoc]
  rfl

/-- What is only logged, or returned, is of no account. -/
theorem Keeps.congr {f' : SequencerFeed} (h : Keeps pb options owned f) (hoptions : f'.options = f.options)
    (howned : f'.owned = f.owned) (hlast : f'.last = f.last)
    (hretries : f'.alreadyExistsRetries = f.alreadyExistsRetries) (hfailure : f'.failure = f.failure)
    (hsubmitted : f'.submitted = f.submitted) (htrace : f'.trace = f.trace) :
    Keeps pb options owned f' := by
  constructor
  case options_eq => rw [hoptions]; exact h.options_eq
  case owned_eq => rw [howned]; exact h.owned_eq
  case next => rw [hlast, htrace]; exact h.next
  case numbered => rw [htrace]; exact h.numbered
  case mine => rw [htrace]; exact h.mine
  case submitted => rw [hsubmitted, htrace]; exact h.submitted
  case asked => rw [htrace]; exact h.asked
  case retries => rw [hretries, htrace]; exact h.retries
  case gaveUp => rw [hfailure, htrace]; exact h.gaveUp

/-- A return keeps the record. -/
theorem Keeps.return_ (h : Keeps pb options owned f) : Keeps pb options owned f.return_ :=
  h.congr rfl rfl rfl rfl rfl rfl rfl

/-- A message that is logged keeps the record. -/
theorem Keeps.log (h : Keeps pb options owned f) (message : String) :
    Keeps pb options owned (f.log message) := h.congr rfl rfl rfl rfl rfl rfl rfl

/-- A running feed fails for another reason than the refusals. -/
theorem Keeps.fail (h : Keeps pb options owned f) (hrunning : f.failure = none)
    (hother : failure ≠ .anotherSubscriber) : Keeps pb options owned (f.fail failure) := by
  have hfew := h.gaveUp.not.mp (by rw [hrunning]; simp)
  exact { h with gaveUp := iff_of_false (fun he => hother (Option.some.inj he)) hfew }

/-- A command that is as expected is consumed. -/
theorem Keeps.consume (h : Keeps pb options owned f) (hrunning : f.failure = none)
    (hseq : command.seq = f.last + 1) (hsymbol : command.symbol ∈ owned) :
    Keeps pb options owned
      ({ f with submitted := f.submitted ++ (stamped pb command).toList }.consume command) := by
  have hconsumed : consumedOf (f.trace ++ [.consumed command]) = consumedOf f.trace ++ [command] :=
    consumedOf_concat _ _
  have hrefusals : refusals (f.trace ++ [.consumed command]) = 0 := refusals_concat _ _
  -- The command has the number that comes next.
  have hat : command.seq = seqAt options (consumedOf f.trace).length := hseq.trans h.next
  have hlast : (SequencerFeed.consume { f with submitted := f.submitted ++ (stamped pb command).toList }
      command).last = command.seq := rfl
  have htrace : (SequencerFeed.consume { f with submitted := f.submitted ++ (stamped pb command).toList }
      command).trace = f.trace ++ [.consumed command] := rfl
  constructor
  case options_eq => exact h.options_eq
  case owned_eq => exact h.owned_eq
  case next =>
    rw [hlast, htrace, hconsumed, hat, seqAt_succ, List.length_append, List.length_singleton]
  case numbered =>
    show (consumedOf (f.trace ++ [.consumed command])).map (·.seq) =
      (List.range (consumedOf (f.trace ++ [.consumed command])).length).map (seqAt options)
    rw [hconsumed, List.length_append, List.length_singleton, List.range_succ, List.map_append,
      List.map_append, h.numbered, List.map_singleton, List.map_singleton, hat]
  case mine =>
    show ∀ c ∈ consumedOf (f.trace ++ [.consumed command]), c.symbol ∈ owned
    rw [hconsumed]
    intro c hc
    rcases List.mem_append.mp hc with hold | hnew
    · exact h.mine c hold
    · rw [List.mem_singleton.mp hnew]
      exact hsymbol
  case submitted =>
    show f.submitted ++ (stamped pb command).toList =
      (consumedOf (f.trace ++ [.consumed command])).filterMap (stamped pb)
    rw [hconsumed, List.filterMap_append, h.submitted]
    cases hstamped : stamped pb command <;> simp [hstamped]
  case asked => exact asked_concat h.asked fun seq hstep => by cases hstep
  case retries =>
    show (0 : ℤ) = refusals (f.trace ++ [.consumed command])
    rw [hrefusals]
    rfl
  case gaveUp =>
    show f.failure = _ ↔ 0 < refusals (f.trace ++ [.consumed command]) ∧ _
    rw [hrefusals, hrunning]
    exact iff_of_false (by simp) fun hpos => absurd hpos.1 (lt_irrefl 0)

/-- A command received keeps the record. -/
theorem Keeps.receive (h : Keeps pb options owned f) (hrunning : f.failure = none) :
    Keeps pb options owned (f.receive pb command) := by
  unfold SequencerFeed.receive
  simp only
  split_ifs with hgap howner
  · exact h.fail hrunning (by simp)
  · rw [h.owned_eq] at howner
    have hseq := not_not.mp hgap
    cases hstamped : stamped pb command with
    | none =>
      have hsame : f.submitted ++ (stamped pb command).toList = f.submitted := by
        rw [hstamped]
        exact List.append_nil _
      exact (h.consume hrunning hseq howner).congr rfl rfl rfl rfl rfl hsame.symm rfl
    | some item =>
      have hconsumed := h.consume hrunning hseq howner
      rw [hstamped] at hconsumed
      exact hconsumed
  · exact h.fail hrunning (by simp)

/-- So do the commands of a whole stream. -/
theorem Keeps.readAll (h : Keeps pb options owned f) (hrunning : f.failure = none)
    (commands : List SequencedCommand) : Keeps pb options owned (f.readAll pb commands) := by
  induction commands generalizing f with
  | nil => exact h
  | cons command commands ih =>
    have hreceive := @Keeps.receive pb f command options owned h hrunning
    unfold SequencerFeed.readAll
    simp only
    split_ifs with hfailed
    · exact hreceive
    · exact ih hreceive (Option.not_isSome_iff_eq_none.mp hfailed)

/-- A step that consumes nothing, and asks for what comes next if it asks. -/
theorem Keeps.note (h : Keeps pb options owned f) {step : FeedStep} {retries : ℤ}
    {failure : Option FeedFailure} (hnone : step.command? = none)
    (hasked : ∀ seq, step = .asked seq → seq = f.last + 1)
    (hretries : retries = refusals (f.trace ++ [step]))
    (hgaveUp : failure = some .anotherSubscriber ↔ 0 < refusals (f.trace ++ [step]) ∧
      options.maxAlreadyExistsRetries < refusals (f.trace ++ [step])) :
    Keeps pb options owned ({ f with alreadyExistsRetries := retries, failure }.note step) := by
  -- The step consumes nothing, so what has been consumed is the same.
  have hconsumed : consumedOf (f.trace ++ [step]) = consumedOf f.trace := by
    rw [consumedOf_concat, hnone]
    exact List.append_nil _
  constructor
  case options_eq => exact h.options_eq
  case owned_eq => exact h.owned_eq
  case next =>
    show f.last + 1 = seqAt options (consumedOf (f.trace ++ [step])).length
    rw [hconsumed]
    exact h.next
  case numbered =>
    show (consumedOf (f.trace ++ [step])).map (·.seq) =
      (List.range (consumedOf (f.trace ++ [step])).length).map (seqAt options)
    rw [hconsumed]
    exact h.numbered
  case mine =>
    show ∀ c ∈ consumedOf (f.trace ++ [step]), c.symbol ∈ owned
    rw [hconsumed]
    exact h.mine
  case submitted =>
    show f.submitted = (consumedOf (f.trace ++ [step])).filterMap (stamped pb)
    rw [hconsumed]
    exact h.submitted
  case asked => exact asked_concat h.asked fun seq hstep => (hasked seq hstep).trans h.next
  case retries => exact hretries
  case gaveUp => exact hgaveUp

/-- A request keeps the record, and does not fail. -/
theorem Keeps.ask (h : Keeps pb options owned f) (hrunning : f.failure = none) :
    Keeps pb options owned f.ask ∧ f.ask.failure = none := by
  have hsame : refusals (f.trace ++ [.asked (f.last + 1)]) = refusals f.trace := refusals_concat _ _
  have hnoted := @Keeps.note pb f options owned h (.asked (f.last + 1)) _ _ rfl
    (fun seq hstep => (FeedStep.asked.inj hstep).symm) (h.retries.trans (congrArg Nat.cast hsame.symm)) (hsame.symm ▸ h.gaveUp)
  exact ⟨hnoted, hrunning⟩

/-- A refusal counts one more, and is the last if there are too many. -/
theorem Keeps.refuse (h : Keeps pb options owned f) {failure : Option FeedFailure}
    (hfailure : failure = some .anotherSubscriber ↔
      options.maxAlreadyExistsRetries < f.alreadyExistsRetries + 1) :
    Keeps pb options owned
      ({ f with alreadyExistsRetries := f.alreadyExistsRetries + 1, failure }.note .refused) := by
  have hmore : refusals (f.trace ++ [.refused]) = refusals f.trace + 1 := refusals_concat _ _
  have hcount : f.alreadyExistsRetries + 1 = refusals (f.trace ++ [.refused]) := by
    rw [h.retries, hmore]
    rfl
  refine h.note rfl (fun seq hstep => by cases hstep) hcount ?_
  rw [hfailure, hcount]
  exact (and_iff_right (hmore ▸ Nat.succ_pos _)).symm

/-- Another end of a stream starts the count again. -/
theorem Keeps.retry (h : Keeps pb options owned f) (hrunning : f.failure = none) :
    Keeps pb options owned ({ f with alreadyExistsRetries := 0 }.note .retried) := by
  have hzero : refusals (f.trace ++ [.retried]) = 0 := refusals_concat _ _
  refine @Keeps.note pb f options owned h _ _ f.failure rfl (fun seq hstep => by cases hstep)
    (by rw [hzero]; rfl) ?_
  rw [hzero, hrunning]
  exact iff_of_false (by simp) fun hpos => absurd hpos.1 (lt_irrefl 0)

/-- A refusal that may be tried again keeps the record. -/
theorem keeps_refused (h : Keeps pb options owned f) (hfailed : ¬ f.failed = true)
    (hfew : ¬ f.alreadyExistsRetries + 1 > f.options.maxAlreadyExistsRetries) :
    Keeps pb options owned
      ({ f with alreadyExistsRetries := f.alreadyExistsRetries + 1 }.note .refused) := by
  have hnone : f.failure = none := Option.not_isSome_iff_eq_none.mp hfailed
  rw [h.options_eq] at hfew
  exact h.refuse (iff_of_false (by rw [hnone]; simp) hfew)

/-- What follows a stream. If the feed has failed, the thread has returned. -/
theorem Keeps.finish (h : Keeps pb options owned f) (attempt : Attempt) :
    Keeps pb options owned (f.finish attempt) ∧
      ((f.finish attempt).failed = true → (f.finish attempt).returned = true) := by
  unfold SequencerFeed.finish
  simp only
  split_ifs with hfailed hstopped hrange hconfig hexists hmany hwait hwait
  · exact ⟨h.return_, fun _ => rfl⟩
  · exact ⟨h.return_, fun _ => rfl⟩
  · exact ⟨(h.fail (Option.not_isSome_iff_eq_none.mp hfailed) (by simp)).return_, fun _ => rfl⟩
  · exact ⟨(h.fail (Option.not_isSome_iff_eq_none.mp hfailed) (by simp)).return_, fun _ => rfl⟩
  · have hmany' : options.maxAlreadyExistsRetries < f.alreadyExistsRetries + 1 := h.options_eq ▸ hmany
    have hlast := @Keeps.refuse pb f options owned h (some .anotherSubscriber) (iff_of_true rfl hmany')
    exact ⟨hlast.congr rfl rfl rfl rfl rfl rfl rfl, fun _ => rfl⟩
  · exact ⟨((keeps_refused h hfailed hmany).log _).return_, fun _ => rfl⟩
  · exact ⟨(keeps_refused h hfailed hmany).log _, fun hf => absurd hf hfailed⟩
  · exact ⟨((h.retry (Option.not_isSome_iff_eq_none.mp hfailed)).log _).return_, fun _ => rfl⟩
  · exact ⟨(h.retry (Option.not_isSome_iff_eq_none.mp hfailed)).log _, fun hf => absurd hf hfailed⟩

/-- A feed whose thread has returned if it has failed. -/
theorem Keeps.attempt (h : Keeps pb options owned f) (hstop : f.failed = true → f.returned = true)
    (attempt : Attempt) : Keeps pb options owned (f.attempt pb attempt) ∧
      ((f.attempt pb attempt).failed = true → (f.attempt pb attempt).returned = true) := by
  unfold SequencerFeed.attempt
  split_ifs with hreturned hstopping
  · exact ⟨h, hstop⟩
  · exact ⟨h.return_, fun _ => rfl⟩
  · have hrunning : f.failure = none := by
      rw [Bool.or_eq_true, not_or] at hstopping
      exact Option.not_isSome_iff_eq_none.mp hstopping.2
    obtain ⟨hasked, hrunning'⟩ := h.ask hrunning
    exact (hasked.readAll hrunning' attempt.messages).finish attempt

/-- A list of attempts keeps the record, and a feed that has failed has returned. -/
theorem Keeps.run (h : Keeps pb options owned f) (hstop : f.failed = true → f.returned = true)
    (attempts : List Attempt) : Keeps pb options owned (f.run pb attempts) ∧
      ((f.run pb attempts).failed = true → (f.run pb attempts).returned = true) := by
  induction attempts generalizing f with
  | nil => exact ⟨h, hstop⟩
  | cons attempt attempts ih =>
    obtain ⟨hkeeps, hstop'⟩ := h.attempt hstop attempt
    exact ih hkeeps hstop'

/-! ## Failing is for good -/

/-- A feed that has returned makes no further attempt. -/
theorem run_of_returned (h : f.returned = true) (attempts : List Attempt) : f.run pb attempts = f := by
  induction attempts with
  | nil => rfl
  | cons attempt attempts ih =>
    unfold SequencerFeed.run at ih ⊢
    have hstay : f.attempt pb attempt = f := if_pos h
    rw [List.foldl_cons, hstay]
    exact ih

/-- Messages behind the one that the feed fails at are not looked at. -/
theorem readAll_append (f : SequencerFeed) (commands more : List SequencedCommand)
    (hrunning : f.failed = false) (h : (f.readAll pb commands).failed = true) :
    f.readAll pb (commands ++ more) = f.readAll pb commands := by
  induction commands generalizing f with
  | nil =>
    rw [SequencerFeed.readAll, hrunning] at h
    cases h
  | cons command commands ih =>
    rw [List.cons_append]
    unfold SequencerFeed.readAll at h ⊢
    simp only at h ⊢
    split_ifs at h ⊢ with hfailed
    · rfl
    · exact ih _ (Bool.not_eq_true _ ▸ hfailed) h

/-! ## What is consumed has been sent -/

/-- At most the command received is consumed. -/
theorem consumedOf_receive (f : SequencerFeed) (command : SequencedCommand) :
    ∃ commands, commands.Sublist [command] ∧
      consumedOf (f.receive pb command).trace = consumedOf f.trace ++ commands := by
  have hconsumed : consumedOf (f.trace ++ [.consumed command]) = consumedOf f.trace ++ [command] :=
    consumedOf_concat _ _
  unfold SequencerFeed.receive
  simp only
  split_ifs
  · exact ⟨[], List.nil_sublist _, (List.append_nil _).symm⟩
  · cases stamped pb command with
    | none => exact ⟨[command], List.Sublist.refl _, hconsumed⟩
    | some item => exact ⟨[command], List.Sublist.refl _, hconsumed⟩
  · exact ⟨[], List.nil_sublist _, (List.append_nil _).symm⟩

/-- Only commands of the stream are consumed. -/
theorem consumedOf_readAll (f : SequencerFeed) (messages : List SequencedCommand) :
    ∃ commands, commands.Sublist messages ∧
      consumedOf (f.readAll pb messages).trace = consumedOf f.trace ++ commands := by
  induction messages generalizing f with
  | nil => exact ⟨[], List.Sublist.refl _, (List.append_nil _).symm⟩
  | cons message messages ih =>
    obtain ⟨first, hfirst, hreceive⟩ := @consumedOf_receive pb f message
    unfold SequencerFeed.readAll
    simp only
    split_ifs
    · exact ⟨first, hfirst.trans (List.singleton_sublist.mpr List.mem_cons_self), hreceive⟩
    · obtain ⟨rest, hrest, hread⟩ := ih (f.receive pb message)
      refine ⟨first ++ rest, hfirst.append hrest, ?_⟩
      rw [hread, hreceive, List.append_assoc]

/-- The end of an attempt consumes nothing. -/
theorem consumedOf_finish (f : SequencerFeed) (attempt : Attempt) :
    consumedOf (f.finish attempt).trace = consumedOf f.trace := by
  have hnone : ∀ step, FeedStep.command? step = none →
      consumedOf (f.trace ++ [step]) = consumedOf f.trace := by
    intro step hstep
    rw [consumedOf_concat, hstep]
    exact List.append_nil _
  unfold SequencerFeed.finish
  simp only
  split_ifs
  · rfl
  · rfl
  · rfl
  · rfl
  · exact hnone .refused rfl
  · exact hnone .refused rfl
  · exact hnone .refused rfl
  · exact hnone .retried rfl
  · exact hnone .retried rfl

/-- Only commands of the attempts are consumed. -/
theorem consumedOf_run (f : SequencerFeed) (attempts : List Attempt) :
    ∃ commands, commands.Sublist (attempts.flatMap (·.messages)) ∧
      consumedOf (f.run pb attempts).trace = consumedOf f.trace ++ commands := by
  induction attempts generalizing f with
  | nil => exact ⟨[], List.Sublist.refl _, (List.append_nil _).symm⟩
  | cons attempt attempts ih =>
    have hfirst : ∃ commands, commands.Sublist attempt.messages ∧
        consumedOf (f.attempt pb attempt).trace = consumedOf f.trace ++ commands := by
      unfold SequencerFeed.attempt
      split_ifs
      · exact ⟨[], List.nil_sublist _, (List.append_nil _).symm⟩
      · exact ⟨[], List.nil_sublist _, (List.append_nil _).symm⟩
      · obtain ⟨commands, hsent, hread⟩ := @consumedOf_readAll pb f.ask attempt.messages
        have hask : consumedOf f.ask.trace = consumedOf f.trace :=
          (consumedOf_concat _ _).trans (List.append_nil _)
        exact ⟨commands, hsent, by rw [consumedOf_finish, hread, hask]⟩
    obtain ⟨first, hsent, hattempt⟩ := hfirst
    obtain ⟨rest, hsent', hrun⟩ := ih (f.attempt pb attempt)
    refine ⟨first ++ rest, hsent.append hsent', ?_⟩
    unfold SequencerFeed.run at hrun ⊢
    rw [List.foldl_cons, hrun, hattempt, List.append_assoc]

/-! ## Without a wrap -/

/-- Short of the wrap, the numbers count up from the first. -/
theorem toNat_seqAt {n k : ℕ} (hk : k < n) (hfits : options.fromSeq.toNat + n ≤ 2 ^ 64) :
    (seqAt options k).toNat = options.fromSeq.toNat + k := by
  unfold seqAt
  rw [UInt64.toNat_add, UInt64.toNat_ofNat']
  omega

/-- What is handed over keeps the order and the numbers of what is consumed. -/
theorem seqs_sublist (commands : List SequencedCommand) :
    ((commands.filterMap (stamped pb)).map Stamped.seq).Sublist (commands.map (·.seq.toNat)) := by
  induction commands with
  | nil => exact List.Sublist.refl _
  | cons command commands ih =>
    cases hstamped : stamped pb command with
    | none =>
      rw [List.filterMap_cons_none hstamped, List.map_cons]
      exact ih.cons _
    | some item =>
      have hseq : item.seq = command.seq.toNat := by
        obtain ⟨decoded, -, rfl⟩ := Option.map_eq_some_iff.mp hstamped
        rfl
      rw [List.filterMap_cons_some hstamped, List.map_cons, List.map_cons, hseq]
      exact ih.cons_cons _

/-- Short of the wrap, the commands are numbered one after another, and what is submitted is in order. -/
theorem Keeps.in_order (h : Keeps pb options owned f)
    (hfits : options.fromSeq.toNat + (consumedOf f.trace).length ≤ 2 ^ 64) (hfrom : options.fromSeq ≠ 0) :
    (consumedOf f.trace).map (·.seq.toNat) =
        List.range' options.fromSeq.toNat (consumedOf f.trace).length ∧
      f.last.toNat + 1 = options.fromSeq.toNat + (consumedOf f.trace).length ∧
      (f.submitted.map Stamped.seq).Pairwise (· < ·) := by
  -- As long as the counter does not come round, the numbers are consecutive.
  have hnumbers : (consumedOf f.trace).map (·.seq.toNat) =
      List.range' options.fromSeq.toNat (consumedOf f.trace).length := by
    calc (consumedOf f.trace).map (·.seq.toNat)
        = ((consumedOf f.trace).map (·.seq)).map UInt64.toNat := by
          rw [List.map_map]
          rfl
      _ = (List.range (consumedOf f.trace).length).map (fun k => (seqAt options k).toNat) := by
          rw [h.numbered, List.map_map]
          rfl
      _ = (List.range (consumedOf f.trace).length).map (options.fromSeq.toNat + ·) :=
          List.map_congr_left fun k hk => toNat_seqAt (List.mem_range.mp hk) hfits
      _ = List.range' options.fromSeq.toNat (consumedOf f.trace).length :=
          (List.range'_eq_map_range ..).symm
  refine ⟨hnumbers, ?_, ?_⟩
  · have hnext := congrArg UInt64.toNat h.next
    have hpos : 0 < options.fromSeq.toNat := by
      rw [Nat.pos_iff_ne_zero]
      exact fun hzero => hfrom (UInt64.toNat_inj.mp hzero)
    have hlast := f.last.toNat_lt
    unfold seqAt at hnext
    rw [UInt64.toNat_add, UInt64.toNat_add, UInt64.toNat_ofNat', UInt64.toNat_one] at hnext
    omega
  · rw [h.submitted]
    refine List.Pairwise.sublist (seqs_sublist _) ?_
    rw [hnumbers]
    exact List.pairwise_lt_range'

/-! ## The hand-over -/

/-- A new feed keeps the record, and has consumed nothing. -/
theorem keeps_make (h : make owned options = .ok f) : Keeps pb options owned f ∧ f.failure = none ∧
    options.fromSeq ≠ 0 ∧ consumedOf f.trace = [] := by
  unfold make at h
  split_ifs at h with haddress hfrom
  obtain rfl := Except.ok.inj h
  refine ⟨?_, rfl, hfrom, rfl⟩
  constructor
  case options_eq => rfl
  case owned_eq => rfl
  case next =>
    show options.fromSeq - 1 + 1 = options.fromSeq + 0
    rw [UInt64.sub_add_cancel, UInt64.add_zero]
  case numbered => rfl
  case mine => exact fun command hcommand => by cases hcommand
  case submitted => rfl
  case asked => exact fun before seq after heq => by cases before <;> cases heq
  case retries => rfl
  case gaveUp => exact iff_of_false (by simp) fun hpos => absurd hpos.1 (lt_irrefl 0)

/-- **The hand-over.** Whatever the streams are and however they end: the commands consumed were sent, in
this order, carry symbols of the worker, and are numbered on from the first that was to be asked for; each
is handed to the worker once, unless it does not decode; every stream is asked for from the next number.
The numbers grow until they wrap. A feed that has failed does nothing more, and it gives up on refusals
exactly when there have been more of them than allowed. -/
theorem hand_over (pb : Protobuf) (owned : List SymbolId) (options : FeedOptions) (f₀ : SequencerFeed)
    (hmake : make owned options = .ok f₀) (attempts : List Attempt) :
    let f := f₀.run pb attempts
    let consumed := consumedOf f.trace
    (consumed.Sublist (attempts.flatMap (·.messages)) ∧ (∀ command ∈ consumed, command.symbol ∈ owned) ∧
      consumed.map (·.seq) = (List.range consumed.length).map (seqAt options) ∧
      f.last + 1 = seqAt options consumed.length ∧ f.submitted = consumed.filterMap (stamped pb)) ∧
    (∀ before seq after, f.trace = before ++ .asked seq :: after →
      seq = seqAt options (consumedOf before).length) ∧
    (options.fromSeq.toNat + consumed.length ≤ 2 ^ 64 →
      consumed.map (·.seq.toNat) = List.range' options.fromSeq.toNat consumed.length ∧
      f.last.toNat + 1 = options.fromSeq.toNat + consumed.length ∧
      (f.submitted.map Stamped.seq).Pairwise (· < ·)) ∧
    ((f.failed = true → ∀ more, f.run pb more = f) ∧
      (f.failed = false → ∀ commands more, (f.ask.readAll pb commands).failed = true →
        f.ask.readAll pb (commands ++ more) = f.ask.readAll pb commands)) ∧
    (f.failure = some .anotherSubscriber ↔
      0 < refusals f.trace ∧ options.maxAlreadyExistsRetries < refusals f.trace) := by
  intro f consumed
  obtain ⟨hkeeps₀, hrunning, hfrom, hnone⟩ := @keeps_make pb f₀ options owned hmake
  -- A feed that has not begun has not failed.
  have hstop₀ : f₀.failed = true → f₀.returned = true := fun hfailed => by
    unfold failed at hfailed
    rw [hrunning] at hfailed
    cases hfailed
  obtain ⟨h, hstop⟩ := hkeeps₀.run hstop₀ attempts
  obtain ⟨commands, hsent, hconsumed⟩ := @consumedOf_run pb f₀ attempts
  rw [hnone, List.nil_append] at hconsumed
  refine ⟨⟨?_, h.mine, h.numbered, h.next, h.submitted⟩, h.asked, fun hfits => h.in_order hfits hfrom,
    ⟨fun hfailed more => run_of_returned (hstop hfailed) more, ?_⟩, h.gaveUp⟩
  · show (consumedOf (f₀.run pb attempts).trace).Sublist _
    rw [hconsumed]
    exact hsent
  · exact fun hfailed commands more => readAll_append f.ask commands more hfailed

/-- An order is cancelled, as a message that decodes. -/
def cancelAt (seq : UInt64) : SequencedCommand where
  seq
  ts := 0
  symbol := 1
  clientOrderId := "order"
  gatewayId := "gateway"
  accountId := 7
  payload := generated.serialize { body := some (.cancelOrder { requester := 7, orderId := 5 }) }

/-- A cancel numbered by the sequencer is stamped. -/
theorem stamped_cancelAt (seq : UInt64) : stamped generated (cancelAt seq) = some
    { seq := seq.toNat, ts := 0, command := .cancelOrder "order" 1 7 5, gatewayId := "gateway"
      accountId := 7 } := by
  have hlength := generated_lawful.length_serialize
    { body := some (.cancelOrder { requester := 7, orderId := 5 }) }
  have hparse := generated_lawful.parse_serialize
    { body := some (.cancelOrder { requester := 7, orderId := 5 }) }
  unfold stamped Protobuf.decodeBody cancelAt
  rw [if_neg (not_lt.mpr hlength), hparse]
  rfl

/-- A stream breaks, and the next one is asked for behind what it has delivered. -/
theorem hand_over_of_break :
    let broken : Attempt := { messages := [cancelAt 1, cancelAt 2], status := ⟨.unavailable, "broken"⟩ }
    let refused : Attempt := { messages := [cancelAt 3, cancelAt 9], status := ⟨.ok, ""⟩ }
    ∃ f₀, make [1] { address := "sequencer" } = .ok f₀ ∧
      let f := f₀.run generated [broken, refused]
      f.last + 1 = seqAt { address := "sequencer" } (consumedOf f.trace).length ∧
      (f.submitted.map Stamped.seq).Pairwise (· < ·) := by
  intro broken refused
  refine ⟨_, rfl, ?_⟩
  obtain ⟨⟨hsent, -, -, hlast, -⟩, -, hfits, -, -⟩ :=
    hand_over generated [1] { address := "sequencer" } _ rfl [broken, refused]
  have hfew : (consumedOf _).length ≤ 4 := hsent.length_le
  refine ⟨hlast, (hfits ?_).2.2⟩
  have hfrom : (1 : UInt64).toNat = 1 := rfl
  rw [hfrom]
  omega

/-- The number behind the last is the first: commands are handed over whose numbers do not grow. -/
theorem hand_over_wraps :
    let wrapping : Attempt := { messages := [cancelAt (0 - 1), cancelAt 0], status := ⟨.ok, ""⟩ }
    ∃ f₀, make [1] { address := "sequencer", fromSeq := 0 - 1 } = .ok f₀ ∧
      ¬ ((f₀.run generated [wrapping]).submitted.map Stamped.seq).Pairwise (· < ·) := by
  intro wrapping
  refine ⟨_, rfl, ?_⟩
  simp only [run, List.foldl_cons, List.foldl_nil, attempt, wrapping, ask, note, readAll, receive, failed,
    stamped_cancelAt, consume]
  decide

end SequencerFeed

end OrderBookEngine
