import Mathlib.Data.Prod.Lex
import OrderBookEngine.Lib.Numbered
import OrderBookEngine.Lib.Progress
import OrderBookEngine.Properties.Answered
import OrderBookEngine.Properties.Routing

/-!
# Commands through the router

Every command that `submit` has queued is answered once, unless it has come behind the shutdown of its worker
(`queued_answered`): `submit` looks at `running_` and pushes later, so what was under way when `shutdown` was
called may be queued and never answered. Two commands never have one number, and the events of each symbol
have no gap, although a worker may be given its commands in another order than they were numbered in
(`ids_unique`). A shutdown comes to its end (`shutdown_ends`).
-/

namespace OrderBookEngine

/-- The events of a symbol are among the outputs for it. -/
theorem eventsOf_outputsOf {cfgs : SymbolId → Option Config} {symbol : SymbolId} {cfg : Config}
    (hcfg : cfgs symbol = some cfg) (outputs : List Output) :
    eventsOf symbol (outputsOf cfgs outputs) = eventsOf symbol outputs := by
  unfold eventsOf outputsOf
  rw [List.filterMap_filter]
  refine List.filterMap_congr fun o _ => ?_
  split_ifs with ho
  · rfl
  · cases o with
    | marketEvent e =>
      refine (if_neg fun he => ho ?_).symm
      show ((some e.symbol).bind cfgs).isSome
      rw [he, Option.bind_some, hcfg]
      rfl
    | _ => rfl

/-- All that a worker has pushed is for some item of its inbox. -/
theorem Worker.fromItem_run {cfgs : SymbolId → Option Config} {inbox : List Stamped} {w : Worker}
    (howned : Owned cfgs inbox) (hrun : (make cfgs).run inbox = some w) :
    ∀ o ∈ w.outbox, FromItem cfgs inbox o := by
  obtain ⟨_, hrun', -, hfrom⟩ := serves (P := fun inbox w => ∀ o ∈ w.outbox, FromItem cfgs inbox o)
    (fun o ho => absurd ho List.not_mem_nil) (fun htakes hfrom => htakes.from_item hfrom) inbox howned
  obtain rfl := Option.some.inj (hrun'.symm.trans hrun)
  exact hfrom

/-- The steps that a call of `submit` has before it. -/
def Submission.left (s : Submission) : ℕ := if s.stamped.isSome then 1 else 2

namespace Router

variable {r r' : Router} {i : ℕ}

/-- A router that has started stays so. -/
theorem started_step {a : Action} (hstep : r.step a = some r') (hstarted : r.started = true) :
    r'.started = true := by
  cases does_of_step hstep with
  | starts early eq => exact eq ▸ rfl
  | _ => simp_all [return_, push]

/-! ## Every command is answered -/

/-- Once the router is not running, nothing new is submitted. -/
theorem late_step {a : Action} (hstep : r.step a = some r') (hstarted : r.started = true)
    (hhalted : r.running = false) : r'.started = true ∧ r'.running = false ∧
      r'.late.length + r'.submissions.length ≤ r.late.length + r.submissions.length := by
  cases does_of_step hstep with
  | adds symbol i cfg early bound free eq => exact eq ▸ ⟨hstarted, hhalted, le_rfl⟩
  | starts early eq => exact absurd (hstarted.symm.trans early) Bool.noConfusion
  | fails error throws eq => exact eq ▸ ⟨hstarted, hhalted, le_rfl⟩
  | refuses command result refused unknown eq => exact eq ▸ ⟨hstarted, hhalted, le_rfl⟩
  -- A router that is halted accepts no further call.
  | submits command symbol i running plain symbol_eq route eq =>
    exact absurd (running.symm.trans hhalted) Bool.noConfusion
  | stamps k now i command item front back seq command_eq split eq =>
    subst eq
    refine ⟨hstarted, hhalted, ?_⟩
    simp [split]
  | accepts k i command item front back split ahead eq =>
    subst eq
    refine ⟨hstarted, hhalted, ?_⟩
    show r.late.length + (front ++ back).length ≤ _
    simp only [split, List.length_append, List.length_cons]
    omega
  | misses k i command item front back split behind eq =>
    subst eq
    refine ⟨hstarted, hhalted, ?_⟩
    show (r.late ++ [(i, item)]).length + (front ++ back).length ≤ _
    simp only [split, List.length_append, List.length_cons, List.length_nil]
    omega
  | works i t work eq => exact eq ▸ ⟨hstarted, hhalted, le_rfl⟩
  | pushes i output outputs pending eq => exact eq ▸ ⟨hstarted, hhalted, le_rfl⟩
  | halts started first eq => exact eq ▸ ⟨hstarted, rfl, le_rfl⟩
  | calls i at_ bound eq => exact eq ▸ ⟨hstarted, hhalted, le_rfl⟩
  | joins i at_ returned eq => exact eq ▸ ⟨hstarted, hhalted, le_rfl⟩
  | ends i at_ bound eq => exact eq ▸ ⟨hstarted, hhalted, le_rfl⟩
  | stays nothing eq =>
    subst eq
    exact ⟨hstarted, hhalted, le_rfl⟩

/-- So in a run: what is late was under way. -/
theorem late_run {actions : List Action} (hrun : r.run actions = some r') (hstarted : r.started = true)
    (hhalted : r.running = false) :
    r'.late.length + r'.submissions.length ≤ r.late.length + r.submissions.length := by
  induction actions generalizing r with
  | nil => exact Option.some.inj hrun ▸ le_rfl
  | cons a actions ih =>
    obtain ⟨r₁, hstep, hrest⟩ := Option.bind_eq_some_iff.mp hrun
    obtain ⟨hstarted₁, hhalted₁, hless⟩ := late_step hstep hstarted hhalted
    exact (ih hrest hstarted₁ hhalted₁).trans hless

/-- What comes too late was under way when the shutdown was called. -/
theorem Sound.late_le {later : List Action} (h : r.Sound) (hstarted : r.started = true)
    (hfirst : r.stopping = .no) (hrun : r.run (.shutdown :: later) = some r') :
    r'.late.length ≤ r.submissions.length := by
  obtain ⟨r₁, hstep, hrest⟩ := Option.bind_eq_some_iff.mp hrun
  obtain rfl : { r with running := false, stopping := .worker 0 false } = r₁ := by
    have hstep : r.shutdown = some r₁ := hstep
    unfold shutdown at hstep
    rw [hfirst] at hstep
    simp only at hstep
    rw [if_pos hstarted] at hstep
    exact Option.some.inj hstep
  have hless := late_run hrest hstarted rfl
  calc r'.late.length
    _ ≤ r'.late.length + r'.submissions.length := Nat.le_add_right _ _
    _ ≤ r.late.length + r.submissions.length := hless
    _ = r.submissions.length := by rw [h.timely hfirst, List.length_nil, Nat.zero_add]

/-- **What has been queued is answered once.** In every interleaving, the commands that `submit` has queued are
those that were pushed into an inbox. Of those that a worker was given ahead of its shutdown the first have
been answered, one each and in their order, and all of them once the shutdown has returned or nothing is
queued; no other reply is pushed. The others, which nobody will answer, were under way when the shutdown was
called. -/
theorem queued_answered (workerCount : ℕ) (r₀ : Router) (hmake : make workerCount true = .ok r₀)
    (actions : List Action) (r : Router) (hrun : r₀.run actions = some r) :
    ((r.returned.filter fun x => x.2 = .queued).map Prod.fst).Perm
      ((r.accepted ++ r.late).map fun x => x.2.command) ∧
    (∀ i, ∃ answered, answered <+: r.acceptedBy i ∧
      List.Forall₂ Answers answered (repliesOf (r.shown i)) ∧
      (r.stopping = .done ∨ r.Drained i → answered = r.acceptedBy i)) ∧
    (∀ reply ∈ repliesOf r.outbox, ∃ i, reply ∈ repliesOf (r.shown i)) ∧
    (r.stopping = .no → r.late = []) ∧
    ∀ before later r₁, actions = before ++ .shutdown :: later → r₀.run before = some r₁ →
      r₁.started = true → r₁.stopping = .no → r.late.length ≤ r₁.submissions.length := by
  have h := (Sound.make hmake).run hrun
  refine ⟨h.counted.queued, fun i => ?_, fun reply hreply => ?_, h.timely, ?_⟩
  · obtain ⟨taken, w, htaken, howned, hw, ⟨rest, hrest⟩, hdone⟩ := h.asWorker i
    have hcommands : commandsOf taken = taken := List.filter_eq_self.mpr fun x hx => by
      obtain ⟨y, hy, rfl⟩ := List.mem_map.mp (htaken.subset hx)
      rw [h.counted.plain.2 y (List.mem_append_left _ (List.mem_filter.mp hy).1)]
      rfl
    have hanswers := Worker.answers howned hw
    rw [hcommands] at hanswers
    -- What has been shown of the outputs answers the first of the items.
    have hfirst := hanswers
    rw [← hrest, repliesOf_append] at hfirst
    refine ⟨_, (List.take_prefix _ _).trans htaken, List.forall₂_take_append _ _ _ hfirst, fun hall => ?_⟩
    obtain ⟨hsame, hshown⟩ := hdone hall
    rw [hshown, ← hanswers.length_eq, List.take_length, hsame]
  · obtain ⟨o, ho, hsome⟩ := List.mem_filterMap.mp hreply
    obtain ⟨i, hi⟩ := h.known o ho
    exact ⟨i, List.mem_filterMap.mpr ⟨o, List.mem_filter.mpr ⟨ho, hi⟩, hsome⟩⟩
  · rintro before later r₁ rfl hbefore hstarted hfirst
    unfold run at hrun
    -- The run goes through the state in which the shutdown begins.
    rw [List.foldlM_append] at hrun
    obtain ⟨_, hbefore', hlater⟩ := Option.bind_eq_some_iff.mp hrun
    obtain rfl := Option.some.inj (hbefore'.symm.trans hbefore)
    exact ((Sound.make hmake).run hbefore).late_le hstarted hfirst hlater

/-- One cancellation is queued, and another is under way when the shutdown begins. -/
def cancelsThenShutdown (cfg : Config) : List Action :=
  [.addSymbol 1 0 cfg, .start, .submit (.cancelOrder "first" 1 1 7), .stamp 0 5, .enqueue 0,
   .submit (.cancelOrder "second" 1 1 7), .shutdown, .shutdown, .stamp 0 6, .enqueue 0, .work 0,
   .pushOutput 0, .work 0, .shutdown, .shutdown]

/-- The first cancellation is accepted, and the second comes late. -/
theorem run_cancelsThenShutdown :
    ∃ r, run { workerCount := 1 } (cancelsThenShutdown { poolCapacity := 4 }) = some r ∧
      r.stopping = .done ∧ (r.accepted ++ r.late).length = 2 ∧ (r.acceptedBy 0).length = 1 := by
  have hchain : (run { workerCount := 1 } (cancelsThenShutdown { poolCapacity := 4 })).map (fun r =>
      (r.stopping, (r.accepted ++ r.late).length, (r.acceptedBy 0).length)) = some (.done, 2, 1) := by
    decide +kernel
  obtain ⟨r, hrun, hlast⟩ := Option.map_eq_some_iff.mp hchain
  obtain ⟨hstopping, hlast⟩ := Prod.mk.inj hlast
  exact ⟨r, hrun, hstopping, Prod.mk.inj hlast⟩

/-- Both have been queued; the first is answered, and the second never. -/
theorem queued_answered_once :
    ∃ r, run { workerCount := 1 } (cancelsThenShutdown { poolCapacity := 4 }) = some r ∧ r.stopping = .done ∧
      ((r.returned.filter fun x => x.2 = .queued).map Prod.fst).length = 2 ∧
      (repliesOf (r.shown 0)).length = 1 := by
  obtain ⟨r, hrun, hstopping, hpushed, haccepted⟩ := run_cancelsThenShutdown
  obtain ⟨hqueued, hanswered, -⟩ := queued_answered 1 _ rfl _ r hrun
  obtain ⟨answered, -, hanswers, hall⟩ := hanswered 0
  rw [hall (Or.inl hstopping)] at hanswers
  refine ⟨r, hrun, hstopping, ?_, hanswers.length_eq.symm.trans haccepted⟩
  rw [hqueued.length_eq, List.length_map, hpushed]

/-! ## Numbers -/

/-- Short of the wrap, no number is given twice. -/
theorem Counted.nodup_seqs (h : r.Counted) (hfew : r.issued.length ≤ 2 ^ 64) :
    (r.issued.map Stamped.seq).Nodup := by
  rw [h.seqs]
  refine List.Nodup.map_on (fun k hk k' hk' heq => ?_) List.nodup_range
  have hk := List.mem_range.mp hk
  have hk' := List.mem_range.mp hk'
  have heq : (k + 1) % 2 ^ 64 = (k' + 1) % 2 ^ 64 := heq
  omega

/-- So a worker takes no number twice. -/
theorem Counted.nodup_acceptedBy (h : r.Counted) (hfew : r.issued.length ≤ 2 ^ 64) (i : ℕ) :
    ((r.acceptedBy i).map Stamped.seq).Nodup := by
  have hall := ((h.issued.map Stamped.seq).nodup_iff).mp (h.nodup_seqs hfew)
  refine hall.sublist (List.Sublist.map _ ?_)
  calc r.acceptedBy i
    _ |>.Sublist (r.accepted.map Prod.snd) := List.filter_sublist.map _
    _ |>.Sublist ((r.accepted ++ r.late).map Prod.snd) := (List.sublist_append_left _ _).map _
    _ |>.Sublist ((r.accepted ++ r.late).map Prod.snd ++ r.submissions.filterMap Submission.stamped) :=
      List.sublist_append_left _ _

/-- **Numbers.** In every interleaving: as long as the counter has not come round, two commands never have one
number, and nobody is told that the id of his new order or stop is in use. The events of each symbol are
pushed with the numbers 1, 2, 3, ... -/
theorem ids_unique (workerCount : ℕ) (r₀ : Router) (hmake : make workerCount true = .ok r₀)
    (actions : List Action) (r : Router) (hrun : r₀.run actions = some r) :
    (r.issued.length ≤ 2 ^ 64 → (r.issued.map Stamped.seq).Nodup ∧
      ((∀ i, Worker.Fits (r.cfgs i) (r.acceptedBy i)) →
        ∀ reply ∈ repliesOf r.outbox, reply.rejectReason ≠ .duplicateOrderId)) ∧
    ∀ symbol, (eventsOf symbol r.outbox).map EngineEvent.sequenceNumber =
      List.range' 1 (eventsOf symbol r.outbox).length := by
  have h := (Sound.make hmake).run hrun
  refine ⟨fun hfew => ⟨h.counted.nodup_seqs hfew, fun hfits reply hreply => ?_⟩, fun symbol => ?_⟩
  · obtain ⟨o, ho, hsome⟩ := List.mem_filterMap.mp hreply
    obtain rfl : o = .reply reply := by
      cases o with
      | reply r => exact congrArg _ (Option.some.inj hsome)
      | _ => cases hsome
    obtain ⟨i, hi⟩ := h.known _ ho
    obtain ⟨taken, w, ⟨rest, htaken⟩, howned, hw, hshown, -⟩ := h.asWorker i
    have hmem : .reply reply ∈ w.outbox := hshown.subset (List.mem_filter.mpr ⟨ho, hi⟩)
    have hnodup := h.counted.nodup_acceptedBy hfew i
    have hfits := hfits i
    rw [← htaken] at hnodup hfits
    rw [List.map_append] at hnodup
    -- The numbers are the ids of the new orders, and no two items of a worker share one.
    refine (Worker.fromItem_run howned hw _ hmem).fresh hfits.of_append ?_
    exact (List.nodup_append.mp hnodup).1.sublist (List.filter_sublist.map _)
  -- The events of a symbol come from the one worker that has its book.
  · by_cases hown : ∃ i cfg, r.cfgs i symbol = some cfg
    · obtain ⟨i, cfg, hcfg⟩ := hown
      obtain ⟨taken, w, -, howned, hw, hshown, -⟩ := h.asWorker i
      have hnumbered : NumberedBy EngineEvent.sequenceNumber (eventsOf symbol w.outbox) := by
        rw [Worker.eventsOf_run howned hw hcfg]
        exact ((Book.spans_run _ _).numbered ⟨rfl, rfl⟩).events
      have hevents : eventsOf symbol r.outbox <+: eventsOf symbol w.outbox := by
        rw [← eventsOf_outputsOf hcfg]
        exact hshown.filterMap _
      rw [List.prefix_iff_eq_take.mp hevents, hnumbered.take hevents.length_le, List.length_take,
        min_eq_left hevents.length_le]
    · have hnone : eventsOf symbol r.outbox = [] := List.filterMap_eq_nil_iff.mpr fun o ho => by
        obtain ⟨i, hi⟩ := h.known o ho
        cases o with
        | marketEvent e =>
          refine if_neg fun he => hown ?_
          obtain ⟨cfg, hcfg⟩ := Option.isSome_iff_exists.mp hi
          exact ⟨i, cfg, he ▸ hcfg⟩
        | _ => rfl
      rw [hnone]
      rfl

/-- Two new orders are numbered 1 and 2, and reach their worker the other way round. -/
def ordersOvertaking (cfg : Config) : List Action :=
  let order (ownerId : OwnerId) (side : Side) : Order :=
    { id := 0, ownerId, side, type := .limit, price := some 100, quantity := 1 }
  [.addSymbol 1 0 cfg, .start, .submit (.newOrder "bid" 1 (order 1 .buy)),
   .submit (.newOrder "ask" 1 (order 2 .sell)), .stamp 0 5, .stamp 1 6, .enqueue 1, .enqueue 0, .work 0,
   .pushOutput 0, .pushOutput 0, .pushOutput 0, .work 0, .pushOutput 0, .pushOutput 0, .pushOutput 0]

/-- Both orders have been answered, the later one first, and have traded: four events. -/
theorem ids_unique_overtaking :
    ∃ r, run { workerCount := 1 } (ordersOvertaking { poolCapacity := 4 }) = some r ∧ r.issued.length = 2 ∧
      (r.issued.map Stamped.seq).Nodup ∧ (repliesOf r.outbox).map Reply.orderId = [2, 1] ∧
      (∀ reply ∈ repliesOf r.outbox, reply.rejectReason ≠ .duplicateOrderId) ∧
      (eventsOf 1 r.outbox).map EngineEvent.sequenceNumber = [1, 2, 3, 4] := by
  have hchain : (run { workerCount := 1 } (ordersOvertaking { poolCapacity := 4 })).map (fun r =>
      (r.issued.length, (repliesOf r.outbox).map Reply.orderId, (eventsOf 1 r.outbox).length,
        r.instruments.map fun x => x.cfg.priorities)) = some (2, [2, 1], 4, [.exact]) := by
    decide +kernel
  obtain ⟨r, hrun, hlast⟩ := Option.map_eq_some_iff.mp hchain
  obtain ⟨hissued, hlast⟩ := Prod.mk.inj hlast
  obtain ⟨hreplies, hlast⟩ := Prod.mk.inj hlast
  obtain ⟨hevents, hpriorities⟩ := Prod.mk.inj hlast
  obtain ⟨hunique, hnumbered⟩ := ids_unique 1 _ rfl _ r hrun
  have hfits : ∀ i, Worker.Fits (r.cfgs i) (r.acceptedBy i) := by
    intro i symbol cfg hcfg
    obtain ⟨x, hx, -, -, rfl⟩ := Listed.of_cfgsOf hcfg
    have hexact := List.mem_map_of_mem (f := fun x : Instrument => x.cfg.priorities) hx
    rw [hpriorities] at hexact
    exact Book.fits_run (List.mem_singleton.mp hexact) _
  obtain ⟨hnodup, hfresh⟩ := hunique (by rw [hissued]; decide)
  have hfour := hnumbered 1
  rw [hevents] at hfour
  exact ⟨r, hrun, hissued, hnodup, hreplies, hfresh hfits, hfour⟩

/-! ## The end -/

/-- The steps of the shutdown before it, at most. -/
def shutdownLeft (r : Router) : ℕ :=
  match r.stopping with
  | .no => 2 * r.workerCount + 3
  | .worker i called => 2 * (r.workerCount - i) + if called then 1 else 2
  | .done => 0

/-- What is left to do when nothing more is submitted: what is under way is numbered and pushed, the workers
take what is in their inboxes and push it, and the shutdown stops one after the other. -/
inductive Closing (r : Router) : Action → Prop
  /-- A submission gets its number. -/
  | stamp (k : ℕ) (now : ℤ) : Closing r (.stamp k now)
  /-- A submission ends. -/
  | enqueue (k : ℕ) : Closing r (.enqueue k)
  /-- A worker takes an item. -/
  | work (i : ℕ) (bound : i < r.workerCount) : Closing r (.work i)
  /-- A worker pushes an output. -/
  | pushOutput (i : ℕ) (bound : i < r.workerCount) : Closing r (.pushOutput i)
  /-- The shutdown goes on. -/
  | shutdown (stopping : r.stopping ≠ .done) : Closing r .shutdown

/-- A step of the closing. -/
def Closes (r r' : Router) : Prop := ∃ a, Closing r a ∧ r.step a = some r'

/-- What is left to do. A step may leave more of what comes later in the list. -/
def left (r : Router) : ℕ ×ₗ ℕ ×ₗ ℕ ×ₗ ℕ :=
  toLex ((r.submissions.map Submission.left).sum, toLex (r.shutdownLeft,
    toLex ((Finset.range r.workerCount).sum fun i => (r.threads i).inbox.length,
      (Finset.range r.workerCount).sum fun i => (r.threads i).worker.outbox.length)))

/-- A submission that moves on leaves less to do. -/
theorem left_submission {front back : List Submission} {s : Submission} {rest : List Submission}
    (hsplit : r.submissions = front ++ s :: back) (hsubmissions : r'.submissions = front ++ rest)
    (hless : (rest.map Submission.left).sum < ((s :: back).map Submission.left).sum) : r'.left < r.left := by
  refine Prod.Lex.toLex_lt_toLex.mpr (Or.inl ?_)
  rw [hsplit, hsubmissions, List.map_append, List.sum_append, List.map_append, List.sum_append]
  exact Nat.add_lt_add_left hless _

/-- A worker takes an item or pushes an output. -/
theorem left_thread {t : WorkerThread} {outbox : List Output} (hbound : i < r.workerCount)
    (heq : r' = { r with threads := Function.update r.threads i t, outbox })
    (hless : t.inbox.length < (r.threads i).inbox.length ∨ t.inbox = (r.threads i).inbox ∧
      t.worker.outbox.length < (r.threads i).worker.outbox.length) : r'.left < r.left := by
  subst heq
  have hother : ∀ {f : WorkerThread → ℕ} j, j ≠ i → f (Function.update r.threads i t j) = f (r.threads j) :=
    fun j hj => by rw [Function.update_of_ne hj]
  refine Prod.Lex.toLex_lt_toLex'.mpr ⟨le_rfl, fun _ => Prod.Lex.toLex_lt_toLex'.mpr ⟨le_rfl, fun _ => ?_⟩⟩
  -- Taking an item counts for more than the outputs that come of it.
  rcases hless with hless | ⟨hinbox, hless⟩
  · refine Prod.Lex.toLex_lt_toLex.mpr (Or.inl (sum_range_lt hbound ?_ (hother (f := fun t => t.inbox.length))))
    show (Function.update r.threads i t i).inbox.length < _
    rw [Function.update_self]
    exact hless
  · refine Prod.Lex.toLex_lt_toLex.mpr (Or.inr ⟨?_, sum_range_lt hbound ?_
      (hother (f := fun t => t.worker.outbox.length))⟩)
    · show (Finset.range r.workerCount).sum (fun j => (Function.update r.threads i t j).inbox.length) = _
      refine Finset.sum_congr rfl fun j _ => ?_
      by_cases hj : j = i
      · rw [hj, Function.update_self, hinbox]
      · rw [Function.update_of_ne hj]
    · show (Function.update r.threads i t i).worker.outbox.length < (r.threads i).worker.outbox.length
      rw [Function.update_self]
      exact hless

/-- A shutdown that moves on leaves less to do. -/
theorem left_shutdown (hsubmissions : r'.submissions = r.submissions)
    (hless : r'.shutdownLeft < r.shutdownLeft) : r'.left < r.left := by
  refine Prod.Lex.toLex_lt_toLex'.mpr ⟨by rw [hsubmissions], fun _ => ?_⟩
  exact Prod.Lex.toLex_lt_toLex.mpr (Or.inl hless)

/-- **One step.** Less is left. -/
theorem left_closes (h : r.Sound) (hstarted : r.started = true) (hstep : Closes r r') : r'.left < r.left := by
  obtain ⟨a, hclosing, hstep⟩ := hstep
  cases does_of_step hstep with
  | adds symbol i cfg early bound free eq => cases hclosing
  | starts early eq => cases hclosing
  | fails error throws eq => cases hclosing <;> cases throws
  | refuses command result refused unknown eq => cases hclosing
  | submits command symbol i running plain symbol_eq route eq => cases hclosing
  | stamps k now i command item front back seq command_eq split eq =>
    refine left_submission split (congrArg submissions eq) ?_
    rw [List.map_cons, List.map_cons, List.sum_cons, List.sum_cons]
    exact Nat.add_lt_add_right (show 1 < 2 from Nat.one_lt_two) _
  | accepts k i command item front back split ahead eq =>
    refine left_submission split (congrArg submissions eq) ?_
    rw [List.map_cons, List.sum_cons]
    exact Nat.lt_add_of_pos_left (show 0 < 1 from Nat.one_pos)
  | misses k i command item front back split behind eq =>
    refine left_submission split (congrArg submissions eq) ?_
    rw [List.map_cons, List.sum_cons]
    exact Nat.lt_add_of_pos_left (show 0 < 1 from Nat.one_pos)
  | works i t work eq =>
    obtain ⟨item, inbox, w, -, -, hinbox, -, rfl⟩ := WorkerThread.work_spec work
    cases hclosing with
    | work i bound =>
      refine left_thread bound eq (Or.inl ?_)
      rw [hinbox]
      exact Nat.lt_succ_self _
  | pushes i output outputs pending eq =>
    cases hclosing with
    | pushOutput i bound =>
      refine left_thread bound eq (Or.inr ⟨rfl, ?_⟩)
      rw [pending]
      exact Nat.lt_succ_self _
  | halts started first eq =>
    subst eq
    refine left_shutdown rfl ?_
    unfold shutdownLeft
    simp only [first, Bool.false_eq_true, if_false]
    omega
  | calls i at_ bound eq =>
    subst eq
    refine left_shutdown rfl ?_
    unfold shutdownLeft
    simp only [at_, Bool.false_eq_true, if_false, if_true]
    exact Nat.lt_succ_self _
  | joins i at_ returned eq =>
    have hbound := h.within i at_
    subst eq
    refine left_shutdown rfl ?_
    unfold shutdownLeft
    simp only [at_, Bool.false_eq_true, if_false, if_true]
    omega
  | ends i at_ bound eq =>
    subst eq
    refine left_shutdown rfl ?_
    unfold shutdownLeft
    simp only [at_, Bool.false_eq_true, if_false]
    exact Nat.lt_add_left _ Nat.two_pos
  | stays nothing eq =>
    -- A shutdown that finds nothing to do is no step of the closing.
    rcases nothing with ⟨-, hnot⟩ | hdone
    · exact absurd (hstarted.symm.trans hnot) Bool.noConfusion
    · cases hclosing with
      | shutdown stopping => exact absurd hdone stopping

/-- The shutdown has returned, and nothing is under way any more: the workers have returned and pushed all, and
whatever is submitted is refused. -/
structure Ended (r : Router) : Prop where
  /-- The shutdown has returned. -/
  done : r.stopping = .done
  /-- The router is not running. -/
  running : r.running = false
  /-- No submission is under way. -/
  submissions : r.submissions = []
  /-- Every worker has returned. -/
  returned : ∀ i, i < r.workerCount → (r.threads i).returned = true
  /-- Every worker has pushed everything. -/
  pushed : ∀ i, (r.threads i).worker.outbox = []

/-- A router that is done has ended, once nothing is under way. -/
theorem ended_of_done (h : r.Sound) (hdone : r.stopping = .done) (hsubmissions : r.submissions = []) :
    r.Ended where
  done := hdone
  running := h.halted (by simp [hdone])
  submissions := hsubmissions
  returned i hbound := h.joined i (by rw [hdone]; exact decide_eq_true hbound)
  pushed i := by
    refine (h.attends i).idle ?_
    by_cases hbound : i < r.workerCount
    · exact Or.inl (h.joined i (by rw [hdone]; exact decide_eq_true hbound))
    · exact Or.inr (h.listed.cfgsOf_eq_none hbound)

/-- **No dead end.** Until the shutdown has returned and nothing is under way, something can be done. -/
theorem exists_closes (h : r.Sound) (hstarted : r.started = true) (hnot : ¬ r.Ended) : ∃ r', Closes r r' := by
  have hclose : ∀ a, Closing r a → (r.step a).isSome → ∃ r', Closes r r' := by
    intro a hclosing hsome
    obtain ⟨r', hr'⟩ := Option.isSome_iff_exists.mp hsome
    exact ⟨r', a, hclosing, hr'⟩
  -- A call under way goes on; without one the shutdown does, or a worker that it waits for.
  cases hsubmissions : r.submissions with
  | cons s rest =>
    obtain ⟨i, command, stamped⟩ := s
    have hfirst : r.submissions[0]? = some ⟨i, command, stamped⟩ := by rw [hsubmissions]; rfl
    cases stamped with
    | none =>
      refine hclose (.stamp 0 0) (.stamp 0 0) ?_
      show (r.stamp 0 0).isSome
      unfold stamp
      rw [hfirst]
      rfl
    | some item =>
      refine hclose (.enqueue 0) (.enqueue 0) ?_
      show (r.enqueue 0).isSome
      unfold enqueue
      rw [hfirst]
      simp only
      split_ifs <;> rfl
  | nil =>
    have hshutdown : r.stopping ≠ .done → r.shutdown.isSome → ∃ r', Closes r r' := fun hopen =>
      hclose .shutdown (.shutdown hopen)
    cases hat : r.stopping with
    | no =>
      refine hshutdown (by simp [hat]) ?_
      unfold shutdown
      rw [hat]
      simp [hstarted]
    | worker i called =>
      cases called with
      | false =>
        refine hshutdown (by simp [hat]) ?_
        unfold shutdown
        rw [hat]
        simp only
        split_ifs <;> rfl
      | true =>
        have hbound := h.within i hat
        by_cases hreturned : (r.threads i).returned = true
        · refine hshutdown (by simp [hat]) ?_
          unfold shutdown
          rw [hat]
          simp only
          rw [if_pos hreturned]
          rfl
        · by_cases hidle : (r.threads i).worker.outbox = []
          · -- The shutdown is still in the inbox.
            refine hclose (.work i) (.work i hbound) ?_
            show ((r.threads i).work.map _).isSome
            rw [Option.isSome_map, (h.attends i).isSome_work]
            refine ⟨Bool.not_eq_true _ ▸ hreturned, hidle, ?_⟩
            obtain ⟨taken, waiting, -, -, hqueued, -⟩ := h.attends i
            have hpilled : r.stopping.pilled r.workerCount i = true := by
              rw [hat]
              exact decide_eq_true ⟨hbound, Or.inr ⟨rfl, rfl⟩⟩
            cases hqueued with
            | serving not_pilled running inbox => simp [hpilled] at not_pilled
            | stopping pill rest is_pilled running shutdown inbox => simp [inbox]
            | returned is_pilled stopped nothing idle => exact absurd stopped hreturned
          · -- The worker still has outputs to push.
            refine hclose (.pushOutput i) (.pushOutput i hbound) ?_
            obtain ⟨output, outputs, hpending⟩ := List.exists_cons_of_ne_nil hidle
            show (r.pushOutput i).isSome
            unfold pushOutput
            rw [hpending]
            rfl
    | done => exact absurd (ended_of_done h hat hsubmissions) hnot

/-- **A shutdown comes to its end.** From every state that an interleaving has led to once the router has
started, what is left to do when nothing more is submitted comes to an end in every order. Where it ends the
shutdown has returned, every worker has taken all that was ahead of its shutdown and pushed all its outputs,
and nothing is accepted any more. -/
theorem shutdown_ends (workerCount : ℕ) (r₀ : Router) (hmake : make workerCount true = .ok r₀)
    (actions : List Action) (r : Router) (hrun : r₀.run actions = some r) (hstarted : r.started = true) :
    Settles Closes Ended r := by
  have h := (Sound.make hmake).run hrun
  refine @Settles.of_measure _ _ _ (fun r => r.Sound ∧ r.started = true) _ _ _ _ left ?_ ?_ ⟨h, hstarted⟩
  · rintro s s' ⟨hs, hstart⟩ hstep
    refine ⟨?_, left_closes hs hstart hstep⟩
    obtain ⟨a, -, hstep⟩ := hstep
    exact ⟨hs.step hstep, started_step hstep hstart⟩
  · rintro s ⟨hs, hstart⟩ hnot
    exact exists_closes hs hstart hnot

/-- One command is queued, and nobody has taken it. -/
theorem shutdown_ends_after_one :
    ∃ r r', run { workerCount := 1 } ((cancelsThenShutdown { poolCapacity := 4 }).take 5) = some r ∧
      Relation.ReflTransGen Closes r r' ∧ r'.Ended := by
  have hchain : (run { workerCount := 1 } ((cancelsThenShutdown { poolCapacity := 4 }).take 5)).map
      started = some true := by decide +kernel
  obtain ⟨r, hrun, hstarted⟩ := Option.map_eq_some_iff.mp hchain
  obtain ⟨r', hcloses, hended⟩ := (shutdown_ends 1 _ rfl _ r hrun hstarted).reaches
  exact ⟨r, r', hrun, hcloses, hended⟩

end Router

end OrderBookEngine
