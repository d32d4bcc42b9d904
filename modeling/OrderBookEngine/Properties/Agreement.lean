import OrderBookEngine.Lib.Numbered
import OrderBookEngine.Properties.Answered

/-!
# Processes agree

A process keeps nothing: when it is started again, its feeds ask for everything from the first command on.
What it publishes then for a partition is what it has published before, and goes on from there; and so does
any other process with the same books (`agreement`). Only the answers to requests for snapshots, which
depend on when they were made, are left aside.
-/

namespace OrderBookEngine

/-- The outputs but for the snapshots. -/
def plainOf (outputs : List Output) : List Output := outputs.filter fun o => !o.isSnapshot

/-- Events that come later only add to the events of a feed. -/
theorem plainOf_mono {outputs outputs' : List Output} (h : outputs <+: outputs') :
    plainOf outputs <+: plainOf outputs' := h.filter _

namespace Worker

variable {cfgs : SymbolId → Option Config} {inbox inbox' : List Stamped} {w w' : Worker}

/-- A worker that takes more has pushed more. -/
theorem outbox_mono (howned : Owned cfgs inbox) (hbefore : inbox' <+: inbox)
    (hrun' : (make cfgs).run inbox' = some w') (hrun : (make cfgs).run inbox = some w) :
    w'.outbox <+: w.outbox := by
  obtain ⟨_, hw, -, hgrows⟩ := serves
    (P := fun inbox w => ∀ before w₀, before <+: inbox → (make cfgs).run before = some w₀ →
      w₀.outbox <+: w.outbox)
    (fun before w₀ hprefix hw₀ => by
      rw [List.prefix_nil.mp hprefix] at hw₀
      obtain rfl := Option.some.inj hw₀
      exact List.prefix_rfl)
    (fun htakes hgrows before w₀ hprefix hw₀ => by
      rcases List.prefix_concat_iff.mp hprefix with rfl | hprefix
      · obtain rfl := Option.some.inj (htakes.after.symm.trans hw₀)
        exact List.prefix_rfl
      · rw [htakes.outbox]
        exact (hgrows before w₀ hprefix hw₀).trans (List.prefix_append _ _))
    inbox howned
  obtain rfl := Option.some.inj (hw.symm.trans hrun)
  exact hgrows inbox' w' hbefore hrun'

/-- So has one whose commands are more. -/
theorem plain_mono (howned : Owned cfgs inbox) (howned' : Owned cfgs inbox')
    (hbefore : commandsOf inbox' <+: commandsOf inbox) (hrun' : (make cfgs).run inbox' = some w')
    (hrun : (make cfgs).run inbox = some w) : plainOf w'.outbox <+: plainOf w.outbox := by
  obtain ⟨_, v, hw, hv, hout⟩ := run_without_snapshots howned
  obtain rfl := Option.some.inj (hw.symm.trans hrun)
  obtain ⟨_, v', hw', hv', hout'⟩ := run_without_snapshots howned'
  obtain rfl := Option.some.inj (hw'.symm.trans hrun')
  unfold plainOf
  rw [← hout, ← hout']
  exact outbox_mono (fun x hx => howned x (List.mem_filter.mp hx).1) hbefore hv' hv

end Worker

namespace Process

variable {pb : Protobuf} {p q : Process} {i j : ℕ}

/-- The instruments stay. -/
theorem instruments_step {a : Action} (hstep : p.step pb a = some q) : q.instruments = p.instruments := by
  cases a with
  | startFeed i =>
    replace hstep : p.startFeed i = some q := hstep
    unfold startFeed at hstep
    split_ifs at hstep
    obtain ⟨feed, -, rfl⟩ := Option.map_eq_some_iff.mp hstep
    rfl
  | openStream i =>
    obtain ⟨t, -, hstep⟩ := Option.bind_eq_some_iff.mp hstep
    split_ifs at hstep
    all_goals
      obtain rfl := Option.some.inj hstep
      rfl
  | read i command =>
    obtain ⟨t, -, hstep⟩ := Option.bind_eq_some_iff.mp hstep
    split_ifs at hstep
    obtain rfl := Option.some.inj hstep
    rfl
  | endStream i status =>
    obtain ⟨t, -, hstep⟩ := Option.bind_eq_some_iff.mp hstep
    split_ifs at hstep
    obtain rfl := Option.some.inj hstep
    rfl
  | main =>
    -- Telling a feed to stop leaves the instruments.
    have hcall : ∀ i, (p.callStop i).instruments = p.instruments := fun i => by
      unfold callStop
      cases p.feeds i <;> rfl
    replace hstep : p.main = some q := hstep
    unfold main at hstep
    split at hstep
    all_goals try split_ifs at hstep
    all_goals cases hstep
    all_goals first
      | rfl
      | exact hcall _
  | node action =>
    replace hstep : (if action.internal then (p.node.step action).map fun node => { p with node }
      else none) = some q := hstep
    split_ifs at hstep
    obtain ⟨node, -, rfl⟩ := Option.map_eq_some_iff.mp hstep
    rfl

/-- A run keeps the instruments of the process. -/
theorem instruments_run {actions : List Action} (hrun : p.run pb actions = some q) :
    q.instruments = p.instruments := by
  induction actions generalizing p with
  | nil => rw [Option.some.inj hrun]
  | cons a actions ih =>
    obtain ⟨p₁, hstep, hrest⟩ := Option.bind_eq_some_iff.mp hrun
    exact (ih hrest).trans (instruments_step hstep)

/-- In every run, the books of a partition are configured as its instruments are. -/
theorem cfgs_run {partitions : ℕ} {instruments : List Instrument} {options : PublisherOptions}
    {address : String} {actions : List Action}
    (hmake : make partitions instruments options address = .ok p) (hrun : p.run pb actions = some q)
    (i : ℕ) : q.cfgs i = cfgsOf instruments i := by
  unfold make at hmake
  cases hnode : EngineNode.make partitions instruments options with
  | error e => rw [hnode] at hmake; cases hmake
  | ok node =>
    rw [hnode] at hmake
    obtain rfl := Except.ok.inj hmake
    unfold cfgs
    rw [instruments_run hrun]

/-- All that the feed of a partition has handed over has been answered and published. -/
def CaughtUp (p : Process) (i : ℕ) : Prop := p.phase = .stopped ∨ p.Drained i

/-- The same commands up to where one of the feeds is. -/
theorem submitted_mono (hp : p.Running pb) (hq : q.Running pb)
    (hsame : ∀ c ∈ consumedOf (p.trace i), ∀ c' ∈ consumedOf (q.trace j), c.seq = c'.seq → c = c')
    (hlength : (consumedOf (p.trace i)).length ≤ (consumedOf (q.trace j)).length) :
    p.submitted i <+: q.submitted j := by
  obtain ⟨hsubmitted, hnumbered⟩ := hp.feed_of_partition i
  obtain ⟨hsubmitted', hnumbered'⟩ := hq.feed_of_partition j
  rw [hsubmitted, hsubmitted']
  -- Both feeds start at 1.
  exact (prefix_of_numbered hnumbered hnumbered' hsame hlength).filterMap _

/-- A process that has not consumed more has not published more. -/
theorem published_mono (hp : p.Running pb) (hq : q.Running pb) (hcfgs : p.cfgs i = q.cfgs j)
    (hsame : ∀ c ∈ consumedOf (p.trace i), ∀ c' ∈ consumedOf (q.trace j), c.seq = c'.seq → c = c')
    (hlength : (consumedOf (p.trace i)).length ≤ (consumedOf (q.trace j)).length)
    (hdone : q.CaughtUp j) : plainOf (p.published i) <+: plainOf (q.published j) := by
  obtain ⟨taken, w, howned, hw, htaken, hpublished, -⟩ := hp.asWorker i
  obtain ⟨taken', w', howned', hw', -, -, hall⟩ := hq.asWorker j
  obtain ⟨htaken', hpublished'⟩ := hall hdone
  rw [hcfgs] at howned hw
  have hcommands : commandsOf taken <+: commandsOf taken' := by
    rw [htaken']
    exact htaken.trans (submitted_mono hp hq hsame hlength)
  rw [hpublished']
  exact (plainOf_mono hpublished).trans
    (Worker.plain_mono howned' howned hcommands hw hw')

/-- One has published what the other has, and perhaps more. -/
theorem published_comparable (hp : p.Running pb) (hq : q.Running pb) (hcfgs : p.cfgs i = q.cfgs j)
    (hsubmitted : p.submitted i <+: q.submitted j) :
    plainOf (p.published i) <+: plainOf (q.published j) ∨
      plainOf (q.published j) <+: plainOf (p.published i) := by
  obtain ⟨taken, w, howned, hw, htaken, hpublished, -⟩ := hp.asWorker i
  obtain ⟨taken', w', howned', hw', htaken', hpublished', -⟩ := hq.asWorker j
  rw [hcfgs] at howned hw
  -- The longer of the two lists of commands is behind both.
  rcases List.prefix_or_prefix_of_prefix (htaken.trans hsubmitted) htaken' with hless | hless
  · exact List.prefix_or_prefix_of_prefix
      ((plainOf_mono hpublished).trans (Worker.plain_mono howned' howned hless hw hw'))
      (plainOf_mono hpublished')
  · exact List.prefix_or_prefix_of_prefix (plainOf_mono hpublished)
      ((plainOf_mono hpublished').trans (Worker.plain_mono howned howned' hless hw' hw))

/-- **Agreement.** Two processes, or one process before and after it was started again, have the same books
for a partition, and have not been given two different commands under one number. However their threads
have moved: what one of them has published for the partition, snapshots aside, is what the other has, and
perhaps more; and when one has consumed as many commands as the other and has caught up, nothing that the
other has published is missing. -/
theorem agreement (pb : Protobuf) (partitions partitions' : ℕ) (instruments instruments' : List Instrument)
    (options options' : PublisherOptions) (address address' : String) (p₀ q₀ : Process)
    (hmake : make partitions instruments options address = .ok p₀)
    (hmake' : make partitions' instruments' options' address' = .ok q₀) (actions actions' : List Action)
    (p q : Process) (hrun : p₀.run pb actions = some p) (hrun' : q₀.run pb actions' = some q) (i j : ℕ)
    (hcfgs : cfgsOf instruments i = cfgsOf instruments' j)
    (hsame : ∀ c ∈ consumedOf (p.trace i), ∀ c' ∈ consumedOf (q.trace j), c.seq = c'.seq → c = c') :
    (plainOf (p.published i) <+: plainOf (q.published j) ∨
      plainOf (q.published j) <+: plainOf (p.published i)) ∧
    ((consumedOf (p.trace i)).length ≤ (consumedOf (q.trace j)).length → q.CaughtUp j →
      plainOf (p.published i) <+: plainOf (q.published j)) := by
  have hp := (running_make pb hmake).run hrun
  have hq := (running_make pb hmake').run hrun'
  have hcfgs : p.cfgs i = q.cfgs j := by rw [cfgs_run hmake hrun, cfgs_run hmake' hrun', hcfgs]
  refine ⟨?_, published_mono hp hq hcfgs hsame⟩
  rcases le_total (consumedOf (p.trace i)).length (consumedOf (q.trace j)).length with hle | hle
  · exact published_comparable hp hq hcfgs (submitted_mono hp hq hsame hle)
  · refine (published_comparable hq hp hcfgs.symm (submitted_mono hq hp ?_ hle)).symm
    exact fun c hc c' hc' hseq => (hsame c' hc' c hc hseq.symm).symm

/-- A process is left in the middle of two commands, and another takes both to the end. -/
theorem agreement_after_restart :
    ∃ p₀ p q, make 1 [{ id := 1, partition := 0, cfg := { poolCapacity := 4 } }] {} "sequencer" = .ok p₀ ∧
      p₀.run generated (cancelsThenStop.take 9) = some p ∧ p₀.run generated cancelsThenStop = some q ∧
      (plainOf (p.published 0)).length = 1 ∧ (plainOf (q.published 0)).length = 2 ∧
      plainOf (p.published 0) <+: plainOf (q.published 0) := by
  have hchain : ((make 1 [{ id := 1, partition := 0, cfg := { poolCapacity := 4 } }] {}
      "sequencer").toOption.bind fun p₀ => (p₀.run generated (cancelsThenStop.take 9)).bind fun p =>
        (p₀.run generated cancelsThenStop).map fun q =>
          ((plainOf (p.published 0)).length, (plainOf (q.published 0)).length, q.phase,
            consumedOf (p.trace 0), consumedOf (q.trace 0))) =
      some (1, 2, .stopped, [SequencerFeed.cancelAt 1, SequencerFeed.cancelAt 2],
        [SequencerFeed.cancelAt 1, SequencerFeed.cancelAt 2]) := by decide +kernel
  obtain ⟨p₀, hmake, hchain⟩ := Option.bind_eq_some_iff.mp hchain
  obtain ⟨p, hrun, hchain⟩ := Option.bind_eq_some_iff.mp hchain
  obtain ⟨q, hrun', hlast⟩ := Option.map_eq_some_iff.mp hchain
  simp only [Prod.mk.injEq] at hlast
  obtain ⟨hone, htwo, hphase, hconsumed, hconsumed'⟩ := hlast
  have hmake := EngineNode.ok_of_toOption hmake
  have hsame : ∀ c ∈ consumedOf (p.trace 0), ∀ c' ∈ consumedOf (q.trace 0), c.seq = c'.seq → c = c' := by
    rw [hconsumed, hconsumed']
    simp [SequencerFeed.cancelAt]
  obtain ⟨-, hless⟩ :=
    agreement generated _ _ _ _ _ _ _ _ p₀ p₀ hmake hmake _ _ p q hrun hrun' 0 0 rfl hsame
  exact ⟨p₀, p, q, hmake, hrun, hrun', hone, htwo,
    hless (by rw [hconsumed, hconsumed']) (Or.inl hphase)⟩

end Process

end OrderBookEngine
