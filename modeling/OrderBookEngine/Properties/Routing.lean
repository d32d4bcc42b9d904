import OrderBookEngine.Properties.Serving
import OrderBookEngine.Server.Router

/-!
# The threads of a router

Whatever the threads of a router do in between, each worker is a sequential worker on the commands that
were pushed into its inbox ahead of its shutdown (`Attends`), and every command that has been numbered is in
one place: in a call of `submit`, in an inbox, or taken by a worker (`Router.Counted`). Both are kept by every
step (`Router.Sound`).
-/

namespace OrderBookEngine

/-! ## What the threads do -/

/-- The shutdown has waited for the worker. -/
def Stopping.joined (workerCount i : ℕ) : Stopping → Bool
  | no => false
  | worker k _ => decide (i < workerCount ∧ i < k)
  | done => decide (i < workerCount)

namespace Router

variable {r r' : Router} {i : ℕ}

/-- The books that a worker was given. -/
def cfgs (r : Router) (i : ℕ) : SymbolId → Option Config := cfgsOf r.instruments i

/-- What has been pushed for the symbols of a worker. -/
def shown (r : Router) (i : ℕ) : List Output := outputsOf (r.cfgs i) r.outbox

/-- The commands that were pushed ahead of the shutdown of a worker. -/
def acceptedBy (r : Router) (i : ℕ) : List Stamped :=
  (r.accepted.filter fun x => x.1 = i).map Prod.snd

/-- Nothing is queued for a worker, and nothing by it. -/
def Drained (r : Router) (i : ℕ) : Prop := (r.threads i).inbox = [] ∧ (r.threads i).worker.outbox = []

/-- The calls that may throw. -/
def Action.throws : Action → Bool
  | addSymbol _ _ _ | start | submit _ => true
  | _ => false

/-- What a step does. -/
inductive Does (r r' : Router) : Action → Prop
  /-- A symbol is added. -/
  | adds (symbol : SymbolId) (i : ℕ) (cfg : Config) (early : r.started = false) (bound : i < r.workerCount)
      (free : r.routes symbol = none) (eq : r' = { r with
        threads := Function.update r.threads i { r.threads i with
          worker := { (r.threads i).worker with
            books := Function.update (r.threads i).worker.books symbol (some { book := Book.make cfg }) } }
        routes := Function.update r.routes symbol (some i)
        instruments := r.instruments ++ [{ id := symbol, partition := i, cfg }] }) :
      Does r r' (.addSymbol symbol i cfg)
  /-- The router starts. -/
  | starts (early : r.started = false) (eq : r' = { r with started := true, running := true }) :
      Does r r' .start
  /-- A call throws. -/
  | fails {a : Action} (error : RouterError) (throws : a.throws = true)
      (eq : r' = { r with failed := r.failed ++ [error] }) : Does r r' a
  /-- A command is refused. -/
  | refuses (command : Command) (result : SubmitResult) (refused : result ≠ .queued)
      (unknown : result = .unknownSymbol → command.symbol?.bind r.routes = none)
      (eq : r' = r.return_ command result) : Does r r' (.submit command)
  /-- A command is on its way to the worker of its symbol. -/
  | submits (command : Command) (symbol : SymbolId) (i : ℕ) (running : r.running = true)
      (plain : command.isSnapshot = false) (symbol_eq : command.symbol? = some symbol)
      (route : r.routes symbol = some i)
      (eq : r' = { r with submissions := r.submissions ++ [{ worker := i, command }] }) :
      Does r r' (.submit command)
  /-- A command gets the next number. -/
  | stamps (k : ℕ) (now : ℤ) (i : ℕ) (command : Command) (item : Stamped) (front back : List Submission)
      (seq : item.seq = r.nextSeq) (command_eq : item.command = command)
      (split : r.submissions = front ++ ⟨i, command, none⟩ :: back)
      (eq : r' = { r with
        nextSeq := (r.nextSeq + 1) % 2 ^ 64
        submissions := front ++ ⟨i, command, some item⟩ :: back
        issued := r.issued ++ [item] }) : Does r r' (.stamp k now)
  /-- A command is queued. -/
  | accepts (k i : ℕ) (command : Command) (item : Stamped) (front back : List Submission)
      (split : r.submissions = front ++ ⟨i, command, some item⟩ :: back)
      (ahead : r.stopping.pilled r.workerCount i = false)
      (eq : r' = { (r.push i item).return_ command .queued with
        submissions := front ++ back, accepted := r.accepted ++ [(i, item)] }) : Does r r' (.enqueue k)
  /-- A command is queued behind the shutdown. -/
  | misses (k i : ℕ) (command : Command) (item : Stamped) (front back : List Submission)
      (split : r.submissions = front ++ ⟨i, command, some item⟩ :: back)
      (behind : r.stopping.pilled r.workerCount i = true)
      (eq : r' = { (r.push i item).return_ command .queued with
        submissions := front ++ back, late := r.late ++ [(i, item)] }) : Does r r' (.enqueue k)
  /-- A worker takes an item. -/
  | works (i : ℕ) (t : WorkerThread) (work : (r.threads i).work = some t)
      (eq : r' = { r with threads := Function.update r.threads i t }) : Does r r' (.work i)
  /-- A worker pushes an output. -/
  | pushes (i : ℕ) (output : Output) (outputs : List Output)
      (pending : (r.threads i).worker.outbox = output :: outputs)
      (eq : r' = { r with
        threads := Function.update r.threads i
          { r.threads i with worker := { (r.threads i).worker with outbox := outputs } }
        outbox := r.outbox ++ [output] }) : Does r r' (.pushOutput i)
  /-- The shutdown begins. -/
  | halts (started : r.started = true) (first : r.stopping = .no)
      (eq : r' = { r with running := false, stopping := .worker 0 false }) : Does r r' .shutdown
  /-- A worker is told to stop. -/
  | calls (i : ℕ) (at_ : r.stopping = .worker i false) (bound : i < r.workerCount)
      (eq : r' = { r.push i { command := .shutdown } with stopping := .worker i true }) : Does r r' .shutdown
  /-- A worker is joined. -/
  | joins (i : ℕ) (at_ : r.stopping = .worker i true) (returned : (r.threads i).returned = true)
      (eq : r' = { r with stopping := .worker (i + 1) false }) : Does r r' .shutdown
  /-- All workers have been joined. -/
  | ends (i : ℕ) (at_ : r.stopping = .worker i false) (bound : r.workerCount ≤ i)
      (eq : r' = { r with stopping := .done }) : Does r r' .shutdown
  /-- The shutdown has nothing to do. -/
  | stays (nothing : r.stopping = .no ∧ r.started = false ∨ r.stopping = .done) (eq : r' = r) :
      Does r r' .shutdown

/-- A list is cut at one of its places. -/
theorem split_at {α : Type} {xs : List α} {k : ℕ} {x : α} (h : xs[k]? = some x) :
    ∃ front back, xs = front ++ x :: back ∧ xs.eraseIdx k = front ++ back ∧
      ∀ y, xs.set k y = front ++ y :: back := by
  obtain ⟨hk, rfl⟩ := List.getElem?_eq_some_iff.mp h
  refine ⟨xs.take k, xs.drop (k + 1), ?_, List.eraseIdx_eq_take_drop_succ .., fun y => ?_⟩
  · rw [← List.drop_eq_getElem_cons hk, List.take_append_drop]
  · rw [List.set_eq_take_append_cons_drop, if_pos hk]

/-- What `add_symbol` does is one of the steps. -/
theorem does_of_addSymbol {symbol : SymbolId} {cfg : Config} :
    Does r (r.settle (r.addSymbol symbol i cfg)) (.addSymbol symbol i cfg) := by
  unfold addSymbol
  split_ifs with hstarted hbound hroute
  · exact .fails _ rfl rfl
  · exact .fails _ rfl rfl
  · exact .fails _ rfl rfl
  · unfold Worker.addBook
    split_ifs
    · exact .fails _ rfl rfl
    · exact .adds symbol i cfg (Bool.not_eq_true _ ▸ hstarted) (not_le.mp hbound)
        (Option.not_isSome_iff_eq_none.mp hroute) rfl

/-- What `submit` does is one of the steps. -/
theorem does_of_submit {command : Command} :
    Does r (r.settle (r.submit command)) (.submit command) := by
  unfold submit
  split_ifs with hrunning
  · exact .refuses command .notRunning (by simp) (by simp) rfl
  · cases hfind : command.symbol?.bind r.routes with
    | none =>
      cases command with
      | shutdown => exact .fails _ rfl rfl
      | takeSnapshot symbol subscriber => exact .fails _ rfl rfl
      | _ =>
        simp only
        exact .refuses _ .unknownSymbol (by simp) (fun _ => hfind) rfl
    | some worker =>
      obtain ⟨symbol, hsymbol, hroute⟩ := Option.bind_eq_some_iff.mp hfind
      have hrunning : r.running = true := by simpa using hrunning
      cases command with
      | shutdown => exact .fails _ rfl rfl
      | takeSnapshot symbol subscriber => exact .fails _ rfl rfl
      | _ =>
        simp only
        exact .submits _ symbol worker hrunning rfl hsymbol hroute rfl

/-- What the end of a submission does is one of the steps. -/
theorem does_of_enqueue {k : ℕ} (hstep : r.enqueue k = some r') : Does r r' (.enqueue k) := by
  unfold enqueue at hstep
  cases hfind : r.submissions[k]? with
  | none => simp [hfind] at hstep
  | some submission =>
    obtain ⟨i, command, stamped⟩ := submission
    cases stamped with
    | none => simp [hfind] at hstep
    | some item =>
      obtain ⟨front, back, hsplit, herase, -⟩ := split_at hfind
      simp only [hfind, herase] at hstep
      split_ifs at hstep with hpilled
      · exact .misses k i command item front back hsplit hpilled (Option.some.inj hstep).symm
      · exact .accepts k i command item front back hsplit (Bool.not_eq_true _ ▸ hpilled)
          (Option.some.inj hstep).symm

/-- What `shutdown` does is one of the steps. -/
theorem does_of_shutdown (hstep : r.shutdown = some r') : Does r r' .shutdown := by
  unfold shutdown at hstep
  cases hat : r.stopping with
  | no =>
    simp only [hat] at hstep
    split_ifs at hstep with hstarted
    · exact .halts hstarted hat (Option.some.inj hstep).symm
    · exact .stays (Or.inl ⟨hat, Bool.not_eq_true _ ▸ hstarted⟩) (Option.some.inj hstep).symm
  | worker i called =>
    cases called with
    | false =>
      simp only [hat] at hstep
      split_ifs at hstep with hbound
      · exact .calls i hat hbound (Option.some.inj hstep).symm
      · exact .ends i hat (not_lt.mp hbound) (Option.some.inj hstep).symm
    | true =>
      simp only [hat] at hstep
      split_ifs at hstep with hreturned
      exact .joins i hat hreturned (Option.some.inj hstep).symm
  | done =>
    simp only [hat] at hstep
    exact .stays (Or.inr hat) (Option.some.inj hstep).symm

/-- Every action is one of the steps. -/
theorem does_of_step {a : Action} (hstep : r.step a = some r') : Does r r' a := by
  cases a with
  | addSymbol symbol i cfg => exact Option.some.inj hstep ▸ does_of_addSymbol
  | start =>
    obtain rfl := Option.some.inj hstep
    unfold start
    split_ifs with hstarted
    · exact .fails _ rfl rfl
    · exact .starts (Bool.not_eq_true _ ▸ hstarted) rfl
  | submit command => exact Option.some.inj hstep ▸ does_of_submit
  | stamp k now =>
    replace hstep : r.stamp k now = some r' := hstep
    unfold stamp at hstep
    cases hfind : r.submissions[k]? with
    | none => simp [hfind] at hstep
    | some submission =>
      obtain ⟨i, command, stamped⟩ := submission
      cases stamped with
      | some item => simp [hfind] at hstep
      | none =>
        -- Writing at the index replaces the submission between the others.
        obtain ⟨front, back, hsplit, -, hset⟩ := split_at hfind
        simp only [hfind, hset] at hstep
        exact .stamps k now i command _ front back rfl rfl hsplit (Option.some.inj hstep).symm
  | enqueue k => exact does_of_enqueue hstep
  | work i =>
    obtain ⟨t, hwork, rfl⟩ := Option.map_eq_some_iff.mp hstep
    exact .works i t hwork rfl
  | pushOutput i =>
    replace hstep : r.pushOutput i = some r' := hstep
    unfold pushOutput at hstep
    cases hpending : (r.threads i).worker.outbox with
    | nil => simp [hpending] at hstep
    | cons output outputs =>
      simp only [hpending] at hstep
      exact .pushes i output outputs hpending (Option.some.inj hstep).symm
  | shutdown => exact does_of_shutdown hstep

/-! ## Between the steps -/

/-- Where the commands are: each has been numbered once, and is then in a call of `submit` or in an inbox. -/
structure Counted (r : Router) : Prop where
  /-- The commands are numbered from one on, modulo `2^64`. -/
  seqs : r.issued.map Stamped.seq = (List.range r.issued.length).map fun k => (k + 1) % 2 ^ 64
  /-- The next number is the one after them. -/
  nextSeq : r.nextSeq = (r.issued.length + 1) % 2 ^ 64
  /-- Every command numbered is in an inbox, or in a call of `submit`. -/
  issued : r.issued.Perm
    ((r.accepted ++ r.late).map Prod.snd ++ r.submissions.filterMap Submission.stamped)
  /-- The commands reported as queued are those in the inboxes. -/
  queued : ((r.returned.filter fun x => x.2 = .queued).map Prod.fst).Perm
    ((r.accepted ++ r.late).map fun x => x.2.command)
  /-- A submission stamps its own command. -/
  stamped : ∀ s ∈ r.submissions, ∀ item, s.stamped = some item → item.command = s.command
  /-- The commands of the server itself are not among them. -/
  plain : (∀ s ∈ r.submissions, s.command.isSnapshot = false) ∧
    ∀ x ∈ r.accepted ++ r.late, x.2.command.isSnapshot = false

/-- A submission may be taken out of the list. -/
theorem stamped_split (front back : List Submission) (s : Submission) :
    ((front ++ s :: back).filterMap Submission.stamped).Perm
      (s.stamped.toList ++ (front ++ back).filterMap Submission.stamped) := by
  rw [List.filterMap_append, List.filterMap_append]
  cases hs : s.stamped with
  | none => rw [List.filterMap_cons_none hs, Option.toList_none, List.nil_append]
  | some item =>
    rw [List.filterMap_cons_some hs]
    exact List.perm_middle

namespace Counted

/-- A new router counts. -/
theorem make {workerCount : ℕ} {clock : Bool} (h : make workerCount clock = .ok r) : r.Counted := by
  unfold Router.make at h
  split_ifs at h
  obtain rfl := Except.ok.inj h
  exact ⟨rfl, rfl, .nil, .nil, fun s hs => absurd hs List.not_mem_nil,
    fun s hs => absurd hs List.not_mem_nil, fun x hx => absurd hx List.not_mem_nil⟩

/-- A submission leaves its call, and has been queued. -/
theorem push (h : r.Counted) {front back : List Submission} {command : Command} {item : Stamped}
    {accepted late : List (ℕ × Stamped)} (hsplit : r.submissions = front ++ ⟨i, command, some item⟩ :: back)
    (hpushed : (accepted ++ late).Perm ((i, item) :: (r.accepted ++ r.late))) :
    Counted { (r.push i item).return_ command .queued with submissions := front ++ back, accepted, late } := by
  obtain ⟨hseqs, hnextSeq, hissued, hqueued, hstamped, hplain, hplain'⟩ := h
  have hmem : (⟨i, command, some item⟩ : Submission) ∈ r.submissions :=
    hsplit ▸ List.mem_append_right _ List.mem_cons_self
  have hrest : ∀ s ∈ front ++ back, s ∈ r.submissions := by
    intro s hs
    rw [hsplit]
    rcases List.mem_append.mp hs with hs | hs
    · exact List.mem_append_left _ hs
    · exact List.mem_append_right _ (List.mem_cons_of_mem _ hs)
  have hcommand : item.command = command := hstamped _ hmem item rfl
  constructor
  case seqs => exact hseqs
  case nextSeq => exact hnextSeq
  case issued =>
    -- Its number moves from the submissions to the items that have been pushed.
    have hsubmissions := hsplit ▸ stamped_split front back ⟨i, command, some item⟩
    calc r.issued
      _ |>.Perm ((r.accepted ++ r.late).map Prod.snd ++
            (item :: (front ++ back).filterMap Submission.stamped)) :=
          hissued.trans (hsubmissions.append_left _)
      _ |>.Perm (((i, item) :: (r.accepted ++ r.late)).map Prod.snd ++
            (front ++ back).filterMap Submission.stamped) := List.perm_middle
      _ |>.Perm ((accepted ++ late).map Prod.snd ++ (front ++ back).filterMap Submission.stamped) :=
          (hpushed.symm.map Prod.snd).append_right _
  case queued =>
    have hreturned : ((r.push i item).return_ command .queued).returned = r.returned ++ [(command, .queued)] := rfl
    show ((((r.push i item).return_ command .queued).returned.filter _).map Prod.fst).Perm _
    rw [hreturned, List.filter_append, List.map_append]
    refine List.perm_append_comm.trans ((hqueued.cons command).trans ?_)
    rw [← hcommand]
    exact (hpushed.map fun x => x.2.command).symm
  case stamped => exact fun s hs => hstamped s (hrest s hs)
  case plain =>
    refine ⟨fun s hs => hplain s (hrest s hs), fun x hx => ?_⟩
    rcases List.mem_cons.mp (hpushed.mem_iff.mp hx) with rfl | hx
    · exact (congrArg _ hcommand).trans (hplain _ hmem)
    · exact hplain' x hx

/-- Every step keeps the count. -/
theorem step {a : Action} (h : r.Counted) (hdoes : Does r r' a) : r'.Counted := by
  have hsame : ∀ {r' : Router}, r'.issued = r.issued → r'.nextSeq = r.nextSeq → r'.accepted = r.accepted →
      r'.late = r.late → r'.submissions = r.submissions → r'.returned = r.returned → r'.Counted := by
    intro r' hissued hnextSeq haccepted hlate hsubmissions hreturned
    constructor
    case seqs => rw [hissued]; exact h.seqs
    case nextSeq => rw [hissued, hnextSeq]; exact h.nextSeq
    case issued => rw [hissued, haccepted, hlate, hsubmissions]; exact h.issued
    case queued => rw [hreturned, haccepted, hlate]; exact h.queued
    case stamped => rw [hsubmissions]; exact h.stamped
    case plain => rw [hsubmissions, haccepted, hlate]; exact h.plain
  cases hdoes with
  | refuses command result refused unknown eq =>
    subst eq
    refine ⟨h.seqs, h.nextSeq, h.issued, ?_, h.stamped, h.plain⟩
    show (((r.returned ++ [(command, result)]).filter _).map Prod.fst).Perm _
    rw [List.filter_append, List.filter_cons_of_neg (by simpa using refused), List.filter_nil, List.append_nil]
    exact h.queued
  -- A call under way has no number yet.
  | submits command symbol i running plain symbol_eq route eq =>
    subst eq
    refine ⟨h.seqs, h.nextSeq, ?_, h.queued, fun s hs item hitem => ?_, fun s hs => ?_, h.plain.2⟩
    · show r.issued.Perm (_ ++ (r.submissions ++ [⟨i, command, none⟩] : List Submission).filterMap Submission.stamped)
      rw [List.filterMap_append, List.filterMap_cons_none rfl, List.filterMap_nil, List.append_nil]
      exact h.issued
    · rcases List.mem_append.mp hs with hs | hs
      · exact h.stamped s hs item hitem
      · rw [List.mem_singleton.mp hs] at hitem
        cases hitem
    · rcases List.mem_append.mp hs with hs | hs
      · exact h.plain.1 s hs
      · exact List.mem_singleton.mp hs ▸ plain
  | stamps k now i command item front back seq command_eq split eq =>
    subst eq
    obtain ⟨hseqs, hnextSeq, hissued, hqueued, hstamped, hplain, hplain'⟩ := h
    refine ⟨?_, ?_, ?_, hqueued, fun s hs x hx => ?_, fun s hs => ?_, hplain'⟩
    · show (r.issued ++ [item]).map Stamped.seq = (List.range (r.issued ++ [item]).length).map _
      -- The numbers are those of a counter of 64 bits, in the order of the calls that took them.
      rw [List.map_append, hseqs, List.length_append, List.length_singleton, List.range_succ, List.map_append,
        List.map_singleton, List.map_singleton, seq, hnextSeq]
    · show (r.nextSeq + 1) % 2 ^ 64 = ((r.issued ++ [item]).length + 1) % 2 ^ 64
      rw [hnextSeq, List.length_append, List.length_singleton, Nat.mod_add_mod]
    -- The new item is that of a call under way.
    · have hbefore := split ▸ stamped_split front back ⟨i, command, none⟩
      have hafter := stamped_split front back ⟨i, command, some item⟩
      calc r.issued ++ [item]
        _ |>.Perm (item :: r.issued) := List.perm_append_comm
        _ |>.Perm (item :: ((r.accepted ++ r.late).map Prod.snd ++
              (front ++ back).filterMap Submission.stamped)) := (hissued.trans (hbefore.append_left _)).cons item
        _ |>.Perm ((r.accepted ++ r.late).map Prod.snd ++
              (item :: (front ++ back).filterMap Submission.stamped)) := List.perm_middle.symm
        _ |>.Perm ((r.accepted ++ r.late).map Prod.snd ++
              (front ++ ⟨i, command, some item⟩ :: back).filterMap Submission.stamped) :=
            hafter.symm.append_left _
    · rcases List.mem_append.mp hs with hs | hs
      · exact hstamped s (split ▸ List.mem_append_left _ hs) x hx
      · rcases List.mem_cons.mp hs with rfl | hs
        · exact Option.some.inj hx ▸ command_eq
        · exact hstamped s (split ▸ List.mem_append_right _ (List.mem_cons_of_mem _ hs)) x hx
    · rcases List.mem_append.mp hs with hs | hs
      · exact hplain s (split ▸ List.mem_append_left _ hs)
      · rcases List.mem_cons.mp hs with rfl | hs
        · exact hplain ⟨i, command, none⟩ (split ▸ List.mem_append_right _ List.mem_cons_self)
        · exact hplain s (split ▸ List.mem_append_right _ (List.mem_cons_of_mem _ hs))
  | accepts k i command item front back split ahead eq =>
    subst eq
    refine h.push split ?_
    rw [List.append_assoc]
    exact List.perm_middle
  | misses k i command item front back split behind eq =>
    subst eq
    refine h.push split ?_
    rw [← List.append_assoc]
    exact List.perm_append_comm
  | adds symbol i cfg early bound free eq => exact eq ▸ hsame rfl rfl rfl rfl rfl rfl
  | starts early eq => exact eq ▸ hsame rfl rfl rfl rfl rfl rfl
  | fails error throws eq => exact eq ▸ hsame rfl rfl rfl rfl rfl rfl
  | works i t work eq => exact eq ▸ hsame rfl rfl rfl rfl rfl rfl
  | pushes i output outputs pending eq => exact eq ▸ hsame rfl rfl rfl rfl rfl rfl
  | halts started first eq => exact eq ▸ hsame rfl rfl rfl rfl rfl rfl
  | calls i at_ bound eq => exact eq ▸ hsame rfl rfl rfl rfl rfl rfl
  | joins i at_ returned eq => exact eq ▸ hsame rfl rfl rfl rfl rfl rfl
  | ends i at_ bound eq => exact eq ▸ hsame rfl rfl rfl rfl rfl rfl
  | stays nothing eq => exact eq ▸ h

end Counted

/-- What the threads rely on. -/
structure Sound (r : Router) : Prop where
  /-- No symbol is listed twice, and every one at a worker. -/
  listed : Listed r.workerCount r.instruments
  /-- The routes lead to the instruments' workers. -/
  routes : r.routes = fun symbol => (r.instruments.find? fun x => x.id = symbol).map Instrument.partition
  /-- Before the start there are only symbols. -/
  early : r.started = false → r.running = false ∧ r.stopping = .no ∧ r.outbox = [] ∧ r.submissions = [] ∧
    r.accepted = [] ∧ ∀ i, r.threads i = { worker := Worker.make (r.cfgs i) }
  /-- Every thread attends to the commands accepted for it. -/
  attends : ∀ i, Attends (r.cfgs i) (r.shown i) (r.stopping.pilled r.workerCount i) (r.threads i)
    (r.acceptedBy i)
  /-- All that has been pushed is for a symbol of some worker. -/
  known : ∀ o ∈ r.outbox, ∃ i, (o.symbol?.bind (r.cfgs i)).isSome
  /-- A submission is for a symbol of its worker. -/
  routed : ∀ s ∈ r.submissions, ∃ symbol cfg, s.command.symbol? = some symbol ∧
    r.cfgs s.worker symbol = some cfg
  /-- A thread that has been joined has returned. -/
  joined : ∀ i, r.stopping.joined r.workerCount i = true → (r.threads i).returned = true
  /-- The worker waited for is one of the workers. -/
  within : ∀ i, r.stopping = .worker i true → i < r.workerCount
  /-- Once stopping, the router is not running. -/
  halted : r.stopping ≠ .no → r.running = false
  /-- Nothing is late before the stop. -/
  timely : r.stopping = .no → r.late = []
  /-- The commands are counted. -/
  counted : r.Counted

namespace Sound

/-- A new router is sound. -/
theorem make {workerCount : ℕ} {clock : Bool} (h : make workerCount clock = .ok r) : r.Sound := by
  have hcounted := Counted.make h
  unfold Router.make at h
  split_ifs at h
  obtain rfl := Except.ok.inj h
  constructor
  case listed => exact ⟨List.nodup_nil, fun x hx => absurd hx List.not_mem_nil⟩
  case routes => rfl
  case early => exact fun _ => ⟨rfl, rfl, rfl, rfl, rfl, fun _ => rfl⟩
  case attends => exact fun i => Attends.make _
  case known => exact fun o ho => absurd ho List.not_mem_nil
  case routed => exact fun s hs => absurd hs List.not_mem_nil
  case joined => exact fun i hi => by cases hi
  case within => exact fun i hi => by cases hi
  case halted => exact fun _ => rfl
  case timely => exact fun _ => rfl
  case counted => exact hcounted

/-- A symbol is added before the start. -/
theorem adds {symbol : SymbolId} {cfg : Config} (h : r.Sound) (hearly : r.started = false)
    (hbound : i < r.workerCount) (hfree : r.routes symbol = none)
    (heq : r' = { r with
      threads := Function.update r.threads i { r.threads i with
        worker := { (r.threads i).worker with
          books := Function.update (r.threads i).worker.books symbol (some { book := Book.make cfg }) } }
      routes := Function.update r.routes symbol (some i)
      instruments := r.instruments ++ [{ id := symbol, partition := i, cfg }] })
    (hcounted : r'.Counted) : r'.Sound := by
  obtain ⟨hrunning, hstopping, houtbox, hsubmissions, haccepted, hthreads⟩ := h.early hearly
  have hfree : symbol ∉ r.instruments.map Instrument.id := by
    rw [h.routes] at hfree
    exact Keyed.find?_eq_none.mp (Option.map_eq_none_iff.mp hfree)
  -- The symbol is new, so its book is new to the worker.
  have hnone : cfgsOf r.instruments i symbol = none := by
    by_contra hsome
    obtain ⟨cfg', hcfg'⟩ := Option.ne_none_iff_exists'.mp hsome
    obtain ⟨x, hx, rfl, -⟩ := Listed.of_cfgsOf hcfg'
    exact hfree (List.mem_map_of_mem hx)
  -- Before the start every worker is as its books make it, and nothing has happened.
  have hworkers : ∀ j, r'.threads j = { worker := Worker.make (r'.cfgs j) } := by
    intro j
    subst heq
    show Function.update r.threads i _ j = { worker := Worker.make (cfgsOf (r.instruments ++ [_]) j) }
    rw [EngineNode.make_concat hnone]
    split_ifs with hj
    · rw [hj, Function.update_self, hthreads]
      rfl
    · rw [Function.update_of_ne hj, hthreads]
      rfl
  have hstopping' : r'.stopping = .no := heq ▸ hstopping
  have hshown : ∀ j, r'.shown j = [] := fun j => by
    unfold shown
    rw [show r'.outbox = [] from heq ▸ houtbox]
    rfl
  have hitems : ∀ j, r'.acceptedBy j = [] := fun j => by
    unfold acceptedBy
    rw [show r'.accepted = [] from heq ▸ haccepted]
    rfl
  constructor
  case listed =>
    subst heq
    constructor
    · rw [List.map_append, List.map_singleton]
      refine List.nodup_append.mpr ⟨h.listed.nodup, List.nodup_singleton _, fun x hx y hy hxy => ?_⟩
      have hxy : x = symbol := hxy.trans (List.mem_singleton.mp hy)
      exact hfree (hxy ▸ hx)
    · intro x hx
      rcases List.mem_append.mp hx with hx | hx
      · exact h.listed.within x hx
      · rw [List.mem_singleton.mp hx]
        exact hbound
  case routes =>
    subst heq
    funext other
    show Function.update r.routes symbol (some i) other = ((r.instruments ++ [_]).find? _).map _
    rw [List.find?_append, List.find?_singleton, Option.map_or, h.routes]
    by_cases hother : other = symbol
    · subst hother
      rw [Function.update_self, Keyed.find?_eq_none.mpr hfree]
      simp
    · rw [Function.update_of_ne hother, if_neg (by simpa using fun heq => hother heq.symm)]
      exact (Option.or_none).symm
  case early =>
    subst heq
    exact fun _ => ⟨hrunning, hstopping, houtbox, hsubmissions, haccepted, hworkers⟩
  case attends =>
    intro j
    rw [hshown, hitems, hworkers, hstopping']
    exact Attends.make _
  case known =>
    subst heq
    intro o ho
    rw [show r.outbox = [] from houtbox] at ho
    exact absurd ho List.not_mem_nil
  case routed =>
    subst heq
    intro s hs
    rw [show r.submissions = [] from hsubmissions] at hs
    exact absurd hs List.not_mem_nil
  case joined =>
    intro j hj
    rw [hstopping'] at hj
    cases hj
  case within =>
    intro j hj
    rw [hstopping'] at hj
    cases hj
  case halted => exact fun hno => absurd hstopping' hno
  case timely =>
    subst heq
    exact h.timely
  case counted => exact hcounted

/-- The threads of the workers do nothing. -/
theorem same (h : r.Sound) (hcount : r'.workerCount = r.workerCount)
    (hinstruments : r'.instruments = r.instruments) (hroutes : r'.routes = r.routes)
    (hthreads : r'.threads = r.threads) (houtbox : r'.outbox = r.outbox) (haccepted : r'.accepted = r.accepted)
    (hlate : r'.late = r.late) (hstopping : r'.stopping = r.stopping)
    (hearly : r'.started = false → r.started = false ∧ r'.running = false ∧ r'.submissions = [])
    (hrouted : ∀ s ∈ r'.submissions, ∃ symbol cfg, s.command.symbol? = some symbol ∧
      r.cfgs s.worker symbol = some cfg) (hhalted : r'.stopping ≠ .no → r'.running = false)
    (hcounted : r'.Counted) : r'.Sound := by
  have hcfgs : r'.cfgs = r.cfgs := by
    unfold cfgs
    rw [hinstruments]
  constructor
  case listed => rw [hcount, hinstruments]; exact h.listed
  case routes => rw [hroutes, hinstruments]; exact h.routes
  case early =>
    intro hnot
    obtain ⟨hnot, hrunning, hsubmissions⟩ := hearly hnot
    obtain ⟨-, hidle, hempty, -, hnone, hfresh⟩ := h.early hnot
    rw [hstopping, houtbox, haccepted, hthreads, hcfgs]
    exact ⟨hrunning, hidle, hempty, hsubmissions, hnone, hfresh⟩
  case attends =>
    unfold shown acceptedBy
    rw [hcfgs, hcount, hthreads, houtbox, haccepted, hstopping]
    exact h.attends
  case known => rw [hcfgs, houtbox]; exact h.known
  case routed => rw [hcfgs]; exact hrouted
  case joined => rw [hcount, hthreads, hstopping]; exact h.joined
  case within => rw [hcount, hstopping]; exact h.within
  case halted => exact hhalted
  case timely => rw [hlate, hstopping]; exact h.timely
  case counted => exact hcounted

/-- One worker moves, or the shutdown does. -/
theorem moves (h : r.Sound) (i : ℕ) (hstarted : r'.started = true) (hcount : r'.workerCount = r.workerCount)
    (hinstruments : r'.instruments = r.instruments) (hroutes : r'.routes = r.routes)
    (hthreads : ∀ j, j ≠ i → r'.threads j = r.threads j)
    (hpilled : ∀ j, j ≠ i → r'.stopping.pilled r.workerCount j = r.stopping.pilled r.workerCount j)
    (hother : ∀ j, j ≠ i → r'.shown j = r.shown j ∧ r'.acceptedBy j = r.acceptedBy j)
    (hattends : Attends (r.cfgs i) (r'.shown i) (r'.stopping.pilled r.workerCount i) (r'.threads i)
      (r'.acceptedBy i))
    (hjoined : ∀ j, r'.stopping.joined r.workerCount j = true → (r'.threads j).returned = true)
    (hwithin : ∀ j, r'.stopping = .worker j true → j < r.workerCount)
    (hknown : ∀ o ∈ r'.outbox, ∃ i, (o.symbol?.bind (r.cfgs i)).isSome)
    (hrouted : ∀ s ∈ r'.submissions, s ∈ r.submissions) (hhalted : r'.stopping ≠ .no → r'.running = false)
    (htimely : r'.stopping = .no → r'.late = []) (hcounted : r'.Counted) : r'.Sound := by
  have hcfgs : r'.cfgs = r.cfgs := by
    unfold cfgs
    rw [hinstruments]
  constructor
  case listed => rw [hcount, hinstruments]; exact h.listed
  case routes => rw [hroutes, hinstruments]; exact h.routes
  case early => exact fun hearly => absurd (hstarted.symm.trans hearly) Bool.noConfusion
  case attends =>
    intro j
    rw [hcfgs, hcount]
    -- Of the workers, one moves.
    by_cases hj : j = i
    · exact hj ▸ hattends
    · rw [hthreads j hj, hpilled j hj, (hother j hj).1, (hother j hj).2]
      exact h.attends j
  case known => rw [hcfgs]; exact hknown
  case routed => rw [hcfgs]; exact fun s hs => h.routed s (hrouted s hs)
  case joined => rw [hcount]; exact hjoined
  case within => rw [hcount]; exact hwithin
  case halted => exact hhalted
  case timely => exact htimely
  case counted => exact hcounted

/-- Nothing of this happens before the start. -/
theorem started (h : r.Sound) (hbusy : r.running = true ∨ r.stopping ≠ .no ∨ r.submissions ≠ [] ∨
    ∃ i, (r.threads i).worker.outbox ≠ [] ∨ (r.threads i).inbox ≠ []) : r.started = true := by
  rw [← Bool.not_eq_false]
  intro hearly
  obtain ⟨hrunning, hstopping, -, hsubmissions, -, hthreads⟩ := h.early hearly
  rcases hbusy with hbusy | hbusy | hbusy | ⟨i, hbusy⟩
  · rw [hrunning] at hbusy
    cases hbusy
  · exact hbusy hstopping
  · exact hbusy hsubmissions
  · rw [hthreads] at hbusy
    exact hbusy.elim (fun hbusy => hbusy rfl) fun hbusy => hbusy rfl

/-- A push leaves the other threads alone. -/
theorem threads_push (r : Router) (i : ℕ) (item : Stamped) {j : ℕ} (hj : j ≠ i) :
    (r.push i item).threads j = r.threads j := Function.update_of_ne hj ..

/-- A push adds to the inbox of its thread. -/
theorem thread_push (r : Router) (i : ℕ) (item : Stamped) :
    (r.push i item).threads i = { r.threads i with inbox := (r.threads i).inbox ++ [item] } :=
  Function.update_self ..

/-- A push returns no thread. -/
theorem returned_push (r : Router) (i : ℕ) (item : Stamped) (j : ℕ) :
    ((r.push i item).threads j).returned = (r.threads j).returned := by
  by_cases hj : j = i
  · rw [hj, thread_push]
  · rw [threads_push r i item hj]

/-- A submission that comes before the pill keeps the router sound. -/
theorem accepts {command : Command} {item : Stamped} {front back : List Submission} (h : r.Sound)
    (hsplit : r.submissions = front ++ ⟨i, command, some item⟩ :: back)
    (hahead : r.stopping.pilled r.workerCount i = false)
    (heq : r' = { (r.push i item).return_ command .queued with
      submissions := front ++ back, accepted := r.accepted ++ [(i, item)] })
    (hcounted : r'.Counted) : r'.Sound := by
  have hmem : (⟨i, command, some item⟩ : Submission) ∈ r.submissions :=
    hsplit ▸ List.mem_append_right _ List.mem_cons_self
  -- The item was routed to the worker that hosts its symbol.
  have hitem : Worker.Owned (r.cfgs i) [item] := by
    obtain ⟨symbol, cfg, hsymbol, hcfg⟩ := h.routed _ hmem
    intro x hx
    rw [List.mem_singleton.mp hx, h.counted.stamped _ hmem item rfl]
    exact ⟨symbol, cfg, hsymbol, hcfg⟩
  have hitems : ∀ j, r'.acceptedBy j = r.acceptedBy j ++ if i = j then [item] else [] := by
    intro j
    subst heq
    show ((r.accepted ++ [(i, item)]).filter _).map _ = _
    rw [List.filter_append, List.map_append]
    split_ifs with hj
    · rw [hj, List.filter_cons_of_pos (by simp)]
      rfl
    · rw [List.filter_cons_of_neg (by simpa using hj)]
      rfl
  -- Only one worker attends to the new item; the others see nothing of it.
  refine h.moves i ?_ ?_ ?_ ?_ ?_ ?_ ?_ ?_ ?_ ?_ ?_ ?_ ?_ ?_ hcounted
  · exact heq ▸ h.started (Or.inr (Or.inr (Or.inl (List.ne_nil_of_mem hmem))))
  · exact heq ▸ rfl
  · exact heq ▸ rfl
  · exact heq ▸ rfl
  · exact fun j hj => heq ▸ threads_push r i item hj
  · exact fun j _ => heq ▸ rfl
  · intro j hj
    rw [hitems, if_neg (Ne.symm hj), List.append_nil]
    exact ⟨heq ▸ rfl, rfl⟩
  · have hattends := h.attends i
    rw [hahead] at hattends
    rw [hitems, if_pos rfl]
    subst heq
    show Attends _ (r.shown i) (r.stopping.pilled r.workerCount i) ((r.push i item).threads i) _
    rw [thread_push, hahead]
    exact hattends.accept hitem
  · intro j hj
    subst heq
    exact (returned_push r i item j).trans (h.joined j hj)
  · exact heq ▸ h.within
  · exact heq ▸ h.known
  · intro s hs
    subst heq
    rw [hsplit]
    rcases List.mem_append.mp hs with hs | hs
    · exact List.mem_append_left _ hs
    · exact List.mem_append_right _ (List.mem_cons_of_mem _ hs)
  · exact heq ▸ h.halted
  · exact heq ▸ h.timely

/-- A submission that comes behind the pill keeps the router sound. -/
theorem misses {command : Command} {item : Stamped} {front back : List Submission} (h : r.Sound)
    (hsplit : r.submissions = front ++ ⟨i, command, some item⟩ :: back)
    (hbehind : r.stopping.pilled r.workerCount i = true)
    (heq : r' = { (r.push i item).return_ command .queued with
      submissions := front ++ back, late := r.late ++ [(i, item)] })
    (hcounted : r'.Counted) : r'.Sound := by
  have hmem : (⟨i, command, some item⟩ : Submission) ∈ r.submissions :=
    hsplit ▸ List.mem_append_right _ List.mem_cons_self
  refine h.moves i ?_ ?_ ?_ ?_ ?_ ?_ ?_ ?_ ?_ ?_ ?_ ?_ ?_ ?_ hcounted
  · exact heq ▸ h.started (Or.inr (Or.inr (Or.inl (List.ne_nil_of_mem hmem))))
  · exact heq ▸ rfl
  · exact heq ▸ rfl
  · exact heq ▸ rfl
  · exact fun j hj => heq ▸ threads_push r i item hj
  · exact fun j _ => heq ▸ rfl
  · exact fun j _ => heq ▸ ⟨rfl, rfl⟩
  · -- The shutdown is in the inbox already: the item comes behind it and is not served.
    have hattends := h.attends i
    rw [hbehind] at hattends
    subst heq
    show Attends _ (r.shown i) (r.stopping.pilled r.workerCount i) ((r.push i item).threads i) (r.acceptedBy i)
    rw [thread_push, hbehind]
    exact hattends.late item
  · intro j hj
    subst heq
    exact (returned_push r i item j).trans (h.joined j hj)
  · exact heq ▸ h.within
  · exact heq ▸ h.known
  · intro s hs
    subst heq
    rw [hsplit]
    rcases List.mem_append.mp hs with hs | hs
    · exact List.mem_append_left _ hs
    · exact List.mem_append_right _ (List.mem_cons_of_mem _ hs)
  · exact heq ▸ h.halted
  · intro hno
    subst heq
    rw [show r.stopping = .no from hno] at hbehind
    cases hbehind

/-- A thread that takes an item keeps the router sound. -/
theorem works {t : WorkerThread} (h : r.Sound) (hwork : (r.threads i).work = some t)
    (heq : r' = { r with threads := Function.update r.threads i t }) (hcounted : r'.Counted) :
    r'.Sound := by
  obtain ⟨hrunning, -, hinbox⟩ := (h.attends i).isSome_work.mp (by rw [hwork]; rfl)
  refine h.moves i ?_ ?_ ?_ ?_ ?_ ?_ ?_ ?_ ?_ ?_ ?_ ?_ ?_ ?_ hcounted
  · exact heq ▸ h.started (Or.inr (Or.inr (Or.inr ⟨i, Or.inr hinbox⟩)))
  · exact heq ▸ rfl
  · exact heq ▸ rfl
  · exact heq ▸ rfl
  · exact fun j hj => heq ▸ Function.update_of_ne hj ..
  · exact fun j _ => heq ▸ rfl
  · exact fun j _ => heq ▸ ⟨rfl, rfl⟩
  · subst heq
    show Attends _ (r.shown i) (r.stopping.pilled r.workerCount i) (Function.update r.threads i t i)
      (r.acceptedBy i)
    rw [Function.update_self]
    exact (h.attends i).work hwork
  · intro j hj
    subst heq
    have hj : r.stopping.joined r.workerCount j = true := hj
    show (Function.update r.threads i t j).returned = true
    -- A worker that works has not returned, so it has not been joined.
    by_cases heq : j = i
    · rw [← heq, h.joined j hj] at hrunning
      cases hrunning
    · rw [Function.update_of_ne heq]
      exact h.joined j hj
  · exact heq ▸ h.within
  · exact heq ▸ h.known
  · exact heq ▸ fun s hs => hs
  · exact heq ▸ h.halted
  · exact heq ▸ h.timely

/-- A thread that pushes an output keeps the router sound. -/
theorem pushes {output : Output} {outputs : List Output} (h : r.Sound)
    (hpending : (r.threads i).worker.outbox = output :: outputs)
    (heq : r' = { r with
      threads := Function.update r.threads i
        { r.threads i with worker := { (r.threads i).worker with outbox := outputs } }
      outbox := r.outbox ++ [output] }) (hcounted : r'.Counted) : r'.Sound := by
  obtain ⟨_, _, -, hserving, -, -⟩ := h.attends i
  obtain ⟨symbol, cfg, hsymbol, hcfg⟩ := hserving.mine output (hpending ▸ List.mem_cons_self)
  have hshown : ∀ j, r'.shown j = r.shown j ++ outputsOf (r.cfgs j) [output] := fun j => by
    subst heq
    exact outputsOf_append _ _ _
  refine h.moves i ?_ ?_ ?_ ?_ ?_ ?_ ?_ ?_ ?_ ?_ ?_ ?_ ?_ ?_ hcounted
  · exact heq ▸ h.started (Or.inr (Or.inr (Or.inr ⟨i, Or.inl (hpending ▸ List.cons_ne_nil _ _)⟩)))
  · exact heq ▸ rfl
  · exact heq ▸ rfl
  · exact heq ▸ rfl
  · exact fun j hj => heq ▸ Function.update_of_ne hj ..
  · exact fun j _ => heq ▸ rfl
  · intro j hj
    refine ⟨?_, heq ▸ rfl⟩
    -- The symbol is at no other worker.
    have hnone : r.cfgs j symbol = none := by
      by_contra hsome
      obtain ⟨cfg', hcfg'⟩ := Option.ne_none_iff_exists'.mp hsome
      exact hj (h.listed.apart hcfg' hcfg)
    rw [hshown, outputsOf_eq_nil fun o ho => by
      rw [List.mem_singleton.mp ho, hsymbol, Option.bind_some, hnone], List.append_nil]
  · rw [hshown]
    subst heq
    show Attends _ _ (r.stopping.pilled r.workerCount i) (Function.update r.threads i _ i) (r.acceptedBy i)
    rw [Function.update_self]
    exact (h.attends i).push hpending
  · intro j hj
    subst heq
    have hj : r.stopping.joined r.workerCount j = true := hj
    show (Function.update r.threads i _ j).returned = true
    by_cases heq : j = i
    · rw [heq, Function.update_self]
      exact h.joined i (heq ▸ hj)
    · rw [Function.update_of_ne heq]
      exact h.joined j hj
  · exact heq ▸ h.within
  · subst heq
    intro o ho
    rcases List.mem_append.mp ho with ho | ho
    · exact h.known o ho
    · refine ⟨i, ?_⟩
      rw [List.mem_singleton.mp ho, hsymbol, Option.bind_some, hcfg]
      rfl
  · exact heq ▸ fun s hs => hs
  · exact heq ▸ h.halted
  · exact heq ▸ h.timely

/-- The shutdown of a worker is pushed. -/
theorem calls (h : r.Sound) (hat : r.stopping = .worker i false) (hbound : i < r.workerCount)
    (heq : r' = { r.push i { command := .shutdown } with stopping := .worker i true })
    (hcounted : r'.Counted) : r'.Sound := by
  have hstopping : r'.stopping = .worker i true := heq ▸ rfl
  refine h.moves i ?_ ?_ ?_ ?_ ?_ ?_ ?_ ?_ ?_ ?_ ?_ ?_ ?_ ?_ hcounted
  · exact heq ▸ h.started (Or.inr (Or.inl (by simp [hat])))
  · exact heq ▸ rfl
  · exact heq ▸ rfl
  · exact heq ▸ rfl
  · exact fun j hj => heq ▸ threads_push r i _ hj
  · intro j hj
    rw [hstopping, hat]
    simp [Stopping.pilled, hj]
  · exact fun j _ => heq ▸ ⟨rfl, rfl⟩
  · -- The shutdown goes behind all that the worker has been sent.
    have hattends := h.attends i
    rw [hat, show (Stopping.worker i false).pilled r.workerCount i = false by simp [Stopping.pilled]] at hattends
    rw [hstopping, show (Stopping.worker i true).pilled r.workerCount i = true by
      simp [Stopping.pilled, hbound]]
    subst heq
    show Attends _ (r.shown i) true ((r.push i _).threads i) (r.acceptedBy i)
    rw [thread_push]
    exact hattends.stop
  · intro j hj
    rw [hstopping] at hj
    subst heq
    exact (returned_push r i _ j).trans (h.joined j (by rw [hat]; exact hj))
  · intro j hj
    rw [hstopping] at hj
    obtain ⟨rfl, -⟩ := Stopping.worker.inj hj
    exact hbound
  · exact heq ▸ h.known
  · exact heq ▸ fun s hs => hs
  · exact fun _ => heq ▸ h.halted (by simp [hat])
  · intro hno
    rw [hstopping] at hno
    cases hno

/-- The shutdown goes on without a worker. -/
theorem goes {stopping : Stopping} (h : r.Sound) (hstarted : r.started = true)
    (heq : r' = { r with running := false, stopping })
    (hpilled : ∀ j, stopping.pilled r.workerCount j = r.stopping.pilled r.workerCount j)
    (hjoined : ∀ j, stopping.joined r.workerCount j = true → (r.threads j).returned = true)
    (hcalled : ∀ j, stopping ≠ .worker j true) (hgoes : stopping ≠ .no) (hcounted : r'.Counted) :
    r'.Sound := by
  refine h.moves 0 ?_ ?_ ?_ ?_ ?_ ?_ ?_ ?_ ?_ ?_ ?_ ?_ ?_ ?_ hcounted
  · exact heq ▸ hstarted
  · exact heq ▸ rfl
  · exact heq ▸ rfl
  · exact heq ▸ rfl
  · exact fun j _ => heq ▸ rfl
  · exact fun j _ => heq ▸ hpilled j
  · exact fun j _ => heq ▸ ⟨rfl, rfl⟩
  · subst heq
    show Attends _ (r.shown 0) (stopping.pilled r.workerCount 0) (r.threads 0) (r.acceptedBy 0)
    rw [hpilled]
    exact h.attends 0
  · exact heq ▸ hjoined
  · exact heq ▸ fun j hj => absurd hj (hcalled j)
  · exact heq ▸ h.known
  · exact heq ▸ fun s hs => hs
  · exact fun _ => heq ▸ rfl
  · exact heq ▸ fun hno => absurd hno hgoes

/-- Every step keeps the router sound. -/
theorem step {a : Action} (h : r.Sound) (hstep : r.step a = some r') : r'.Sound := by
  have hdoes := does_of_step hstep
  have hcounted := h.counted.step hdoes
  cases hdoes with
  | adds symbol i cfg early bound free eq => exact h.adds early bound free eq hcounted
  | starts early eq =>
    refine h.same ?_ ?_ ?_ ?_ ?_ ?_ ?_ ?_ (fun hnot => ?_) ?_ ?_ hcounted <;> subst eq
    case refine_9 => cases hnot
    case refine_10 => exact h.routed
    case refine_11 => exact fun hno => absurd (h.early early).2.1 hno
    all_goals rfl
  | fails error throws eq =>
    refine h.same ?_ ?_ ?_ ?_ ?_ ?_ ?_ ?_ (fun hnot => ?_) ?_ ?_ hcounted <;> subst eq
    case refine_9 =>
      obtain ⟨hrunning, -, -, hsubmissions, -⟩ := h.early hnot
      exact ⟨hnot, hrunning, hsubmissions⟩
    case refine_10 => exact h.routed
    case refine_11 => exact h.halted
    all_goals rfl
  | refuses command result refused unknown eq =>
    refine h.same ?_ ?_ ?_ ?_ ?_ ?_ ?_ ?_ (fun hnot => ?_) ?_ ?_ hcounted <;> subst eq
    case refine_9 =>
      obtain ⟨hrunning, -, -, hsubmissions, -⟩ := h.early hnot
      exact ⟨hnot, hrunning, hsubmissions⟩
    case refine_10 => exact h.routed
    case refine_11 => exact h.halted
    all_goals rfl
  | submits command symbol i running plain symbol_eq route eq =>
    refine h.same ?_ ?_ ?_ ?_ ?_ ?_ ?_ ?_ (fun hnot => ?_) ?_ ?_ hcounted <;> subst eq
    case refine_9 => exact absurd ((h.started (Or.inl running)).symm.trans hnot) Bool.noConfusion
    case refine_10 =>
      intro s hs
      rcases List.mem_append.mp hs with hs | hs
      · exact h.routed s hs
      · rw [List.mem_singleton.mp hs]
        -- The route leads to the worker that the books say.
        rw [h.routes] at route
        obtain ⟨x, hfind, rfl⟩ := Option.map_eq_some_iff.mp route
        obtain ⟨j, cfg, hj, hcfg⟩ := Listed.workerOf (List.mem_map_of_mem (List.mem_of_find?_eq_some hfind))
        obtain ⟨-, hid⟩ := Keyed.find?_spec hfind
        rw [hid, hfind] at hj
        obtain rfl := Option.some.inj hj
        exact ⟨symbol, cfg, symbol_eq, hid ▸ hcfg⟩
    case refine_11 => exact h.halted
    all_goals rfl
  | stamps k now i command item front back seq command_eq split eq =>
    -- There is a submission, so the router has been started.
    have hstarted := h.started (Or.inr (Or.inr (Or.inl (split ▸ List.append_ne_nil_of_right_ne_nil _
      (List.cons_ne_nil _ _)))))
    refine h.same ?_ ?_ ?_ ?_ ?_ ?_ ?_ ?_ (fun hnot => ?_) ?_ ?_ hcounted <;> subst eq
    case refine_9 => exact absurd (hstarted.symm.trans hnot) Bool.noConfusion
    case refine_10 =>
      intro s hs
      rcases List.mem_append.mp hs with hs | hs
      · exact h.routed s (split ▸ List.mem_append_left _ hs)
      · rcases List.mem_cons.mp hs with rfl | hs
        · exact h.routed ⟨i, command, none⟩ (split ▸ List.mem_append_right _ List.mem_cons_self)
        · exact h.routed s (split ▸ List.mem_append_right _ (List.mem_cons_of_mem _ hs))
    case refine_11 => exact h.halted
    all_goals rfl
  | accepts k i command item front back split ahead eq => exact h.accepts split ahead eq hcounted
  | misses k i command item front back split behind eq => exact h.misses split behind eq hcounted
  | works i t work eq => exact h.works work eq hcounted
  | pushes i output outputs pending eq => exact h.pushes pending eq hcounted
  | halts started first eq =>
    refine h.goes started eq (fun j => ?_) (fun j hj => ?_) (fun j => by simp) (by simp) hcounted
    · rw [first]
      simp [Stopping.pilled]
    · simp [Stopping.joined] at hj
  | calls i at_ bound eq => exact h.calls at_ bound eq hcounted
  | joins i at_ returned eq =>
    have hrunning := h.halted (by simp [at_])
    refine h.goes (h.started (Or.inr (Or.inl (by simp [at_])))) (by rw [eq, hrunning]) (fun j => ?_)
      (fun j hj => ?_) (fun j => by simp) (by simp) hcounted
    · rw [at_]
      simp only [Stopping.pilled, Bool.false_eq_true, and_false, or_false, and_true]
      -- The worker that has been joined is the last of those told to stop.
      refine decide_eq_decide.mpr ?_
      omega
    · obtain ⟨hbound, hless⟩ := of_decide_eq_true hj
      rcases Nat.lt_succ_iff_lt_or_eq.mp hless with hless | rfl
      · exact h.joined j (by rw [at_]; exact decide_eq_true ⟨hbound, hless⟩)
      · exact returned
  | ends i at_ bound eq =>
    have hrunning := h.halted (by simp [at_])
    refine h.goes (h.started (Or.inr (Or.inl (by simp [at_])))) (by rw [eq, hrunning]) (fun j => ?_)
      (fun j hj => ?_) (fun j => by simp) (by simp) hcounted
    · rw [at_]
      simp only [Stopping.pilled, Bool.false_eq_true, and_false, or_false]
      refine decide_eq_decide.mpr ?_
      omega
    · have hbound : j < r.workerCount := of_decide_eq_true hj
      exact h.joined j (by rw [at_]; exact decide_eq_true ⟨hbound, hbound.trans_le bound⟩)
  | stays nothing eq => exact eq ▸ h

/-- **Every interleaving.** -/
theorem run {actions : List Action} (h : r.Sound) (hrun : r.run actions = some r') : r'.Sound := by
  induction actions generalizing r with
  | nil => exact Option.some.inj hrun ▸ h
  | cons a actions ih =>
    obtain ⟨r₁, hstep, hrest⟩ := Option.bind_eq_some_iff.mp hrun
    exact ih (h.step hstep) hrest

/-- A worker of the router, as a sequential worker. -/
theorem asWorker (h : r.Sound) (i : ℕ) :
    ∃ taken w, taken <+: r.acceptedBy i ∧ Worker.Owned (r.cfgs i) taken ∧
      (Worker.make (r.cfgs i)).run taken = some w ∧ r.shown i <+: w.outbox ∧
      (r.stopping = .done ∨ r.Drained i → taken = r.acceptedBy i ∧ r.shown i = w.outbox) := by
  obtain ⟨taken, w, htaken, howned, hrun, hshown, hdone⟩ := (h.attends i).asWorker
  refine ⟨taken, w, htaken, howned, hrun, hshown, fun hall => hdone ?_⟩
  rcases hall with hstopped | hdrained
  · by_cases hbound : i < r.workerCount
    · exact Or.inl (h.joined i (by rw [hstopped]; exact decide_eq_true hbound))
    · exact Or.inr (Or.inl (h.listed.cfgsOf_eq_none hbound))
  · exact Or.inr (Or.inr hdrained)

end Sound

end Router

end OrderBookEngine
