import OrderBookEngine.Lib.Keyed
import OrderBookEngine.Properties.Streams
import OrderBookEngine.Server.Process

/-!
# The workers of a node

A node is a number of sequential workers. What has been pushed for the symbols of a worker, with what the
worker has yet to push, is what `Worker.run` pushes for the items that it has taken (`Serving`). Which items
it will still take stands in its inbox, up to the shutdown (`Queued`). Both together say what the thread of a
worker does with all that it is given (`Attends`).
-/

namespace OrderBookEngine

/-! ## The setup -/

/-- The books that the worker of a partition is given. -/
def cfgsOf (instruments : List Instrument) (i : ℕ) : SymbolId → Option Config := fun symbol =>
  (instruments.find? fun x => x.id = symbol ∧ x.partition = i).map Instrument.cfg

/-- A list of instruments that the setup takes. -/
structure Listed (partitions : ℕ) (instruments : List Instrument) : Prop where
  /-- No symbol is listed twice. -/
  nodup : (instruments.map Instrument.id).Nodup
  /-- Every symbol is at one of the partitions. -/
  within : ∀ x ∈ instruments, x.partition < partitions

namespace Listed

variable {partitions i j : ℕ} {instruments : List Instrument} {symbol : SymbolId} {cfg : Config}

/-- What a worker hosts is an instrument of its partition. -/
theorem of_cfgsOf (h : cfgsOf instruments i symbol = some cfg) :
    ∃ x ∈ instruments, x.id = symbol ∧ x.partition = i ∧ x.cfg = cfg := by
  obtain ⟨x, hfind, hcfg⟩ := Option.map_eq_some_iff.mp h
  have hkey : x.id = symbol ∧ x.partition = i := by simpa using List.find?_some hfind
  exact ⟨x, List.mem_of_find?_eq_some hfind, hkey.1, hkey.2, hcfg⟩

/-- A worker hosts the symbols of its partition. -/
theorem cfgsOf_isSome : (cfgsOf instruments i symbol).isSome ↔ symbol ∈ Process.owned instruments i := by
  unfold cfgsOf Process.owned
  rw [Option.isSome_map, List.find?_isSome]
  simp only [List.mem_map, List.mem_filter, decide_eq_true_eq]
  constructor
  · rintro ⟨x, hx, hid, hpartition⟩
    exact ⟨x, ⟨hx, hpartition⟩, hid⟩
  · rintro ⟨x, ⟨hx, hpartition⟩, hid⟩
    exact ⟨x, hx, hid, hpartition⟩

/-- A symbol is at one worker. -/
theorem apart (h : Listed partitions instruments) {cfg' : Config}
    (hi : cfgsOf instruments i symbol = some cfg) (hj : cfgsOf instruments j symbol = some cfg') :
    i = j := by
  obtain ⟨x, hx, hid, rfl, -⟩ := of_cfgsOf hi
  obtain ⟨y, hy, hid', rfl, -⟩ := of_cfgsOf hj
  rw [List.inj_on_of_nodup_map h.nodup hx hy (hid.trans hid'.symm)]

/-- What is hosted is hosted at a partition. -/
theorem lt_of_cfgsOf (h : Listed partitions instruments) (hi : cfgsOf instruments i symbol = some cfg) :
    i < partitions := by
  obtain ⟨x, hx, -, rfl, -⟩ := of_cfgsOf hi
  exact h.within x hx

/-- Beyond the partitions nothing is hosted. -/
theorem cfgsOf_eq_none (h : Listed partitions instruments) (hi : ¬ i < partitions) (symbol : SymbolId) :
    cfgsOf instruments i symbol = none := by
  by_contra hsome
  obtain ⟨cfg, hcfg⟩ := Option.ne_none_iff_exists'.mp hsome
  exact hi (h.lt_of_cfgsOf hcfg)

/-- The map of the workers finds the one that has the book. -/
theorem workerOf (hsymbol : symbol ∈ instruments.map Instrument.id) :
    ∃ i cfg, ((instruments.find? fun x => x.id = symbol).map Instrument.partition) = some i ∧
      cfgsOf instruments i symbol = some cfg := by
  obtain ⟨x, hx, rfl⟩ := List.mem_map.mp hsymbol
  obtain ⟨y, hfind⟩ : ∃ y, instruments.find? (fun y => y.id = x.id) = some y := by
    rw [← Option.isSome_iff_exists, List.find?_isSome]
    exact ⟨x, hx, decide_eq_true rfl⟩
  obtain ⟨hmem, hy⟩ := Keyed.find?_spec hfind
  have hsome : (cfgsOf instruments y.partition x.id).isSome := by
    rw [cfgsOf_isSome]
    exact List.mem_map.mpr ⟨y, List.mem_filter.mpr ⟨hmem, decide_eq_true rfl⟩, hy⟩
  obtain ⟨cfg, hcfg⟩ := Option.isSome_iff_exists.mp hsome
  exact ⟨y.partition, cfg, by rw [hfind]; rfl, hcfg⟩

end Listed

namespace EngineNode

variable {n : EngineNode}

/-- A worker is given one book more. -/
theorem make_concat {done : List Instrument} {x : Instrument} (hnone : cfgsOf done x.partition x.id = none)
    (i : ℕ) : Worker.make (cfgsOf (done ++ [x]) i) =
      if i = x.partition then
        { Worker.make (cfgsOf done x.partition) with
          books := Function.update (Worker.make (cfgsOf done x.partition)).books x.id
            (some { book := Book.make x.cfg }) }
      else Worker.make (cfgsOf done i) := by
  -- A symbol is looked up among the first instruments, and then in the last.
  have hcfgs : ∀ symbol, cfgsOf (done ++ [x]) i symbol =
      (cfgsOf done i symbol).or (if x.id = symbol ∧ x.partition = i then some x.cfg else none) := by
    intro symbol
    unfold cfgsOf
    rw [List.find?_append, Option.map_or]
    congr 1
    rw [List.find?_singleton]
    split_ifs <;> simp_all
  split_ifs with hi
  · subst hi
    unfold Worker.make
    simp only [Worker.mk.injEq, and_true]
    funext symbol
    by_cases hsymbol : symbol = x.id
    · subst hsymbol
      rw [Function.update_self, hcfgs, hnone, if_pos ⟨rfl, rfl⟩]
      rfl
    · rw [Function.update_of_ne hsymbol, hcfgs, if_neg fun h => hsymbol h.1.symm, Option.or_none]
  · have hsame : cfgsOf (done ++ [x]) i = cfgsOf done i := funext fun symbol => by
      rw [hcfgs, if_neg fun h => hi h.2.symm, Option.or_none]
    rw [hsame]

/-- Each instrument is added to the books of its worker. -/
theorem books_foldlM {partitions : ℕ} {done instruments : List Instrument} {workers workers' : ℕ → Worker}
    (hdone : workers = fun i => Worker.make (cfgsOf done i))
    (hfold : instruments.foldlM (addInstrument partitions) workers = .ok workers') :
    workers' = (fun i => Worker.make (cfgsOf (done ++ instruments) i)) ∧
      ∀ x ∈ instruments, x.partition < partitions := by
  induction instruments generalizing done workers with
  | nil =>
    obtain rfl := Except.ok.inj hfold
    rw [List.append_nil]
    exact ⟨hdone, fun x hx => absurd hx List.not_mem_nil⟩
  | cons instrument instruments ih =>
    rw [List.foldlM_cons] at hfold
    cases hadd : addInstrument partitions workers instrument with
    | error e => rw [hadd] at hfold; cases hfold
    | ok workers₁ =>
      rw [hadd] at hfold
      unfold addInstrument Worker.addBook at hadd
      split_ifs at hadd with hpartition hthere
      · cases hadd
      obtain rfl := Except.ok.inj hadd
      -- The symbol is new to its partition, else the fold would have failed.
      have hnone : cfgsOf done instrument.partition instrument.id = none := by
        rw [hdone] at hthere
        simpa [Worker.make] using hthere
      have hnext : Function.update workers instrument.partition
          { workers instrument.partition with
            books := Function.update (workers instrument.partition).books instrument.id
              (some { book := Book.make instrument.cfg }) } =
          fun i => Worker.make (cfgsOf (done ++ [instrument]) i) := by
        funext i
        rw [make_concat hnone]
        by_cases hi : i = instrument.partition
        · rw [hi, Function.update_self, if_pos rfl, hdone]
        · rw [Function.update_of_ne hi, if_neg hi, hdone]
      obtain ⟨hworkers, hwithin⟩ := ih hnext hfold
      rw [List.append_assoc] at hworkers
      refine ⟨hworkers, fun x hx => ?_⟩
      rcases List.mem_cons.mp hx with rfl | hx
      · exact not_le.mp hpartition
      · exact hwithin x hx

/-- A node that is set up. -/
theorem setup_of_make {partitions : ℕ} {instruments : List Instrument} {options : PublisherOptions}
    (h : make partitions instruments options = .ok n) :
    Listed partitions instruments ∧ n.worker = (fun i => Worker.make (cfgsOf instruments i)) ∧
      (∀ i, (n.threads i).inbox = [] ∧ (n.threads i).returned = false) ∧
      n.workerOf = (fun symbol => (instruments.find? fun x => x.id = symbol).map Instrument.partition) ∧
      n.publisher.symbolList = instruments.map Instrument.id ∧ n.publisher.closed = false ∧
      n.outbox = [] ∧ n.requests = fun _ => [] := by
  unfold make at h
  cases hworkers : instruments.foldlM (addInstrument partitions) fun _ => Worker.make fun _ => none with
  | error e => rw [hworkers] at h; cases h
  | ok workers =>
    cases hpublisher : Publisher.make (instruments.map Instrument.id) options with
    | error e => rw [hworkers, hpublisher] at h; cases h
    | ok publisher =>
      rw [hworkers, hpublisher] at h
      obtain rfl := Except.ok.inj h
      obtain ⟨hmade, hwithin⟩ := @books_foldlM _ [] _ _ _ rfl hworkers
      unfold Publisher.make at hpublisher
      split_ifs at hpublisher with hzero hdup
      obtain rfl := Except.ok.inj hpublisher
      exact ⟨⟨hdup, hwithin⟩, hmade, fun _ => ⟨rfl, rfl⟩, rfl, rfl, rfl, rfl, rfl⟩

end EngineNode

/-! ## Sequential workers -/

/-- The outputs for the symbols of a worker. -/
def outputsOf (cfgs : SymbolId → Option Config) (outputs : List Output) : List Output :=
  outputs.filter fun o => (o.symbol?.bind cfgs).isSome

/-- The items that are commands of clients. -/
def commandsOf (items : List Stamped) : List Stamped := items.filter fun item => !item.command.isSnapshot

section Lists

variable {cfgs : SymbolId → Option Config} {outputs outputs' : List Output} {items items' : List Stamped}

/-- The outputs of two lists follow one another. -/
theorem outputsOf_append (cfgs : SymbolId → Option Config) (outputs outputs' : List Output) :
    outputsOf cfgs (outputs ++ outputs') = outputsOf cfgs outputs ++ outputsOf cfgs outputs' :=
  List.filter_append _ _

/-- The commands of two lists follow one another. -/
theorem commandsOf_append (items items' : List Stamped) :
    commandsOf (items ++ items') = commandsOf items ++ commandsOf items' := List.filter_append _ _

/-- If all outputs are a worker's own, none is left out. -/
theorem outputsOf_eq_self (h : ∀ o ∈ outputs, (o.symbol?.bind cfgs).isSome) :
    outputsOf cfgs outputs = outputs := List.filter_eq_self.mpr h

/-- If none is its own, none is left. -/
theorem outputsOf_eq_nil (h : ∀ o ∈ outputs, o.symbol?.bind cfgs = none) :
    outputsOf cfgs outputs = [] :=
  List.filter_eq_nil_iff.mpr fun o ho => by rw [h o ho]; exact Bool.false_ne_true

end Lists

/-- A worker of a node has taken some items: its books are those of a sequential worker, and so is what
it has pushed, `shown`, with what it has yet to push. -/
structure Serving (cfgs : SymbolId → Option Config) (shown : List Output) (taken : List Stamped)
    (t : Worker) : Prop where
  /-- The items are for its own symbols. -/
  owned : Worker.Owned cfgs taken
  /-- Its books are those of the items taken. -/
  serves : Worker.Serves cfgs taken t
  /-- What it has pushed and has to push is what a sequential worker does with the items. -/
  run : ∃ w, (Worker.make cfgs).run taken = some w ∧ w.outbox = shown ++ t.outbox
  /-- What it has to push is for its own symbols. -/
  mine : ∀ o ∈ t.outbox, ∃ symbol cfg, o.symbol? = some symbol ∧ cfgs symbol = some cfg

namespace Serving

variable {cfgs : SymbolId → Option Config} {shown : List Output} {taken : List Stamped} {t : Worker}
  {item : Stamped} {output : Output} {outputs : List Output}

/-- A new worker has taken nothing. -/
theorem make (cfgs : SymbolId → Option Config) : Serving cfgs [] [] (Worker.make cfgs) where
  owned _ hitem := absurd hitem List.not_mem_nil
  serves := Worker.serves_make cfgs
  run := ⟨_, rfl, rfl⟩
  mine _ ho := absurd ho List.not_mem_nil

/-- The worker takes an item for one of its symbols. -/
theorem take (h : Serving cfgs shown taken t) (hidle : t.outbox = []) (hitem : Worker.Owned cfgs [item]) :
    ∃ t', t.run [item] = some t' ∧ Serving cfgs shown (taken ++ [item]) t' := by
  obtain ⟨symbol, cfg, hsymbol, hcfg⟩ := hitem item (List.mem_singleton_self item)
  obtain ⟨hrun, hserves⟩ := h.serves.concat hsymbol hcfg
  obtain ⟨w, hw, houtbox⟩ := h.run
  obtain ⟨w₁, hw₁, hserves₁, -⟩ := Worker.serves (P := fun _ _ => True) trivial (fun _ _ => trivial) taken
    h.owned
  obtain rfl := Option.some.inj (hw₁.symm.trans hw)
  obtain ⟨w', htakes, -⟩ := hserves₁.takes h.owned hw hsymbol hcfg
  refine ⟨_, hrun, ?_⟩
  constructor
  case owned =>
    intro x hx
    rcases List.mem_append.mp hx with hx | hx
    · exact h.owned x hx
    · exact hitem x hx
  case serves => exact hserves
  case run =>
    refine ⟨w', htakes.after, ?_⟩
    -- Both workers push for the item what its book says.
    show w'.outbox = shown ++ (t.outbox ++ item.outputs symbol _ t.lastTs)
    rw [htakes.outbox, houtbox, hidle, List.append_nil, List.nil_append, h.serves.lastTs]
    rfl
  case mine =>
    intro o ho
    refine ⟨symbol, cfg, ?_, hcfg⟩
    have ho : o ∈ t.outbox ++ item.outputs symbol _ t.lastTs := ho
    rw [hidle, List.nil_append] at ho
    exact Worker.symbol_outputs hsymbol _ _ o ho

/-- The worker pushes an output. -/
theorem push (h : Serving cfgs shown taken t) (houtbox : t.outbox = output :: outputs) :
    Serving cfgs (shown ++ outputsOf cfgs [output]) taken { t with outbox := outputs } := by
  have hmine : outputsOf cfgs [output] = [output] := by
    apply outputsOf_eq_self
    intro o ho
    rw [List.mem_singleton.mp ho]
    obtain ⟨symbol, cfg, hsymbol, hcfg⟩ := h.mine output (houtbox ▸ List.mem_cons_self)
    rw [hsymbol, Option.bind_some, hcfg]
    rfl
  constructor
  case owned => exact h.owned
  case serves => exact ⟨h.serves.lastTs, h.serves.books⟩
  case run =>
    obtain ⟨w, hw, hout⟩ := h.run
    refine ⟨w, hw, ?_⟩
    rw [hout, houtbox, hmine, List.append_assoc]
    rfl
  case mine => exact fun o ho => h.mine o (houtbox ▸ List.mem_cons_of_mem _ ho)

/-- A worker without a symbol does nothing. -/
theorem of_none (h : Serving cfgs shown taken t) (hnone : ∀ symbol, cfgs symbol = none) :
    taken = [] ∧ t.outbox = [] := by
  have hempty : taken = [] := List.eq_nil_iff_forall_not_mem.mpr fun x hx => by
    obtain ⟨symbol, cfg, -, hcfg⟩ := h.owned x hx
    rw [hnone] at hcfg
    cases hcfg
  refine ⟨hempty, ?_⟩
  obtain ⟨w, hw, hout⟩ := h.run
  rw [hempty] at hw
  obtain rfl := Option.some.inj hw
  exact (List.append_eq_nil_iff.mp hout.symm).2

end Serving

/-! ## Inboxes -/

/-- What stands in the inbox of a thread: the items that it will still take, until it meets the
shutdown. -/
inductive Queued (pilled : Bool) (t : WorkerThread) (waiting : List Stamped) : Prop
  /-- The inbox has the items that wait. -/
  | serving (not_pilled : pilled = false) (running : t.returned = false) (inbox : t.inbox = waiting)
  /-- Behind them there is the shutdown, and what comes too late. -/
  | stopping (pill : Stamped) (rest : List Stamped) (is_pilled : pilled = true)
      (running : t.returned = false) (shutdown : pill.command = .shutdown)
      (inbox : t.inbox = waiting ++ pill :: rest)
  /-- The worker has served them all and returned. -/
  | returned (is_pilled : pilled = true) (stopped : t.returned = true) (nothing : waiting = [])
      (idle : t.worker.outbox = [])

namespace Queued

variable {pilled : Bool} {t : WorkerThread} {waiting : List Stamped} {item : Stamped}

/-- A feed hands over some items. -/
theorem handOver (h : Queued pilled t waiting) (hpilled : pilled = false) (items : List Stamped) :
    Queued pilled { t with inbox := t.inbox ++ items } (waiting ++ items) := by
  cases h with
  | serving not_pilled running inbox =>
    refine .serving hpilled running ?_
    show t.inbox ++ items = _
    rw [inbox]
  | stopping pill rest is_pilled running shutdown inbox => simp [hpilled] at is_pilled
  | returned is_pilled stopped nothing idle => simp [hpilled] at is_pilled

/-- The main thread stops the worker. -/
theorem stop (h : Queued false t waiting) (item : Stamped) (hitem : item.command = .shutdown) :
    Queued true { t with inbox := t.inbox ++ [item] } waiting := by
  cases h with
  | serving not_pilled running inbox =>
    refine .stopping item [] rfl running hitem ?_
    show t.inbox ++ [item] = _
    rw [inbox]
  | stopping pill rest is_pilled running shutdown inbox => cases is_pilled
  | returned is_pilled stopped nothing idle => cases is_pilled

end Queued

/-! ## Threads -/

/-- The thread of a worker takes some items, one after the other, until its shutdown. Of what it pushes,
`shown` has been pushed. -/
def Attends (cfgs : SymbolId → Option Config) (shown : List Output) (pilled : Bool) (t : WorkerThread)
    (items : List Stamped) : Prop :=
  ∃ taken waiting, taken ++ waiting = items ∧ Serving cfgs shown taken t.worker ∧
    Queued pilled t waiting ∧ Worker.Owned cfgs waiting

namespace Attends

variable {cfgs : SymbolId → Option Config} {shown : List Output} {pilled : Bool} {t t' : WorkerThread}
  {items : List Stamped} {item : Stamped} {output : Output} {outputs : List Output}

/-- A new thread attends to nothing. -/
theorem make (cfgs : SymbolId → Option Config) : Attends cfgs [] false { worker := Worker.make cfgs } [] :=
  ⟨[], [], rfl, Serving.make cfgs, .serving rfl rfl rfl, fun _ hx => absurd hx List.not_mem_nil⟩

/-- An item comes ahead of the shutdown. -/
theorem accept (h : Attends cfgs shown false t items) (hitem : Worker.Owned cfgs [item]) :
    Attends cfgs shown false { t with inbox := t.inbox ++ [item] } (items ++ [item]) := by
  obtain ⟨taken, waiting, rfl, hserving, hqueued, howned⟩ := h
  refine ⟨taken, waiting ++ [item], (List.append_assoc _ _ _).symm, hserving,
    hqueued.handOver rfl [item], fun x hx => ?_⟩
  rcases List.mem_append.mp hx with hx | hx
  · exact howned x hx
  · exact hitem x hx

/-- An item comes behind it, and is not taken. -/
theorem late (h : Attends cfgs shown true t items) (item : Stamped) :
    Attends cfgs shown true { t with inbox := t.inbox ++ [item] } items := by
  obtain ⟨taken, waiting, rfl, hserving, hqueued, howned⟩ := h
  refine ⟨taken, waiting, rfl, hserving, ?_, howned⟩
  cases hqueued with
  | serving not_pilled running inbox => cases not_pilled
  | stopping pill rest is_pilled running shutdown inbox =>
    refine .stopping pill (rest ++ [item]) is_pilled running shutdown ?_
    show t.inbox ++ [item] = _
    rw [inbox, List.append_assoc]
    rfl
  | returned is_pilled stopped nothing idle => exact .returned is_pilled stopped nothing idle

/-- A request for a snapshot comes ahead of the shutdown or behind it. -/
theorem request (h : Attends cfgs shown pilled t items) (hitem : Worker.Owned cfgs [item]) :
    Attends cfgs shown pilled { t with inbox := t.inbox ++ [item] } (items ++ [item]) ∨
      Attends cfgs shown pilled { t with inbox := t.inbox ++ [item] } items := by
  cases pilled with
  | false => exact Or.inl (h.accept hitem)
  | true => exact Or.inr (h.late item)

/-- A thread that is told to stop will return behind the items that it has. -/
theorem stop (h : Attends cfgs shown false t items) :
    Attends cfgs shown true { t with inbox := t.inbox ++ [{ command := .shutdown }] } items := by
  obtain ⟨taken, waiting, rfl, hserving, hqueued, howned⟩ := h
  exact ⟨taken, waiting, rfl, hserving, hqueued.stop _ rfl, howned⟩

/-- A thread that takes an item attends to the same items. -/
theorem work (h : Attends cfgs shown pilled t items) (hwork : t.work = some t') :
    Attends cfgs shown pilled t' items := by
  obtain ⟨taken, waiting, rfl, hserving, hqueued, howned⟩ := h
  obtain ⟨item, inbox, w, hrunning, hidle, hinbox, hrun, rfl⟩ := WorkerThread.work_spec hwork
  -- If the next item is one of those that are waiting, it is taken.
  have htake : ∀ waiting', waiting = item :: waiting' →
      Serving cfgs shown (taken ++ [item]) w ∧ Worker.Owned cfgs waiting' ∧
        (taken ++ [item]) ++ waiting' = taken ++ waiting ∧ item.command ≠ .shutdown := by
    rintro waiting' rfl
    have hitem : Worker.Owned cfgs [item] := fun x hx =>
      howned x (List.mem_cons.mpr (Or.inl (List.mem_singleton.mp hx)))
    obtain ⟨w', hrun', hserving'⟩ := hserving.take hidle hitem
    obtain rfl := Option.some.inj (hrun'.symm.trans hrun)
    exact ⟨hserving', fun x hx => howned x (List.mem_cons_of_mem _ hx), List.append_assoc _ _ _,
      hitem.no_shutdown item (List.mem_singleton_self item)⟩
  cases hqueued with
  | serving not_pilled running inbox' =>
    obtain ⟨hserving', howned', hsame, hplain⟩ := htake inbox (inbox'.symm.trans hinbox)
    exact ⟨_, inbox, hsame, hserving', .serving not_pilled (decide_eq_false hplain) rfl, howned'⟩
  | stopping pill rest is_pilled running shutdown inbox' =>
    rw [hinbox] at inbox'
    cases waiting with
    | nil =>
      obtain ⟨rfl, rfl⟩ := List.cons.inj inbox'
      have hw : w = t.worker := by
        rw [Worker.run] at hrun
        simp only [shutdown] at hrun
        exact (Option.some.inj hrun).symm
      rw [hw]
      exact ⟨taken, [], rfl, hserving, .returned is_pilled (decide_eq_true shutdown) rfl hidle, howned⟩
    | cons first waiting' =>
      obtain ⟨rfl, rfl⟩ := List.cons.inj inbox'
      obtain ⟨hserving', howned', hsame, hplain⟩ := htake waiting' rfl
      exact ⟨_, waiting', hsame, hserving',
        .stopping pill rest is_pilled (decide_eq_false hplain) shutdown rfl, howned'⟩
  | returned is_pilled stopped nothing idle => exact absurd (hrunning.symm.trans stopped) Bool.false_ne_true

/-- A thread that pushes an output attends to the same items. -/
theorem push (h : Attends cfgs shown pilled t items) (hpending : t.worker.outbox = output :: outputs) :
    Attends cfgs (shown ++ outputsOf cfgs [output]) pilled
      { t with worker := { t.worker with outbox := outputs } } items := by
  obtain ⟨taken, waiting, rfl, hserving, hqueued, howned⟩ := h
  refine ⟨taken, waiting, rfl, hserving.push hpending, ?_, howned⟩
  cases hqueued with
  | serving not_pilled running inbox => exact .serving not_pilled running inbox
  | stopping pill rest is_pilled running shutdown inbox =>
    exact .stopping pill rest is_pilled running shutdown inbox
  | returned is_pilled stopped nothing idle =>
    rw [idle] at hpending
    cases hpending

/-- A worker that has pushed all can take whatever comes next. -/
theorem isSome_work (h : Attends cfgs shown pilled t items) :
    t.work.isSome ↔ t.returned = false ∧ t.worker.outbox = [] ∧ t.inbox ≠ [] := by
  obtain ⟨taken, waiting, rfl, hserving, hqueued, howned⟩ := h
  unfold WorkerThread.work
  split_ifs with hbusy
  · simp only [Option.isSome_none, Bool.false_eq_true, false_iff]
    rintro ⟨hrunning, hidle, -⟩
    rw [hrunning] at hbusy
    exact hbusy.elim Bool.false_ne_true fun hpending => hpending hidle
  · obtain ⟨hrunning, hidle⟩ := not_or.mp hbusy
    have hidle := not_not.mp hidle
    cases hinbox : t.inbox with
    | nil => simp
    | cons item inbox =>
      simp only [Bool.not_eq_true _ ▸ hrunning, hidle, Option.isSome_map, ne_eq, reduceCtorEq, not_false_eq_true,
        and_self, iff_true]
      -- An item of a symbol that the worker has is handled.
      have htake : ∀ waiting', waiting = item :: waiting' → (t.worker.run [item]).isSome := by
        rintro waiting' rfl
        obtain ⟨w, hw, -⟩ := hserving.take hidle fun x hx =>
          howned x (List.mem_cons.mpr (Or.inl (List.mem_singleton.mp hx)))
        rw [hw]
        rfl
      cases hqueued with
      | serving not_pilled running inbox' => exact htake inbox (inbox'.symm.trans hinbox)
      | stopping pill rest is_pilled running shutdown inbox' =>
        rw [hinbox] at inbox'
        cases waiting with
        | nil =>
          -- The pill itself ends the loop, whatever the books are.
          obtain ⟨rfl, -⟩ := List.cons.inj inbox'
          rw [Worker.run]
          simp only [shutdown]
          rfl
        | cons first waiting' =>
          obtain ⟨rfl, -⟩ := List.cons.inj inbox'
          exact htake waiting' rfl
      | returned is_pilled stopped nothing idle => exact absurd stopped hrunning

/-- Nothing is left of a thread that has returned, that has no symbol, or whose queues are empty. -/
theorem nothing_left {taken waiting : List Stamped} (hserving : Serving cfgs shown taken t.worker)
    (hqueued : Queued pilled t waiting) (howned : Worker.Owned cfgs waiting)
    (hdone : t.returned = true ∨ (∀ symbol, cfgs symbol = none) ∨ t.inbox = [] ∧ t.worker.outbox = []) :
    waiting = [] ∧ t.worker.outbox = [] := by
  rcases hdone with hreturned | hnone | ⟨hempty, hidle⟩
  · cases hqueued with
    | serving not_pilled running inbox => simp [hreturned] at running
    | stopping pill rest is_pilled running shutdown inbox => simp [hreturned] at running
    | returned is_pilled stopped nothing idle => exact ⟨nothing, idle⟩
  · refine ⟨List.eq_nil_iff_forall_not_mem.mpr fun x hx => ?_, (hserving.of_none hnone).2⟩
    obtain ⟨symbol, cfg, -, hcfg⟩ := howned x hx
    rw [hnone] at hcfg
    cases hcfg
  · refine ⟨?_, hidle⟩
    cases hqueued with
    | serving not_pilled running inbox => exact inbox.symm.trans hempty
    | stopping pill rest is_pilled running shutdown inbox => simp [hempty] at inbox
    | returned is_pilled stopped nothing idle => exact nothing

/-- A thread that has returned, or hosts nothing, has nothing to push. -/
theorem idle (h : Attends cfgs shown pilled t items)
    (hdone : t.returned = true ∨ ∀ symbol, cfgs symbol = none) : t.worker.outbox = [] := by
  obtain ⟨taken, waiting, rfl, hserving, hqueued, howned⟩ := h
  exact (nothing_left hserving hqueued howned (hdone.imp_right Or.inl)).2

/-- The thread, as a sequential worker. -/
theorem asWorker (h : Attends cfgs shown pilled t items) :
    ∃ taken w, taken <+: items ∧ Worker.Owned cfgs taken ∧ (Worker.make cfgs).run taken = some w ∧
      shown <+: w.outbox ∧ (t.returned = true ∨ (∀ symbol, cfgs symbol = none) ∨
        t.inbox = [] ∧ t.worker.outbox = [] → taken = items ∧ shown = w.outbox) := by
  obtain ⟨taken, waiting, rfl, hserving, hqueued, howned⟩ := h
  obtain ⟨w, hrun, houtbox⟩ := hserving.run
  refine ⟨taken, w, List.prefix_append _ _, hserving.owned, hrun, houtbox ▸ List.prefix_append _ _,
    fun hdone => ?_⟩
  obtain ⟨rfl, hidle⟩ := nothing_left hserving hqueued howned hdone
  rw [hidle, List.append_nil] at houtbox
  exact ⟨(List.append_nil _).symm, houtbox.symm⟩

end Attends

/-! ## The threads of a node -/

namespace EngineNode

variable {n n' : EngineNode} {i : ℕ} {id : SubscriberId}

/-- An action of the publisher or of a subscriber. -/
structure Publishes (n n' : EngineNode) : Prop where
  /-- The workers stay. -/
  threads : n'.threads = n.threads
  /-- The symbols stay at their workers. -/
  workerOf : n'.workerOf = n.workerOf
  /-- The publisher is well formed. -/
  publisher : n'.publisher.Wf
  /-- The publisher's symbols stay. -/
  symbolList : n'.publisher.symbolList = n.publisher.symbolList
  /-- What is pushed stays. -/
  pushed : n'.pushed = n.pushed
  /-- The publisher is still closed exactly if it has taken the pill. -/
  closed : (n.publisher.closed = true ↔ .outboxClosed ∈ n.publisher.routed) →
    (n'.publisher.closed = true ↔ .outboxClosed ∈ n'.publisher.routed)
  /-- What was closed stays so. -/
  stays : n.publisher.closed = true → n'.publisher.closed = true
  /-- What is requested is for the publisher's symbols. -/
  requests : ∀ id, ∀ symbol ∈ n'.requests id, symbol ∈ n.requests id ∨ symbol ∈ n.publisher.symbolList
  /-- A call requests what it did. -/
  kept : ∀ id, id < n.publisher.nextId → n'.requests id = n.requests id

/-- What one of the internal actions does: a worker takes an item or pushes an output, a snapshot is
requested, or the publisher and its subscribers go on. -/
inductive Moves (n n' : EngineNode) : Prop
  /-- A worker takes an item. -/
  | work (i : ℕ) (item : Stamped) (inbox : List Stamped) (w : Worker)
      (running : (n.threads i).returned = false) (idle : (n.worker i).outbox = [])
      (next : (n.threads i).inbox = item :: inbox) (run : (n.worker i).run [item] = some w)
      (eq : n' = n.setThread i { worker := w, inbox, returned := item.command = .shutdown })
  /-- A worker pushes an output. -/
  | push (i : ℕ) (output : Output) (outputs : List Output)
      (pending : (n.worker i).outbox = output :: outputs)
      (eq : n' = { n.setThread i { n.threads i with worker := { n.worker i with outbox := outputs } } with
        outbox := n.outbox ++ [output] })
  /-- The request of a snapshot is submitted. -/
  | request (id : SubscriberId) (symbol : SymbolId) (symbols : List SymbolId) (i : ℕ)
      (next : n.requests id = symbol :: symbols) (worker : n.workerOf symbol = some i)
      (eq : n' = { n with requests := Function.update n.requests id symbols }.submit i
        { command := .takeSnapshot symbol id })
  /-- The publisher does something. -/
  | publishes (publishes : Publishes n n')

/-- An action that takes no output is one of the publisher or of a subscriber. -/
theorem publishes_of_act {a : Publisher.Action} (h : n.publisher.Wf)
    (htakes : ∀ output, a ≠ .take output) (hact : n.publisher.act a = .ok n'.publisher)
    (hthreads : n'.threads = n.threads) (hworkerOf : n'.workerOf = n.workerOf)
    (houtbox : n'.outbox = n.outbox) (hrequests : ∀ id, ∀ symbol ∈ n'.requests id,
      symbol ∈ n.requests id ∨ symbol ∈ n.publisher.symbolList)
    (hkept : ∀ id, id < n.publisher.nextId → n'.requests id = n.requests id) : Publishes n n' := by
  obtain ⟨_, hact', hwf, -, -, hrecord⟩ := Publisher.act_spec h a
  obtain rfl := Except.ok.inj (hact.symm.trans hact')
  -- Only what is routed goes into the record.
  have hnoted : n.publisher.noted a = n.publisher := by
    cases a with
    | take output => exact absurd rfl (htakes output)
    | _ => rfl
  rw [hnoted] at hrecord
  have hclosed : n'.publisher.closed = n.publisher.closed := hrecord.closed
  have hrouted : n'.publisher.routed = n.publisher.routed := hrecord.routed
  constructor
  case threads => exact hthreads
  case workerOf => exact hworkerOf
  case publisher => exact hwf
  case symbolList => exact hrecord.symbolList
  case pushed =>
    unfold EngineNode.pushed
    rw [hrouted, houtbox]
  case closed =>
    intro h
    rw [hclosed, hrouted]
    exact h
  case stays => exact fun hc => hclosed.trans hc
  case requests => exact hrequests
  case kept => exact hkept

/-- So is one that takes an output. -/
theorem publishes_route (h : n.publisher.Wf) (hroute : n.route = some n') : Publishes n n' := by
  unfold route at hroute
  split_ifs at hroute with hclosed
  cases houtbox : n.outbox with
  | nil => simp [houtbox] at hroute
  | cons output outbox =>
    simp only [houtbox] at hroute
    obtain ⟨p, htake, rfl⟩ := Option.map_eq_some_iff.mp hroute
    obtain ⟨-, hdropped, hwf⟩ := Publisher.dropAll_spec (p := n.publisher) n.tooSlow
    have hopen : (n.tooSlow.foldl Publisher.dropSlow n.publisher).closed = false :=
      hdropped.closed.trans (Bool.not_eq_true _ ▸ hclosed)
    have hact := ok_of_toOption htake
    obtain ⟨_, hact', hwf', -, hrecord⟩ := Publisher.take_spec (hwf h) output
    obtain rfl := Except.ok.inj (hact.symm.trans hact')
    rw [if_neg (by rw [hopen]; exact Bool.false_ne_true)] at hrecord
    have hrouted : p.routed = n.publisher.routed ++ [output] := by
      rw [hrecord.routed, ← hdropped.routed]
      cases output <;> rfl
    have hsymbols : p.symbolList = n.publisher.symbolList := by
      rw [hrecord.symbolList, ← hdropped.symbolList]
      cases output <;> rfl
    -- The outputs are routed until the pill is taken, and not after it.
    have hclosed' : p.closed = true ↔ output = .outboxClosed := by
      rw [hrecord.closed]
      cases output <;> simp [Publisher.record, Publisher.remember, hopen]
    constructor
    case threads => rfl
    case workerOf => rfl
    case publisher => exact hwf'
    case symbolList => exact hsymbols
    case pushed =>
      show p.routed ++ outbox = n.publisher.routed ++ n.outbox
      rw [hrouted, houtbox, List.append_assoc]
      rfl
    case closed =>
      intro h
      have hnone : .outboxClosed ∉ n.publisher.routed := fun hmem => hclosed (h.mpr hmem)
      show p.closed = true ↔ _ ∈ p.routed
      rw [hclosed', hrouted, List.mem_append, List.mem_singleton]
      exact ⟨fun heq => Or.inr heq.symm, fun hmem => hmem.elim (fun hm => absurd hm hnone) Eq.symm⟩
    case stays => exact fun hc => absurd hc hclosed
    case requests => exact fun _ _ hmem => Or.inl hmem
    case kept => exact fun _ _ => rfl

/-- So is a subscription. -/
theorem publishes_subscribe (h : n.publisher.Wf) {gatewayId : GatewayId} {symbols : List SymbolId}
    {fromSeq : FromSeq} (hstep : n.subscribe gatewayId symbols fromSeq = some n') : Publishes n n' := by
  unfold subscribe at hstep
  split_ifs at hstep
  obtain ⟨⟨p, result, snapshots⟩, hsubscribe, hn'⟩ := Option.map_eq_some_iff.mp hstep
  have hsubscribe := ok_of_toOption hsubscribe
  have hact : n.publisher.act (.subscribe gatewayId symbols fromSeq) = .ok p := by
    rw [Publisher.act, hsubscribe]
    rfl
  have hnew : ∀ id, result.subscription = some id → id = n.publisher.nextId := by
    obtain ⟨_, _, _, hsubscribe', hcases⟩ := n.publisher.subscribe_spec gatewayId symbols fromSeq
    obtain ⟨-, rfl, -⟩ := Prod.mk.injEq .. ▸ Except.ok.inj (hsubscribe.symm.trans hsubscribe')
    intro id hid
    cases hcases with
    | refused _ subscription =>
      rw [subscription] at hid
      cases hid
    | tooOld _ _ subscription =>
      rw [subscription] at hid
      cases hid
    | registered stats passes => exact (Option.some.inj hid).symm
  -- The snapshots that are still to be requested are of symbols that were asked for.
  have hknown : ∀ symbol ∈ snapshots, symbol ∈ n.publisher.symbolList := by
    obtain ⟨_, _, _, hsubscribe', hcases⟩ := n.publisher.subscribe_spec gatewayId symbols fromSeq
    obtain ⟨-, -, rfl⟩ := Prod.mk.injEq .. ▸ Except.ok.inj (hsubscribe.symm.trans hsubscribe')
    cases hcases with
    | refused => exact fun _ hmem => absurd hmem List.not_mem_nil
    | tooOld => exact fun _ hmem => absurd hmem List.not_mem_nil
    | registered stats passes => exact fun symbol hmem => passes.known symbol (List.mem_filter.mp hmem).1
  simp only at hn'
  cases hid : result.subscription with
  | none =>
    rw [hid] at hn'
    subst hn'
    exact publishes_of_act h (by simp) hact rfl rfl rfl (fun _ _ hmem => Or.inl hmem) fun _ _ => rfl
  | some id =>
    rw [hid] at hn'
    subst hn'
    refine publishes_of_act h (by simp) hact rfl rfl rfl (fun other symbol hmem => ?_) fun other hother => ?_
    · have hmem : symbol ∈ Function.update n.requests id snapshots other := hmem
      by_cases hother : other = id
      · rw [hother, Function.update_self] at hmem
        exact Or.inr (hknown symbol hmem)
      · rw [Function.update_of_ne hother] at hmem
        exact Or.inl hmem
    · exact Function.update_of_ne (hnew id hid ▸ hother.ne) _ _

/-- **Internal actions.** -/
theorem moves_of_step {a : Action} (h : n.publisher.Wf) (ha : a.internal = true)
    (hstep : n.step a = some n') : Moves n n' := by
  -- What a caller does under the lock is an action of the publisher.
  have hlocked : ∀ {f : Publisher → Publisher} {b : Publisher.Action}, (∀ output, b ≠ .take output) →
      n.publisher.act b = .ok (f n.publisher) → n.locked f = some n' → Moves n n' := by
    intro f b htakes hact hlocked
    unfold locked at hlocked
    split_ifs at hlocked
    obtain rfl := Option.some.inj hlocked
    exact .publishes (publishes_of_act h htakes hact rfl rfl rfl (fun _ _ hmem => Or.inl hmem)
      fun _ _ => rfl)
  cases a with
  | submit => cases ha
  | closeOutbox => cases ha
  | work i =>
    replace hstep : n.work i = some n' := hstep
    obtain ⟨t, hwork, rfl⟩ := Option.map_eq_some_iff.mp hstep
    obtain ⟨item, inbox, w, hrunning, hidle, hinbox, hrun, rfl⟩ := WorkerThread.work_spec hwork
    exact .work i item inbox w hrunning hidle hinbox hrun rfl
  | push i =>
    replace hstep : n.push i = some n' := hstep
    unfold push at hstep
    cases hpending : (n.threads i).worker.outbox with
    | nil => simp [hpending] at hstep
    | cons output outputs =>
      simp only [hpending] at hstep
      exact .push i output outputs hpending (Option.some.inj hstep).symm
  | miss id =>
    replace hstep : n.miss id = some n' := hstep
    unfold miss at hstep
    split_ifs at hstep
    cases houtbox : n.outbox with
    | nil => simp [houtbox] at hstep
    | cons output outbox =>
      simp only [houtbox] at hstep
      split_ifs at hstep
      obtain rfl := Option.some.inj hstep
      refine .publishes ⟨rfl, rfl, h, rfl, ?_, fun hc => hc, fun hc => hc,
        fun _ _ hmem => Or.inl hmem, fun _ _ => rfl⟩
      unfold EngineNode.pushed
      rw [houtbox]
  | route => exact .publishes (publishes_route h hstep)
  | subscribe gatewayId symbols fromSeq => exact .publishes (publishes_subscribe h hstep)
  | request id =>
    replace hstep : n.request id = some n' := hstep
    unfold request at hstep
    cases hrequests : n.requests id with
    | nil => simp [hrequests] at hstep
    | cons symbol symbols =>
      simp only [hrequests] at hstep
      obtain ⟨i, hworker, rfl⟩ := Option.map_eq_some_iff.mp hstep
      exact .request id symbol symbols i hrequests hworker rfl
  | subscribeReplies gatewayId =>
    replace hstep : n.locked (fun p => (p.subscribeReplies gatewayId).1) = some n' := hstep
    exact hlocked (b := .subscribeReplies gatewayId) (fun _ heq => by cases heq) rfl hstep
  | unsubscribe id =>
    replace hstep : n.locked (fun p => p.unsubscribe id) = some n' := hstep
    exact hlocked (b := .unsubscribe id) (fun _ heq => by cases heq) rfl hstep
  | nextFor id =>
    obtain rfl := Option.some.inj hstep
    exact .publishes (publishes_of_act (a := .nextFor id) h (fun _ heq => by cases heq) rfl rfl rfl rfl
      (fun _ _ hmem => Or.inl hmem) fun _ _ => rfl)

end EngineNode

end OrderBookEngine
