import OrderBookEngine.Engine.Spans
import OrderBookEngine.Properties.Partition
import OrderBookEngine.Server.EngineNode
import OrderBookEngine.Server.Feeds

/-!
# The streams of the symbols in a node

Several workers push into one outbox, but a symbol has its book at one of them (`Sound.apart`). So the
outputs for a symbol stand in the outbox in the order in which its worker has made them, whatever is
pushed between. Taken with what the publisher has had and with what the worker has yet to push, they are
the stream of its book, and each snapshot is as of the events before it (`Carries`).
-/

namespace OrderBookEngine

/-- The outputs for a symbol in two lists follow one another. -/
theorem outputsFor_append (symbol : SymbolId) (outputs outputs' : List Output) :
    outputsFor symbol (outputs ++ outputs') = outputsFor symbol outputs ++ outputsFor symbol outputs' :=
  List.filter_append _ _

/-- The outputs for a symbol have all of its events. -/
theorem eventsOf_outputsFor (symbol : SymbolId) (outputs : List Output) :
    eventsOf symbol (outputsFor symbol outputs) = eventsOf symbol outputs := by
  unfold eventsOf outputsFor
  rw [List.filterMap_filter]
  refine List.filterMap_congr fun output _ => ?_
  cases output with
  | marketEvent e => simp [Output.symbol?, Output.eventOn]
  | _ => simp [Output.eventOn]

/-- A snapshot is as of the events of the symbol before it. -/
def AsOf (symbol : SymbolId) (before : List Output) (output : Output) : Prop :=
  ∀ ready, output = .snapshotReady ready →
    ready.snapshot.asOfSequence = (eventsOf symbol before).length

/-- The outputs for a symbol are the stream of its book, with snapshots at their places. -/
structure Carries (symbol : SymbolId) (b : Book) (outputs : List Output) : Prop where
  /-- Its events are those of the book. -/
  events : eventsOf symbol outputs = b.events
  /-- Every snapshot is as of the events before it. -/
  snapshots : History.Each (AsOf symbol) outputs
  /-- The book numbers its events. -/
  numbered : b.Numbered

namespace Carries

variable {symbol : SymbolId} {b : Book} {outputs : List Output} {item : Stamped} {last : ℤ}

/-- A new book has nothing to carry. -/
theorem make (symbol : SymbolId) (cfg : Config) : Carries symbol (Book.make cfg) [] where
  events := rfl
  snapshots := History.each_nil
  numbered := ⟨rfl, rfl⟩

/-- The worker handles an item of the symbol. -/
theorem handle (h : Carries symbol b outputs) (hsymbol : item.command.symbol? = some symbol) :
    Carries symbol (b.run (item.callOn symbol last).toList) (outputs ++ item.outputs symbol b last) := by
  have hspans := Book.spans_run b (item.callOn symbol last).toList
  constructor
  case events =>
    rw [Worker.eventsOf_append, Worker.eventsOf_outputs, h.events]
    cases hcall : item.callOn symbol last with
    | none => exact List.append_nil _
    | some c =>
      obtain ⟨es, hes⟩ := (Book.spans_call b c).grows
      show b.events ++ (b.call c).events.drop b.events.length = (b.call c).events
      rw [← hes, List.drop_left]
  case snapshots =>
    rcases Stamped.call_or_snapshot hsymbol with ⟨call, hcall, -⟩ | ⟨subscriber, hcommand⟩
    · rw [Stamped.outputs_of_call hsymbol hcall]
      refine h.snapshots.append fun before output hmem ready hready => ?_
      rw [hready] at hmem
      simp at hmem
    · rw [Stamped.outputs_of_snapshot hcommand]
      refine History.each_concat.mpr ⟨h.snapshots, fun ready hready => ?_⟩
      obtain rfl := Output.snapshotReady.inj hready
      -- The snapshot carries the number before the book's next one.
      show b.nextSeq - 1 = _
      rw [h.events, h.numbered.nextSeq, Nat.add_sub_cancel]
  case numbered => exact hspans.numbered h.numbered

end Carries

namespace Worker

variable {w w' : Worker} {item : Stamped} {symbol : SymbolId} {h : Hosted}

/-- An item that a worker can take is a shutdown, or for one of its books. -/
theorem book_of_run (hrun : w.run [item] = some w') :
    item.command.symbol? = none ∧ w' = w ∨
      ∃ symbol h, item.command.symbol? = some symbol ∧ w.books symbol = some h := by
  cases hsymbol : item.command.symbol? with
  | none =>
    cases hcommand : item.command with
    | shutdown =>
      rw [run] at hrun
      simp only [hcommand] at hrun
      exact Or.inl ⟨rfl, (Option.some.inj hrun).symm⟩
    | _ => simp [hcommand, Command.symbol?] at hsymbol
  | some symbol =>
    refine Or.inr ⟨symbol, ?_⟩
    cases hbook : w.books symbol with
    | some h => exact ⟨h, rfl, rfl⟩
    | none =>
      rw [run] at hrun
      cases hcommand : item.command <;>
        simp_all [Command.symbol?, handle, bookFor]

end Worker

namespace Publisher

variable {p p' : Publisher} {output : Output} {a : Action}

/-- An open publisher takes an output. -/
theorem Wf.take_records (h : p.Wf) (hrecorded : p.Recorded) (hopen : p.closed = false)
    (hact : p.act (.take output) = .ok p') :
    p'.Wf ∧ p'.Recorded ∧ p'.routed = p.routed ++ [output] := by
  obtain ⟨_, hact', hwf, -, -, hrecord⟩ := act_spec h (.take output)
  obtain rfl := Except.ok.inj (hact.symm.trans hact')
  refine ⟨hwf, hrecorded.act h hact, ?_⟩
  rw [hrecord.routed]
  unfold noted
  simp only [hopen, Bool.false_eq_true, if_false]
  cases output <;> rfl

/-- The other actions take none. -/
theorem Wf.routed_act (h : p.Wf) (hact : p.act a = .ok p') (htakes : ∀ output, a ≠ .take output) :
    p'.routed = p.routed := by
  obtain ⟨_, hact', -, -, -, hrecord⟩ := act_spec h a
  obtain rfl := Except.ok.inj (hact.symm.trans hact')
  rw [hrecord.routed]
  cases a with
  | take output => exact absurd rfl (htakes output)
  | _ => rfl

end Publisher

namespace EngineNode

variable {n n' : EngineNode} {a : Action} {i j : ℕ} {symbol : SymbolId}

/-- The worker of a partition. -/
def worker (n : EngineNode) (i : ℕ) : Worker := (n.threads i).worker

/-- What has been pushed into the outbox. -/
def pushed (n : EngineNode) : List Output := n.publisher.routed ++ n.outbox

/-- What an action can do: the queues alone, one worker, or the publisher. -/
inductive Does (n n' : EngineNode) : Prop
  /-- A queue gets an item, or the end of the outbox. -/
  | queue (worker : n'.worker = n.worker) (publisher : n'.publisher = n.publisher)
      (outbox : n'.outbox = n.outbox ∨ n'.outbox = n.outbox ++ [.outboxClosed])
  /-- A worker takes an item. -/
  | work (i : ℕ) (item : Stamped) (w : Worker) (idle : (n.worker i).outbox = [])
      (run : (n.worker i).run [item] = some w) (worker : n'.worker = Function.update n.worker i w)
      (publisher : n'.publisher = n.publisher) (outbox : n'.outbox = n.outbox)
  /-- A worker pushes an output. -/
  | push (i : ℕ) (output : Output) (outputs : List Output)
      (pending : (n.worker i).outbox = output :: outputs)
      (worker : n'.worker = Function.update n.worker i { n.worker i with outbox := outputs })
      (publisher : n'.publisher = n.publisher) (outbox : n'.outbox = n.outbox ++ [output])
  /-- The publisher takes an output, and drops who was too slow. -/
  | route (output : Output) (open_ : n.publisher.closed = false)
      (act : (n.tooSlow.foldl Publisher.dropSlow n.publisher).act (.take output) = .ok n'.publisher)
      (worker : n'.worker = n.worker) (outbox : n.outbox = output :: n'.outbox)
  /-- The publisher does something else. -/
  | publisher (a : Publisher.Action) (takes : ∀ output, a ≠ .take output)
      (act : n.publisher.act a = .ok n'.publisher) (worker : n'.worker = n.worker)
      (outbox : n'.outbox = n.outbox)

/-- A thread that is put in brings its worker. -/
theorem worker_setThread (n : EngineNode) (i : ℕ) (t : WorkerThread) :
    (n.setThread i t).worker = Function.update n.worker i t.worker :=
  Function.comp_update WorkerThread.worker n.threads i t

/-- An item that is submitted changes no worker. -/
theorem worker_submit (n : EngineNode) (i : ℕ) (item : Stamped) : (n.submit i item).worker = n.worker := by
  rw [submit, worker_setThread]
  exact Function.update_eq_self i n.worker

/-- A result that is there is the result. -/
theorem ok_of_toOption {ε α : Type} {x : Except ε α} {y : α} (h : x.toOption = some y) : x = .ok y := by
  cases x with
  | error => cases h
  | ok => exact congrArg _ (Option.some.inj h)

/-- A call under the lock changes the publisher alone. -/
theorem locked_spec {f : Publisher → Publisher} (h : n.locked f = some n') :
    n'.publisher = f n.publisher ∧ n'.worker = n.worker ∧ n'.outbox = n.outbox := by
  unfold locked at h
  split_ifs at h
  obtain rfl := Option.some.inj h
  exact ⟨rfl, rfl, rfl⟩

/-- **Actions.** -/
theorem does_of_step (h : n.step a = some n') : Does n n' := by
  cases a with
  | submit i item =>
    obtain rfl := Option.some.inj h
    exact .queue (n.worker_submit i item) rfl (Or.inl rfl)
  | work i =>
    replace h : n.work i = some n' := h
    obtain ⟨t, hwork, rfl⟩ := Option.map_eq_some_iff.mp h
    obtain ⟨item, inbox, w, -, hidle, -, hrun, rfl⟩ := WorkerThread.work_spec hwork
    exact .work i item w hidle hrun (n.worker_setThread i _) rfl rfl
  | push i =>
    replace h : n.push i = some n' := h
    unfold push at h
    cases hpending : (n.threads i).worker.outbox with
    | nil => simp [hpending] at h
    | cons output outputs =>
      simp only [hpending] at h
      obtain rfl := Option.some.inj h
      exact .push i output outputs hpending (n.worker_setThread i _) rfl rfl
  | closeOutbox =>
    obtain rfl := Option.some.inj h
    exact .queue rfl rfl (Or.inr rfl)
  | miss id =>
    replace h : n.miss id = some n' := h
    unfold miss at h
    split_ifs at h
    cases houtbox : n.outbox with
    | nil => simp [houtbox] at h
    | cons output outbox =>
      simp only [houtbox] at h
      split_ifs at h
      obtain rfl := Option.some.inj h
      exact .queue rfl rfl (Or.inl houtbox.symm)
  | route =>
    replace h : n.route = some n' := h
    unfold route at h
    split_ifs at h with hclosed
    cases houtbox : n.outbox with
    | nil => simp [houtbox] at h
    | cons output outbox =>
      simp only [houtbox] at h
      obtain ⟨p, htake, rfl⟩ := Option.map_eq_some_iff.mp h
      exact .route output (Bool.not_eq_true _ ▸ hclosed) (ok_of_toOption htake) rfl houtbox
  | subscribe gatewayId symbols fromSeq =>
    replace h : n.subscribe gatewayId symbols fromSeq = some n' := h
    unfold subscribe at h
    split_ifs at h
    obtain ⟨⟨p, result, snapshots⟩, hsubscribe, hn'⟩ := Option.map_eq_some_iff.mp h
    have hact : n.publisher.act (.subscribe gatewayId symbols fromSeq) = .ok p := by
      rw [Publisher.act, ok_of_toOption hsubscribe]
      rfl
    -- Whether the subscription is granted or not, only the publisher and the requests change.
    refine .publisher (.subscribe gatewayId symbols fromSeq) (by simp) ?_ ?_ ?_
    all_goals
      simp only at hn'
      cases hid : result.subscription <;> simp only [hid] at hn' <;> subst hn'
    all_goals first
      | exact hact
      | rfl
  | request id =>
    replace h : n.request id = some n' := h
    unfold request at h
    cases hrequests : n.requests id with
    | nil => simp [hrequests] at h
    | cons symbol symbols =>
      simp only [hrequests] at h
      obtain ⟨i, -, rfl⟩ := Option.map_eq_some_iff.mp h
      exact .queue (worker_submit _ i _) rfl (Or.inl rfl)
  | subscribeReplies gatewayId =>
    replace h : n.locked (fun p => (p.subscribeReplies gatewayId).1) = some n' := h
    obtain ⟨hpublisher, hworker, houtbox⟩ := locked_spec h
    exact .publisher (.subscribeReplies gatewayId) (by simp) (congrArg Except.ok hpublisher.symm)
      hworker houtbox
  | unsubscribe id =>
    replace h : n.locked (fun p => p.unsubscribe id) = some n' := h
    obtain ⟨hpublisher, hworker, houtbox⟩ := locked_spec h
    exact .publisher (.unsubscribe id) (by simp) (congrArg Except.ok hpublisher.symm) hworker houtbox
  | nextFor id =>
    obtain rfl := Option.some.inj h
    exact .publisher (.nextFor id) (by simp) rfl rfl rfl

/-! ## Soundness -/

/-- The worker has a book of the symbol. -/
def Hosts (n : EngineNode) (i : ℕ) (symbol : SymbolId) : Prop := ((n.worker i).books symbol).isSome

/-- What holds between the actions of the threads. -/
structure Sound (n : EngineNode) : Prop where
  /-- The publisher is well formed. -/
  publisher : n.publisher.Wf
  /-- The publisher has a record of what it has routed. -/
  recorded : n.publisher.Recorded
  /-- One worker at most has a book of a symbol. -/
  apart : ∀ i j symbol, n.Hosts i symbol → n.Hosts j symbol → i = j
  /-- A worker pushes nothing for a symbol of another. -/
  pending : ∀ i symbol, outputsFor symbol (n.worker i).outbox ≠ [] → n.Hosts i symbol
  /-- Whatever has been pushed is for a symbol of some worker. -/
  pushed : ∀ symbol, outputsFor symbol n.pushed ≠ [] → ∃ i, n.Hosts i symbol
  /-- What has been pushed for a symbol, and will be, is the stream of its book. -/
  streams : ∀ i symbol h, (n.worker i).books symbol = some h → ∃ b, h = b.hosted ∧
    Carries symbol b (outputsFor symbol n.pushed ++ outputsFor symbol (n.worker i).outbox)

namespace Sound

/-- Only the publisher, the workers and the outputs pushed count. -/
theorem congr (h : n.Sound) (hpublisher : n'.publisher.Wf) (hrecorded : n'.publisher.Recorded)
    (hworker : n'.worker = n.worker)
    (hpushed : ∀ symbol, outputsFor symbol n'.pushed = outputsFor symbol n.pushed) : n'.Sound := by
  have hhosts : ∀ i symbol, n'.Hosts i symbol ↔ n.Hosts i symbol := fun i symbol => by
    unfold Hosts
    rw [hworker]
  constructor
  case publisher => exact hpublisher
  case recorded => exact hrecorded
  case apart =>
    exact fun i j symbol hi hj => h.apart i j symbol ((hhosts i symbol).mp hi) ((hhosts j symbol).mp hj)
  case pending =>
    intro i symbol hne
    rw [hworker] at hne
    exact (hhosts i symbol).mpr (h.pending i symbol hne)
  case pushed =>
    intro symbol hne
    rw [hpushed] at hne
    obtain ⟨i, hi⟩ := h.pushed symbol hne
    exact ⟨i, (hhosts i symbol).mpr hi⟩
  case streams =>
    intro i symbol hosted hbook
    rw [hworker] at hbook ⊢
    rw [hpushed]
    exact h.streams i symbol hosted hbook

/-- A worker handles an item: its book moves on, and so does the stream of its symbol. -/
theorem work (h : n.Sound) {item : Stamped} {w : Worker} (hidle : (n.worker i).outbox = [])
    (hrun : (n.worker i).run [item] = some w) (hworker : n'.worker = Function.update n.worker i w)
    (hpublisher : n'.publisher = n.publisher) (houtbox : n'.outbox = n.outbox) : n'.Sound := by
  have hpushed : n'.pushed = n.pushed := by
    unfold EngineNode.pushed
    rw [hpublisher, houtbox]
  rcases Worker.book_of_run hrun with ⟨-, rfl⟩ | ⟨symbol, hosted, hsymbol, hbook⟩
  · refine h.congr (hpublisher ▸ h.publisher) (hpublisher ▸ h.recorded) ?_ fun symbol => by rw [hpushed]
    rw [hworker, Function.update_eq_self]
  obtain ⟨b, rfl, hcarries⟩ := h.streams i symbol hosted hbook
  have hafter : w = (n.worker i).after item symbol b :=
    Option.some.inj (hrun.symm.trans (Worker.run_cons_of_book [] hsymbol hbook))
  have houtputs : w.outbox = item.outputs symbol b (n.worker i).lastTs := by
    rw [hafter]
    show (n.worker i).outbox ++ _ = _
    rw [hidle, List.nil_append]
  have hall : ∀ o ∈ w.outbox, o.symbol? = some symbol := by
    rw [houtputs]
    exact Worker.symbol_outputs hsymbol b _
  have hsame : outputsFor symbol w.outbox = w.outbox :=
    List.filter_eq_self.mpr fun o ho => decide_eq_true (hall o ho)
  have hother : ∀ other, other ≠ symbol → outputsFor other w.outbox = [] := fun other hne =>
    List.filter_eq_nil_iff.mpr fun o ho he =>
      hne (Option.some.inj ((of_decide_eq_true he).symm.trans (hall o ho)))
  have hbooks : w.books = Function.update (n.worker i).books symbol
      (some (b.run (item.callOn symbol (n.worker i).lastTs).toList).hosted) := by
    rw [hafter]
    rfl
  -- No worker gets a book or loses one.
  have hhosts : ∀ j other, n'.Hosts j other ↔ n.Hosts j other := by
    intro j other
    unfold Hosts
    rw [hworker]
    by_cases hj : j = i
    · rw [hj, Function.update_self, hbooks]
      by_cases hsymbol' : other = symbol
      · rw [hsymbol', Function.update_self, hbook]
        exact Iff.rfl
      · rw [Function.update_of_ne hsymbol']
    · rw [Function.update_of_ne hj]
  constructor
  case publisher => exact hpublisher ▸ h.publisher
  case recorded => exact hpublisher ▸ h.recorded
  case apart =>
    exact fun j k other hj hk => h.apart j k other ((hhosts j other).mp hj) ((hhosts k other).mp hk)
  case pending =>
    intro j other hne
    rw [hworker] at hne
    by_cases hj : j = i
    · rw [hj, Function.update_self] at hne
      have hsymbol' : other = symbol := by_contra fun hn => hne (hother other hn)
      rw [hj, hsymbol', hhosts]
      exact Option.isSome_of_eq_some hbook
    · rw [Function.update_of_ne hj] at hne
      exact (hhosts j other).mpr (h.pending j other hne)
  case pushed =>
    intro other hne
    rw [hpushed] at hne
    obtain ⟨j, hj⟩ := h.pushed other hne
    exact ⟨j, (hhosts j other).mpr hj⟩
  case streams =>
    intro j other hosted hbook'
    rw [hpushed]
    rw [hworker] at hbook' ⊢
    by_cases hj : j = i
    · subst hj
      rw [Function.update_self] at hbook' ⊢
      rw [hbooks] at hbook'
      by_cases hsymbol' : other = symbol
      · subst hsymbol'
        rw [Function.update_self] at hbook'
        obtain rfl := Option.some.inj hbook'
        have hnone : outputsFor other (n.worker j).outbox = [] := by rw [hidle]; rfl
        rw [hnone, List.append_nil] at hcarries
        refine ⟨_, rfl, ?_⟩
        rw [hsame, houtputs]
        exact hcarries.handle hsymbol
      · rw [Function.update_of_ne hsymbol'] at hbook'
        have hcarries' := h.streams j other hosted hbook'
        rw [hother other hsymbol']
        rw [hidle] at hcarries'
        exact hcarries'
    · rw [Function.update_of_ne hj] at hbook' ⊢
      exact h.streams j other hosted hbook'

/-- A worker pushes an output: the stream of its symbol is the same, and no other shows it. -/
theorem push (h : n.Sound) {output : Output} {outputs : List Output}
    (hpending : (n.worker i).outbox = output :: outputs)
    (hworker : n'.worker = Function.update n.worker i { n.worker i with outbox := outputs })
    (hpublisher : n'.publisher = n.publisher) (houtbox : n'.outbox = n.outbox ++ [output]) :
    n'.Sound := by
  -- One output moves from the worker to the shared queue, behind those of its symbol.
  have hpushed : n'.pushed = n.pushed ++ [output] := by
    unfold EngineNode.pushed
    rw [hpublisher, houtbox, List.append_assoc]
  have hbooks : ∀ j, (n'.worker j).books = (n.worker j).books := fun j => by
    rw [hworker]
    by_cases hj : j = i
    · rw [hj, Function.update_self]
    · rw [Function.update_of_ne hj]
  have hhosts : ∀ j symbol, n'.Hosts j symbol ↔ n.Hosts j symbol := fun j symbol => by
    unfold Hosts
    rw [hbooks]
  have hmine : ∀ symbol, outputsFor symbol (n.worker i).outbox =
      outputsFor symbol [output] ++ outputsFor symbol outputs := fun symbol => by
    rw [hpending, ← outputsFor_append]
    rfl
  -- Its symbol, if it has one, is hosted by this worker.
  have howner : ∀ symbol, outputsFor symbol [output] ≠ [] → n.Hosts i symbol := fun symbol hne =>
    h.pending i symbol fun hnone => hne (List.append_eq_nil_iff.mp ((hmine symbol).symm.trans hnone)).1
  constructor
  case publisher => exact hpublisher ▸ h.publisher
  case recorded => exact hpublisher ▸ h.recorded
  case apart =>
    exact fun j k symbol hj hk => h.apart j k symbol ((hhosts j symbol).mp hj) ((hhosts k symbol).mp hk)
  case pending =>
    intro j symbol hne
    rw [hworker] at hne
    rw [hhosts]
    by_cases hj : j = i
    · rw [hj, Function.update_self] at hne
      rw [hj]
      refine h.pending i symbol fun hnone => hne ?_
      exact (List.append_eq_nil_iff.mp ((hmine symbol).symm.trans hnone)).2
    · rw [Function.update_of_ne hj] at hne
      exact h.pending j symbol hne
  case pushed =>
    intro symbol hne
    rw [hpushed, outputsFor_append] at hne
    simp only [hhosts]
    by_cases hout : outputsFor symbol [output] = []
    · rw [hout, List.append_nil] at hne
      exact h.pushed symbol hne
    · exact ⟨i, howner symbol hout⟩
  case streams =>
    intro j symbol hosted hbook
    have hbook' : (n.worker j).books symbol = some hosted := (congrFun (hbooks j) symbol).symm.trans hbook
    obtain ⟨b, hb, hcarries⟩ := h.streams j symbol hosted hbook'
    refine ⟨b, hb, ?_⟩
    rw [hpushed, outputsFor_append, hworker]
    by_cases hj : j = i
    · rw [hj, hmine, ← List.append_assoc] at hcarries
      rw [hj, Function.update_self]
      exact hcarries
    · -- An output for this symbol would make the two workers one.
      have hout : outputsFor symbol [output] = [] := by_contra fun hne =>
        hj (h.apart j i symbol (Option.isSome_of_eq_some hbook') (howner symbol hne))
      rw [Function.update_of_ne hj, hout, List.append_nil]
      exact hcarries

/-- The publisher takes an output, which stays among those that have been pushed. -/
theorem route (h : n.Sound) {output : Output} (hopen : n.publisher.closed = false)
    (hact : (n.tooSlow.foldl Publisher.dropSlow n.publisher).act (.take output) = .ok n'.publisher)
    (hworker : n'.worker = n.worker) (houtbox : n.outbox = output :: n'.outbox) : n'.Sound := by
  obtain ⟨-, hdropped, hwf⟩ := Publisher.dropAll_spec (p := n.publisher) n.tooSlow
  obtain ⟨hwf', hrecorded, hrouted⟩ := (hwf h.publisher).take_records (h.recorded.congr hdropped)
    (hdropped.closed.trans hopen) hact
  refine h.congr hwf' hrecorded hworker fun symbol => ?_
  unfold EngineNode.pushed
  rw [hrouted, hdropped.routed, houtbox, List.append_assoc]
  rfl

/-- **One action.** -/
theorem step (h : n.Sound) (hstep : n.step a = some n') : n'.Sound := by
  cases does_of_step hstep with
  | queue worker publisher outbox =>
    refine h.congr (publisher ▸ h.publisher) (publisher ▸ h.recorded) worker fun symbol => ?_
    unfold EngineNode.pushed
    rw [publisher]
    rcases outbox with outbox | outbox
    · rw [outbox]
    · rw [outbox, ← List.append_assoc, outputsFor_append]
      exact List.append_nil _
  | work i item w idle run worker publisher outbox => exact h.work idle run worker publisher outbox
  | push i output outputs pending worker publisher outbox =>
    exact h.push pending worker publisher outbox
  | route output open_ act worker outbox => exact h.route open_ act worker outbox
  | publisher a takes act worker outbox =>
    obtain ⟨_, hact, hwf, -, -, hrecord⟩ := Publisher.act_spec h.publisher a
    obtain rfl := Except.ok.inj (act.symm.trans hact)
    refine h.congr hwf (h.recorded.act h.publisher act) worker fun symbol => ?_
    unfold EngineNode.pushed
    rw [h.publisher.routed_act act takes, outbox]

/-- **Every interleaving.** -/
theorem run (h : n.Sound) {actions : List Action} (hrun : n.run actions = some n') : n'.Sound := by
  induction actions generalizing n with
  | nil => exact Option.some.inj hrun ▸ h
  | cons a actions ih =>
    obtain ⟨n₁, hstep, hrest⟩ := Option.bind_eq_some_iff.mp hrun
    exact ih (h.step hstep) hrest

end Sound

/-! ## The setup -/

/-- Workers with fresh books for some instruments. -/
structure Assigned (instruments : List Instrument) (workers : ℕ → Worker) : Prop where
  /-- No worker has anything to push. -/
  idle : ∀ i, (workers i).outbox = []
  /-- Every book is fresh, and of an instrument of the worker. -/
  fresh : ∀ i symbol h, (workers i).books symbol = some h → ∃ cfg, h = (Book.make cfg).hosted ∧
    ∃ instrument ∈ instruments, instrument.id = symbol ∧ instrument.partition = i

/-- One more instrument gets a fresh book. -/
theorem Assigned.add {partitions : ℕ} {instruments : List Instrument} {workers workers' : ℕ → Worker}
    {instrument : Instrument} (h : Assigned instruments workers)
    (hadd : addInstrument partitions workers instrument = .ok workers') :
    Assigned (instruments ++ [instrument]) workers' := by
  unfold addInstrument Worker.addBook at hadd
  split_ifs at hadd
  · cases hadd
  obtain rfl := Except.ok.inj hadd
  -- The books that were there keep their instruments.
  have hold : ∀ i symbol h, (workers i).books symbol = some h → ∃ cfg, h = (Book.make cfg).hosted ∧
      ∃ other ∈ instruments ++ [instrument], other.id = symbol ∧ other.partition = i := by
    intro i symbol hosted hbook
    obtain ⟨cfg, hcfg, other, hmem, hother⟩ := h.fresh i symbol hosted hbook
    exact ⟨cfg, hcfg, other, List.mem_append_left _ hmem, hother⟩
  constructor
  case idle =>
    intro i
    by_cases hi : i = instrument.partition
    · rw [hi, Function.update_self]
      exact h.idle _
    · rw [Function.update_of_ne hi]
      exact h.idle i
  case fresh =>
    intro i symbol hosted hbook
    by_cases hi : i = instrument.partition
    · subst hi
      rw [Function.update_self] at hbook
      by_cases hsymbol : symbol = instrument.id
      · subst hsymbol
        simp only [Function.update_self, Option.some.injEq] at hbook
        exact ⟨instrument.cfg, hbook.symm, instrument, by simp, rfl, rfl⟩
      · simp only [Function.update_of_ne hsymbol] at hbook
        exact hold _ symbol hosted hbook
    · rw [Function.update_of_ne hi] at hbook
      exact hold i symbol hosted hbook

/-- A list of instruments gets fresh books. -/
theorem assigned_foldlM {partitions : ℕ} {done instruments : List Instrument}
    {workers workers' : ℕ → Worker} (h : Assigned done workers)
    (hfold : instruments.foldlM (addInstrument partitions) workers = .ok workers') :
    Assigned (done ++ instruments) workers' := by
  induction instruments generalizing done workers with
  | nil =>
    obtain rfl := Except.ok.inj hfold
    rwa [List.append_nil]
  | cons instrument instruments ih =>
    rw [List.foldlM_cons] at hfold
    cases hadd : addInstrument partitions workers instrument with
    | error e => rw [hadd] at hfold; cases hfold
    | ok workers₁ =>
      rw [hadd] at hfold
      have hall := ih (h.add hadd) hfold
      rwa [List.append_assoc] at hall

/-- The parts of a node that is set up. -/
theorem parts_of_make {partitions : ℕ} {instruments : List Instrument} {options : PublisherOptions}
    (h : make partitions instruments options = .ok n) :
    Assigned instruments n.worker ∧
      Publisher.make (instruments.map Instrument.id) options = .ok n.publisher ∧ n.outbox = [] := by
  unfold make at h
  cases hworkers : instruments.foldlM (addInstrument partitions) fun _ => Worker.make fun _ => none with
  | error e => rw [hworkers] at h; cases h
  | ok workers =>
    cases hpublisher : Publisher.make (instruments.map Instrument.id) options with
    | error e => rw [hworkers, hpublisher] at h; cases h
    | ok publisher =>
      rw [hworkers, hpublisher] at h
      obtain rfl := Except.ok.inj h
      have hstart : Assigned [] fun _ => Worker.make fun _ => none :=
        ⟨fun _ => rfl, fun _ _ _ hbook => by cases hbook⟩
      exact ⟨assigned_foldlM hstart hworkers, rfl, rfl⟩

/-- **The start.** -/
theorem sound_make {partitions : ℕ} {instruments : List Instrument} {options : PublisherOptions}
    (h : make partitions instruments options = .ok n) : n.Sound := by
  obtain ⟨hassigned, hpublisher, houtbox⟩ := parts_of_make h
  obtain ⟨hwf, hrecorded, -, hrouted⟩ := Publisher.wf_make hpublisher
  have hnodup : (instruments.map Instrument.id).Nodup := by
    unfold Publisher.make at hpublisher
    split_ifs at hpublisher with hzero hdup
    exact hdup
  have hpushed : ∀ symbol, outputsFor symbol n.pushed = [] := fun symbol => by
    unfold pushed
    rw [hrouted, houtbox]
    rfl
  have hidle : ∀ i symbol, outputsFor symbol (n.worker i).outbox = [] := fun i symbol => by
    rw [hassigned.idle]
    rfl
  constructor
  case publisher => exact hwf
  case recorded => exact hrecorded
  case apart =>
    intro i j symbol hi hj
    obtain ⟨hosted, hbook⟩ := Option.isSome_iff_exists.mp hi
    obtain ⟨hosted', hbook'⟩ := Option.isSome_iff_exists.mp hj
    obtain ⟨-, -, x, hx, hsymbol, rfl⟩ := hassigned.fresh i symbol hosted hbook
    obtain ⟨-, -, y, hy, hsymbol', rfl⟩ := hassigned.fresh j symbol hosted' hbook'
    -- No two instruments have one symbol.
    rw [List.inj_on_of_nodup_map hnodup hx hy (hsymbol.trans hsymbol'.symm)]
  case pending => exact fun i symbol hne => absurd (hidle i symbol) hne
  case pushed => exact fun symbol hne => absurd (hpushed symbol) hne
  case streams =>
    intro i symbol hosted hbook
    obtain ⟨cfg, rfl, -⟩ := hassigned.fresh i symbol hosted hbook
    refine ⟨_, rfl, ?_⟩
    rw [hpushed, hidle]
    exact Carries.make symbol cfg

end EngineNode

end OrderBookEngine
