import OrderBookEngine.Lib.History
import OrderBookEngine.Refine.Run
import OrderBookEngine.Server.Worker

/-!
# What a worker does with its inbox

Each command is one call on the book of its symbol, at the worker's clock (`run_cons_of_book`). So a worker
that has taken an inbox has, for each of its symbols, the book of a run: the calls of that symbol, at
the times that the clock gave them (`Serves`). What it pushes for an item is a function of the item, of
its book and of the clock (`Stamped.outputs`).
-/

namespace OrderBookEngine

namespace Command

/-- The symbol of a command; `shutdown` has none. -/
def symbol? : Command → Option SymbolId
  | .newOrder _ symbol _ | .cancelOrder _ symbol _ _ | .modifyOrder _ symbol _ _ _ _
  | .placeStop _ symbol _ | .cancelStop _ symbol _ _ | .modifyStop _ symbol _ _ _ _ _
  | .takeSnapshot symbol _ => some symbol
  | .shutdown => none

/-- The client's own id for a command. -/
def clientOrderId : Command → ClientOrderId
  | .newOrder clientOrderId _ _ | .cancelOrder clientOrderId _ _ _
  | .modifyOrder clientOrderId _ _ _ _ _ | .placeStop clientOrderId _ _
  | .cancelStop clientOrderId _ _ _ | .modifyStop clientOrderId _ _ _ _ _ _ => clientOrderId
  | .shutdown | .takeSnapshot _ _ => ""

/-- The commands that bring a new order or stop. -/
def creates : Command → Bool
  | .newOrder _ _ _ | .placeStop _ _ _ => true
  | _ => false

/-- The commands that ask for a snapshot. -/
def isSnapshot : Command → Bool
  | .takeSnapshot _ _ => true
  | _ => false

end Command

namespace Stamped

variable {item : Stamped} {c : Call} {symbol : SymbolId} {last : ℤ}

/-- The id that a reply names: that of the new order or stop, or the target. -/
def orderId (item : Stamped) : OrderId :=
  match item.command with
  | .newOrder _ _ _ | .placeStop _ _ _ => item.seq
  | .cancelOrder _ _ _ orderId | .modifyOrder _ _ _ orderId _ _ | .cancelStop _ _ _ orderId
  | .modifyStop _ _ _ orderId _ _ _ => orderId
  | .shutdown | .takeSnapshot _ _ => 0

/-- The call of a command on its book, given the time. -/
def call? (item : Stamped) : Option (ℤ → Call) :=
  match item.command with
  | .newOrder _ _ order => some (.addOrder { order with id := item.seq })
  | .cancelOrder _ _ requester orderId => some (.cancelOrder orderId requester)
  | .modifyOrder _ _ requester orderId newPrice newQuantity =>
    some (.modifyOrder orderId requester newPrice newQuantity)
  | .placeStop _ _ stop => some (.placeStopOrder { stop with id := item.seq })
  | .cancelStop _ _ requester orderId => some (.cancelStopOrder orderId requester)
  | .modifyStop _ _ requester orderId newStopPrice newLimitPrice newQuantity =>
    some (.modifyStopOrder orderId requester newStopPrice newLimitPrice newQuantity)
  | .shutdown | .takeSnapshot _ _ => none

/-- The worker's clock after an item. A snapshot bypasses it. -/
def clock (item : Stamped) (last : ℤ) : ℤ := if item.call?.isSome then max item.ts last else last

/-- The call of an item on the book of a symbol. -/
def callOn (item : Stamped) (symbol : SymbolId) (last : ℤ) : Option Call :=
  if item.command.symbol? = some symbol then item.call?.map fun call => call (item.clock last) else none

/-- What the worker pushes for an event of a command's call. -/
def published (item : Stamped) (symbol : SymbolId) : EngineEvent → Output :=
  if item.command.creates then Worker.published symbol item.seq item.command.clientOrderId
  else Worker.published symbol 0 ""

end Stamped

/-- What a call answers: why, what was not accepted, and where the rest came to rest. -/
def Book.answer (b : Book) : Call → RejectReason × ℤ × Option ℤ
  | .addOrder order now =>
    let result := (b.addOrder order now).2
    (result.rejectReason, result.unacceptedQuantity, result.restedPrice)
  | .modifyOrder orderId requester newPrice newTotalQty now =>
    let result := (b.modifyOrder orderId requester newPrice newTotalQty now).2
    (result.rejectReason, result.unacceptedQuantity, result.restedPrice)
  | .cancelOrder orderId requester now => ((b.cancelOrder orderId requester now).2, 0, none)
  | .placeStopOrder stop now => ((b.placeStopOrder stop now).2, 0, none)
  | .cancelStopOrder orderId requester now => ((b.cancelStopOrder orderId requester now).2, 0, none)
  | .modifyStopOrder orderId requester newStopPrice newLimitPrice newQty now =>
    ((b.modifyStopOrder orderId requester newStopPrice newLimitPrice newQty now).2, 0, none)

namespace Stamped

variable {item : Stamped} {c : Call} {symbol : SymbolId} {last : ℤ}

/-- The reply to a command. -/
def reply (item : Stamped) (symbol : SymbolId) (answer : RejectReason × ℤ × Option ℤ) : Reply where
  clientOrderId := item.command.clientOrderId
  symbol := symbol
  rejectReason := answer.1
  unacceptedQuantity := answer.2.1
  restedPrice := answer.2.2
  gatewayId := item.gatewayId
  accountId := item.accountId
  orderId := item.orderId

/-- What the worker pushes for an item, from the book of its symbol: the events of its call and the
reply, or a snapshot. -/
def outputs (item : Stamped) (symbol : SymbolId) (b : Book) (last : ℤ) : List Output :=
  match item.callOn symbol last with
  | some c => (b.emitted c).map (item.published symbol) ++ [.reply (item.reply symbol (b.answer c))]
  | none =>
    match item.command with
    | .takeSnapshot symbol subscriber => [.snapshotReady { symbol, subscriber, snapshot := b.snapshot }]
    | _ => []

/-- The call of a command is at the time that it is given, and a new id is the sequence number. -/
theorem call?_spec {call : ℤ → Call} (h : item.call? = some call) (now : ℤ) :
    (call now).now = now ∧ (call now).creates = item.command.creates ∧
      (item.command.creates = true → (call now).id = item.seq) := by
  unfold call? at h
  unfold Command.creates
  cases hcommand : item.command <;> rw [hcommand] at h <;> simp at h <;> subst h <;>
    exact ⟨rfl, rfl, by simp [Call.id]⟩

/-- A call on a symbol is that of a command on it, at the worker's clock. -/
theorem call?_of_callOn (h : item.callOn symbol last = some c) :
    item.command.symbol? = some symbol ∧ ∃ call, item.call? = some call ∧ c = call (item.clock last) := by
  unfold callOn at h
  split_ifs at h with hsymbol
  obtain ⟨call, hcall, rfl⟩ := Option.map_eq_some_iff.mp h
  exact ⟨hsymbol, call, hcall, rfl⟩

/-- The clock never goes back. -/
theorem le_clock (item : Stamped) (last : ℤ) : last ≤ item.clock last := by
  unfold clock
  split_ifs
  · exact le_max_right _ _
  · exact le_rfl

end Stamped

/-- A book with nothing left to drain. -/
def Book.hosted (b : Book) : Hosted := { book := b, drained := b.events.length }

/-- A hosted book is the book. -/
@[simp] theorem Book.book_hosted (b : Book) : b.hosted.book = b := rfl

namespace Worker

variable {w w' : Worker} {item : Stamped} {symbol : SymbolId} {b : Book} {c : Call}
  {before : List Stamped}

/-- A worker after an item of a symbol. -/
def after (w : Worker) (item : Stamped) (symbol : SymbolId) (b : Book) : Worker where
  books := Function.update w.books symbol
    (some (b.run (item.callOn symbol w.lastTs).toList).hosted)
  outbox := w.outbox ++ item.outputs symbol b w.lastTs
  lastTs := item.clock w.lastTs

/-- A worker that has a book takes the item, and goes on. -/
theorem run_cons_of_book (inbox : List Stamped) (hsymbol : item.command.symbol? = some symbol)
    (hbook : w.books symbol = some b.hosted) :
    w.run (item :: inbox) = (w.after item symbol b).run inbox := by
  -- A snapshot leaves the book as it is.
  have hsame : Function.update w.books symbol (some b.hosted) = w.books := by
    rw [← hbook]
    exact Function.update_eq_self _ _
  rw [run]
  cases hcommand : item.command with
  | shutdown =>
    rw [hcommand] at hsymbol
    cases hsymbol
  | takeSnapshot s subscriber =>
    simp only [hcommand, Command.symbol?, Option.some.injEq] at hsymbol
    subst hsymbol
    simp [bookFor, hbook, push, after, Stamped.outputs, Stamped.callOn, Stamped.call?, Stamped.clock,
      hcommand, hsame, Command.symbol?]
  | _ =>
    simp only [hcommand, Command.symbol?, Option.some.injEq] at hsymbol
    subst hsymbol
    simp [bookFor, hbook, push, after, handle, Stamped.outputs, Stamped.callOn, Stamped.call?,
      Stamped.clock, hcommand, Command.symbol?, Book.hosted, publish, reply, Hosted.drainEvents,
      Stamped.reply, Stamped.published, Command.creates, Command.clientOrderId, Stamped.orderId,
      Book.answer, Book.emitted, Book.call]

/-! ## Inboxes -/

/-- Every item is for a symbol of the worker. -/
def Owned (cfgs : SymbolId → Option Config) (inbox : List Stamped) : Prop :=
  ∀ item ∈ inbox, ∃ symbol cfg, item.command.symbol? = some symbol ∧ cfgs symbol = some cfg

/-- The clock after an inbox. -/
def clockFrom (last : ℤ) (inbox : List Stamped) : ℤ :=
  inbox.foldl (fun last item => item.clock last) last

/-- The calls of an inbox on the book of a symbol. -/
def callsFrom (symbol : SymbolId) (last : ℤ) : List Stamped → List Call
  | [] => []
  | item :: inbox => (item.callOn symbol last).toList ++ callsFrom symbol (item.clock last) inbox

/-- The clock goes on from item to item. -/
theorem clockFrom_cons (last : ℤ) (item : Stamped) (inbox : List Stamped) :
    clockFrom last (item :: inbox) = clockFrom (item.clock last) inbox := rfl

/-- The last item moves the clock last. -/
theorem clockFrom_concat (last : ℤ) (inbox : List Stamped) (item : Stamped) :
    clockFrom last (inbox ++ [item]) = item.clock (clockFrom last inbox) := by
  unfold clockFrom
  rw [List.foldl_append]
  rfl

/-- The calls of two lists follow one another, at their times. -/
theorem callsFrom_append (symbol : SymbolId) (last : ℤ) (inbox rest : List Stamped) :
    callsFrom symbol last (inbox ++ rest) =
      callsFrom symbol last inbox ++ callsFrom symbol (clockFrom last inbox) rest := by
  induction inbox generalizing last with
  | nil => rfl
  | cons first inbox ih =>
    rw [List.cons_append, callsFrom, callsFrom, ih, List.append_assoc]
    rfl

/-- The last item makes the last call. -/
theorem callsFrom_concat (symbol : SymbolId) (last : ℤ) (inbox : List Stamped) (item : Stamped) :
    callsFrom symbol last (inbox ++ [item]) =
      callsFrom symbol last inbox ++ (item.callOn symbol (clockFrom last inbox)).toList := by
  rw [callsFrom_append, callsFrom, callsFrom, List.append_nil]

/-- Until a worker is shut down, its loop goes on from where it is. -/
theorem run_append (hbefore : ∀ item ∈ before, item.command ≠ .shutdown) (rest : List Stamped) :
    w.run (before ++ rest) = (w.run before).bind fun w => w.run rest := by
  induction before generalizing w with
  | nil => rfl
  | cons item before ih =>
    have hrest : ∀ {w : Worker}, w.run (before ++ rest) = (w.run before).bind fun w => w.run rest :=
      ih fun item hitem => hbefore item (List.mem_cons_of_mem _ hitem)
    rw [List.cons_append, run, run]
    cases hcommand : item.command with
    | shutdown => exact absurd hcommand (hbefore item List.mem_cons_self)
    | _ => simp only [hrest, Option.bind_assoc]

/-- Nothing behind a shutdown is taken. -/
theorem run_shutdown {stop : Stamped} (hbefore : ∀ item ∈ before, item.command ≠ .shutdown)
    (hstop : stop.command = .shutdown) (rest : List Stamped) :
    w.run (before ++ stop :: rest) = w.run before := by
  have hlast : ∀ w : Worker, w.run (stop :: rest) = some w := fun w => by
    rw [run]
    simp only [hstop]
  rw [run_append hbefore]
  simp only [hlast, Option.bind_fun_some]

/-- A worker that has taken an inbox: its clock, and the book of each of its symbols. -/
structure Serves (cfgs : SymbolId → Option Config) (inbox : List Stamped) (w : Worker) : Prop where
  /-- Its clock has seen all items. -/
  lastTs : w.lastTs = clockFrom 0 inbox
  /-- The book of each symbol has been called by its items. -/
  books : ∀ symbol, w.books symbol = (cfgs symbol).map fun cfg =>
    ((Book.make cfg).run (callsFrom symbol 0 inbox)).hosted

section Serves

variable {cfgs : SymbolId → Option Config} {inbox : List Stamped} {cfg : Config}

/-- No item for a symbol is a shutdown. -/
theorem Owned.no_shutdown (h : Owned cfgs inbox) : ∀ item ∈ inbox, item.command ≠ .shutdown := by
  intro item hitem hcommand
  obtain ⟨symbol, cfg, hsymbol, -⟩ := h item hitem
  rw [hcommand] at hsymbol
  cases hsymbol

/-- A new worker has its books, and nothing taken. -/
theorem serves_make (cfgs : SymbolId → Option Config) : Serves cfgs [] (make cfgs) where
  lastTs := rfl
  books symbol := by
    show (cfgs symbol).map _ = (cfgs symbol).map _
    rfl

/-- A call is on the book of one symbol. -/
theorem callOn_of_ne {other : SymbolId} (hsymbol : item.command.symbol? = some symbol)
    (hne : other ≠ symbol) (last : ℤ) : item.callOn other last = none := by
  unfold Stamped.callOn
  rw [if_neg]
  rw [hsymbol]
  exact fun h => hne (Option.some.inj h).symm

/-- A worker takes one more item. -/
theorem Serves.concat (h : Serves cfgs inbox w) (hsymbol : item.command.symbol? = some symbol)
    (hcfg : cfgs symbol = some cfg) :
    w.run [item] = some (w.after item symbol ((Book.make cfg).run (callsFrom symbol 0 inbox))) ∧
      Serves cfgs (inbox ++ [item])
        (w.after item symbol ((Book.make cfg).run (callsFrom symbol 0 inbox))) := by
  have hbook : w.books symbol = some ((Book.make cfg).run (callsFrom symbol 0 inbox)).hosted := by
    rw [h.books, hcfg]
    rfl
  refine ⟨run_cons_of_book [] hsymbol hbook, ?_, fun other => ?_⟩
  · show item.clock w.lastTs = _
    rw [clockFrom_concat, h.lastTs]
  · show Function.update w.books symbol _ other = _
    rw [callsFrom_concat, h.lastTs]
    by_cases hother : other = symbol
    · rw [hother, Function.update_self, hcfg, Option.map_some, Book.run_append]
    · rw [Function.update_of_ne hother, h.books, callOn_of_ne hsymbol hother, Option.toList_none,
        List.append_nil]

/-- What a worker pushes for an item of a symbol, behind an inbox. -/
def outputsAfter (cfg : Config) (inbox : List Stamped) (item : Stamped) (symbol : SymbolId) :
    List Output :=
  item.outputs symbol ((Book.make cfg).run (callsFrom symbol 0 inbox)) (clockFrom 0 inbox)

/-- A worker that has taken `inbox` takes an item of a symbol, on the book that the inbox has left. -/
structure Takes (cfgs : SymbolId → Option Config) (inbox : List Stamped) (w : Worker) (item : Stamped)
    (symbol : SymbolId) (cfg : Config) (w' : Worker) : Prop where
  /-- The items are for its own symbols. -/
  owned : Owned cfgs inbox
  /-- The item is for this symbol. -/
  symbol_eq : item.command.symbol? = some symbol
  /-- The worker hosts the symbol. -/
  cfg_eq : cfgs symbol = some cfg
  /-- The worker has taken the items. -/
  before : (make cfgs).run inbox = some w
  /-- The other has taken one more. -/
  after : (make cfgs).run (inbox ++ [item]) = some w'
  /-- The worker has the books of the items. -/
  serves : Serves cfgs inbox w
  /-- It has pushed the outputs of the item. -/
  outbox : w'.outbox = w.outbox ++ outputsAfter cfg inbox item symbol

/-- A worker takes an item of its symbols. -/
theorem Serves.takes (h : Serves cfgs inbox w) (howned : Owned cfgs inbox)
    (hrun : (make cfgs).run inbox = some w) (hsymbol : item.command.symbol? = some symbol)
    (hcfg : cfgs symbol = some cfg) :
    ∃ w', Takes cfgs inbox w item symbol cfg w' ∧ Serves cfgs (inbox ++ [item]) w' := by
  obtain ⟨hstep, hserves⟩ := h.concat hsymbol hcfg
  have hafter := run_append howned.no_shutdown [item] (w := make cfgs)
  rw [hrun, Option.bind_some, hstep] at hafter
  refine ⟨_, ⟨howned, hsymbol, hcfg, hrun, hafter, h, ?_⟩, hserves⟩
  rw [outputsAfter, ← h.lastTs]
  rfl

/-- **Serving.** A worker takes every inbox for its symbols. What the taking of one more item keeps, it
has at the end. -/
theorem serves {P : List Stamped → Worker → Prop} (hstart : P [] (make cfgs))
    (htake : ∀ {inbox w item symbol cfg w'}, Takes cfgs inbox w item symbol cfg w' → P inbox w →
      P (inbox ++ [item]) w')
    (inbox : List Stamped) (howned : Owned cfgs inbox) :
    ∃ w, (make cfgs).run inbox = some w ∧ Serves cfgs inbox w ∧ P inbox w := by
  induction inbox using List.reverseRecOn with
  | nil => exact ⟨_, rfl, serves_make cfgs, hstart⟩
  | append_singleton inbox item ih =>
    have hbefore : Owned cfgs inbox := fun item hitem => howned item (List.mem_append_left _ hitem)
    obtain ⟨w, hrun, hserves, hP⟩ := ih hbefore
    obtain ⟨symbol, cfg, hsymbol, hcfg⟩ :=
      howned item (List.mem_append_right _ (List.mem_singleton_self item))
    obtain ⟨w', htakes, hserves'⟩ := hserves.takes hbefore hrun hsymbol hcfg
    exact ⟨w', htakes.after, hserves', htake htakes hP⟩

/-- `block` is what a worker pushes for an item behind `before`, when its clock is `last` and the book of
the symbol is `b`; it stands in the outbox of `w`. -/
structure Pushes (cfgs : SymbolId → Option Config) (w : Worker) (before : List Stamped) (item : Stamped)
    (symbol : SymbolId) (last : ℤ) (b : Book) (pushed block : List Output) : Prop where
  /-- The worker has come to the item, with this book, clock and outbox. -/
  reached : ∃ w₀, (make cfgs).run before = some w₀ ∧ w₀.lastTs = last ∧
    w₀.books symbol = some b.hosted ∧ w₀.outbox = pushed
  /-- The item has pushed the block. -/
  pushes : ∃ w₁, (make cfgs).run (before ++ [item]) = some w₁ ∧ w₁.outbox = pushed ++ block
  /-- What was pushed by then stands in the outbox. -/
  stands : (pushed ++ block) <+: w.outbox

/-- The worker has pushed the outputs for an item of its inbox. -/
def Pushed (cfgs : SymbolId → Option Config) (w : Worker) (before : List Stamped) (item : Stamped) :
    Prop :=
  ∀ symbol cfg, item.command.symbol? = some symbol → cfgs symbol = some cfg →
    ∃ pushed, Pushes cfgs w before item symbol (clockFrom 0 before)
      ((Book.make cfg).run (callsFrom symbol 0 before)) pushed (outputsAfter cfg before item symbol)

/-- The outbox holds the outputs for each item, in inbox order. -/
theorem Takes.pushed {w' : Worker} (h : Takes cfgs inbox w item symbol cfg w')
    (hpushed : History.Each (Pushed cfgs w) inbox) :
    History.Each (Pushed cfgs w') (inbox ++ [item]) := by
  refine History.each_concat.mpr ⟨hpushed.imp fun before x hx s c hs hc => ?_, fun s c hs hc => ?_⟩
  · obtain ⟨pushed, hx⟩ := hx s c hs hc
    refine ⟨pushed, hx.reached, hx.pushes, hx.stands.trans ?_⟩
    rw [h.outbox]
    exact List.prefix_append _ _
  · obtain rfl : symbol = s := Option.some.inj (h.symbol_eq.symm.trans hs)
    obtain rfl : cfg = c := Option.some.inj (h.cfg_eq.symm.trans hc)
    have hbook : w.books symbol = some ((Book.make cfg).run (callsFrom symbol 0 inbox)).hosted := by
      rw [h.serves.books, hc]
      rfl
    exact ⟨w.outbox, ⟨w, h.before, h.serves.lastTs, hbook, rfl⟩, ⟨w', h.after, h.outbox⟩,
      h.outbox ▸ List.prefix_refl _⟩

/-- Every output is one of some item's. -/
def FromItem (cfgs : SymbolId → Option Config) (inbox : List Stamped) (output : Output) : Prop :=
  ∃ before item after symbol cfg, inbox = before ++ item :: after ∧
    item.command.symbol? = some symbol ∧ cfgs symbol = some cfg ∧
    output ∈ outputsAfter cfg before item symbol

/-- If every output was pushed for an item, so is every one after the next item. -/
theorem Takes.from_item {w' : Worker} (h : Takes cfgs inbox w item symbol cfg w')
    (hfrom : ∀ o ∈ w.outbox, FromItem cfgs inbox o) : ∀ o ∈ w'.outbox, FromItem cfgs (inbox ++ [item]) o := by
  intro o ho
  rw [h.outbox] at ho
  rcases List.mem_append.mp ho with ho | ho
  · obtain ⟨before, x, after, s, c, rfl, hs, hc, hmem⟩ := hfrom o ho
    exact ⟨before, x, after ++ [item], s, c, by rw [List.append_assoc, List.cons_append], hs, hc, hmem⟩
  · exact ⟨inbox, item, [], symbol, cfg, rfl, h.symbol_eq, h.cfg_eq, ho⟩

/-! ## Some of the items -/

/-- Given only the items that are kept, another worker pushes for one more of them what is shown of the
outputs for it; of the outputs for an item that is not kept, nothing is shown. -/
def Shown (cfgs cfgs' : SymbolId → Option Config) (keep : Stamped → Bool) (shown : Output → Bool)
    (before : List Stamped) (item : Stamped) : Prop :=
  ∀ symbol cfg, item.command.symbol? = some symbol → cfgs symbol = some cfg →
    if keep item then
      cfgs' symbol = some cfg ∧ outputsAfter cfg (before.filter keep) item symbol =
        (outputsAfter cfg before item symbol).filter shown
    else (outputsAfter cfg before item symbol).filter shown = []

/-- **Some of the items.** A worker that is only given the items that are kept pushes what is shown of
the outputs for all. -/
theorem run_filter {cfgs' : SymbolId → Option Config} {keep : Stamped → Bool} {shown : Output → Bool}
    (howned : Owned cfgs inbox) (hshown : History.Each (Shown cfgs cfgs' keep shown) inbox) :
    ∃ w w', (make cfgs).run inbox = some w ∧ (make cfgs').run (inbox.filter keep) = some w' ∧
      w'.outbox = w.outbox.filter shown := by
  -- Along the inbox, the second worker runs on what is kept and outputs what is shown.
  have htake := serves (P := fun inbox w =>
    History.Each (Shown cfgs cfgs' keep shown) inbox →
      ∃ w', Owned cfgs' (inbox.filter keep) ∧ (make cfgs').run (inbox.filter keep) = some w' ∧
        Serves cfgs' (inbox.filter keep) w' ∧ w'.outbox = w.outbox.filter shown)
    (fun _ => ⟨make cfgs', by simp [Owned], rfl, serves_make cfgs', rfl⟩)
    (fun {inbox w item symbol cfg w₁} htakes ih hshown => ?_) inbox howned
  · obtain ⟨w, hrun, -, hw⟩ := htake
    obtain ⟨w', -, hrun', -, hout⟩ := hw hshown
    exact ⟨w, w', hrun, hrun', hout⟩
  · obtain ⟨hbefore, hitem⟩ := History.each_concat.mp hshown
    obtain ⟨w', howned', hrun', hserves', hout⟩ := ih hbefore
    have hitem := hitem symbol cfg htakes.symbol_eq htakes.cfg_eq
    rw [htakes.outbox, List.filter_append, List.filter_append, ← hout]
    -- An item that is not kept has no output that is shown.
    cases hkeep : keep item with
    | false =>
      rw [if_neg (by simp [hkeep])] at hitem
      rw [hitem, List.append_nil, List.filter_cons_of_neg (by simp [hkeep]), List.filter_nil,
        List.append_nil]
      exact ⟨w', howned', hrun', hserves', rfl⟩
    | true =>
      rw [if_pos hkeep] at hitem
      obtain ⟨hcfg', hsame⟩ := hitem
      rw [← hsame, List.filter_cons_of_pos hkeep, List.filter_nil]
      obtain ⟨w₂, htakes', hserves₂⟩ := hserves'.takes howned' hrun' htakes.symbol_eq hcfg'
      refine ⟨w₂, fun x hx => ?_, htakes'.after, hserves₂, htakes'.outbox⟩
      rcases List.mem_append.mp hx with hx | hx
      · exact howned' x hx
      · rw [List.mem_singleton.mp hx]
        exact ⟨symbol, cfg, htakes.symbol_eq, hcfg'⟩

end Serves

end Worker

end OrderBookEngine
