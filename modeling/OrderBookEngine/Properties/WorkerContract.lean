import OrderBookEngine.Properties.Refusals
import OrderBookEngine.Server.Serve

/-!
# The worker's output contract

A worker pushes, command by command, the events of the command's call and one reply
(`Worker.Answered`). The events of a symbol are the stream of its book, so they are numbered without a
gap and in the order of time. A fresh id has no owner (`created_invariant`), so no command is ever told
that its id is in use.
-/

namespace OrderBookEngine

namespace Market

variable {m : Market} {order : Order} {stop : StopOrder} {now : ℤ}

/-! ## A fresh id is not in use -/

/-- An id without an owner is not in use. -/
theorem idInUse_of_unowned (hwf : m.Wf []) {id : OrderId} (h : m.ownerOf id = none) :
    m.idInUse id = false := by
  have hout : ¬ (id ∈ m.liveIds ∨ (m.finishedOrders id).isSome) := fun hin => by
    have howned := (hwf.ids.owned id).mpr hin
    simp [h] at howned
  obtain ⟨hlive, hfin⟩ := not_or.mp hout
  have hresting : (m.restingOrder? id).isSome = false := by
    rw [← Bool.not_eq_true, restingOrder?_isSome]
    exact fun hid => hlive (List.mem_append_left _ hid)
  have hstop : (m.stop? id).isSome = false := by
    rw [← Bool.not_eq_true, stop?_isSome, List.mem_map]
    rintro ⟨stop, hs, rfl⟩
    exact hlive (List.mem_append_right _ (List.mem_map_of_mem (List.mem_append_right _ hs)))
  unfold idInUse
  simp [hresting, hfin, hstop]

/-- Validation does not look at the id. -/
theorem validateNewOrder_ne_duplicate (s : Session) (order : Order) (now : ℤ) :
    (s.validateNewOrder order now).2 ≠ .duplicateOrderId := by
  have hfields : Session.validateOrderFields order ≠ .duplicateOrderId := by
    rcases bad_of_validateOrderFields order with h | h | h <;> simp [h]
  unfold Session.validateNewOrder
  split_ifs
  · simp
  · exact hfields
  · exact hfields

/-- Neither does a walk. -/
theorem walk_ne_duplicate (m : Market) (order : Order) (now : ℤ) :
    (m.walk order now).2.rejectReason ≠ .duplicateOrderId := by
  -- Whatever ends the walk, the reason is another one, and a rest that finds no room gives its own.
  have hedge : ∀ (m : Market) (order : Order) (trades : List Trade) (why : RejectReason),
      why ≠ .duplicateOrderId →
        (m.restAtBandEdge order trades why now).2.rejectReason ≠ .duplicateOrderId := by
    intro m order trades why hwhy
    unfold restAtBandEdge expire
    simp only
    split_ifs
    · split <;> simp [hwhy]
    · exact hwhy
    · exact hwhy
    · exact hwhy
  have hout : ∀ (m : Market) (order : Order) (trades : List Trade) (why : RejectReason),
      why ≠ .duplicateOrderId → (m.runOut order trades why now).2.rejectReason ≠ .duplicateOrderId := by
    intro m order trades why hwhy
    unfold runOut expire
    split_ifs
    · split <;> simp
    · exact hwhy
    · exact hwhy
  unfold walk settle
  simp only
  cases (walkLoop now (m.queue order.side.opposite) { market := m, incoming := order }).2 with
  | halted => exact hedge _ _ _ _ (by simp)
  | bandLimited => exact hedge _ _ _ _ (by simp)
  | selfTrade => simp [expire]
  | collar => exact hout _ _ _ _ (by split_ifs <;> simp)
  | exhausted => exact hout _ _ _ _ (by simp)

/-- An order with an id of its own is no duplicate. -/
theorem addOrder_ne_duplicate (hwf : m.Wf []) (hfresh : m.ownerOf order.id = none) :
    (m.addOrder order now).2.rejectReason ≠ .duplicateOrderId := by
  have hfree : ({ m with toSession := (m.validateNewOrder order now).1 } : Market).idInUse order.id =
      false := by
    have hresumes := (resumes_validateNewOrder m order now).1
    refine idInUse_of_unowned (hwf.resumes hresumes) ?_
    rcases hresumes with h | ⟨-, -, h⟩ <;> rw [h] <;> exact hfresh
  cases hadm : m.admitted order now with
  | none =>
    have hinvalid := validateNewOrder_ne_duplicate m.toSession order now
    have hbad : (m.validateNewOrder order now).2 ≠ .none := fun hok => by
      unfold admitted at hadm
      simp [hfree, hok] at hadm
    unfold addOrder enter enterWith
    simp only [hfree, Bool.and_false, Bool.false_eq_true, if_false]
    rw [if_pos hbad]
    exact hinvalid
  | some m' =>
    rw [addOrder, enter, enterWith_of_admitted _ hadm, afterWalk]
    have hwalk := walk_ne_duplicate m' order now
    cases (m'.walk order now).2.trades.getLast? <;> exact hwalk

/-- A stop with an id of its own is no duplicate. -/
theorem placeStopOrder_ne_duplicate (hwf : m.Wf []) (hfresh : m.ownerOf stop.id = none) :
    (m.placeStopOrder stop now).2 ≠ .duplicateOrderId := by
  have hfields : Session.validateStopFields stop ≠ .duplicateOrderId := by
    unfold Session.validateStopFields
    split_ifs <;> simp
  unfold placeStopOrder
  simp only [idInUse_of_unowned hwf hfresh, Bool.and_false, Bool.false_eq_true, if_false]
  split_ifs <;> simp_all

/-- A modification is never a duplicate. -/
theorem modifyStopOrder_ne_duplicate (id : OrderId) (requester : OwnerId) (stopPrice : ℤ)
    (limitPrice : Option ℤ) (quantity : ℤ) :
    (m.modifyStopOrder id requester stopPrice limitPrice quantity now).2 ≠ .duplicateOrderId := by
  have hfields : ∀ stop, Session.validateStopFields stop ≠ .duplicateOrderId := fun stop => by
    unfold Session.validateStopFields
    split_ifs <;> simp
  unfold modifyStopOrder
  simp only
  split_ifs
  · simp
  · cases m.stop? id with
    | none =>
      show m.stopGoneReason id ≠ _
      unfold Session.stopGoneReason
      split_ifs <;> simp
    | some old =>
      simp only
      split_ifs
      · exact hfields _
      · simp
      · simp

end Market

namespace Book

variable {b : Book} {m : Market}

/-- Nobody is told that a fresh id is in use. -/
theorem answer_ne_duplicate (h : b.Refines m) (hwf : m.Wf []) (c : Call)
    (hfresh : c.creates = true → m.ownerOf c.id = none) : (b.answer c).1 ≠ .duplicateOrderId := by
  -- Only the calls that create an id ask whether it is in use, and theirs is new.
  cases c with
  | addOrder order now =>
    show (b.addOrder order now).2.rejectReason ≠ _
    rw [(addOrder_represents h.represents h.drainingStops order now).1]
    exact Market.addOrder_ne_duplicate hwf (hfresh rfl)
  | modifyOrder id requester price quantity now =>
    have hwhy := modifyOrder_rejectReason h hwf id requester price quantity now
    show (b.modifyOrder id requester price quantity now).2.rejectReason ≠ _
    exact fun hdup => hwhy (by simp [hdup])
  | cancelOrder id requester now =>
    show (b.cancelOrder id requester now).2 ≠ _
    unfold cancelOrder
    by_cases howned : (!b.ownedBy id requester) = true
    · rw [if_pos howned]
      simp
    · rw [if_neg howned]
      cases b.idIndex id with
      | none =>
        show (if (b.finishedOrders id).isSome then RejectReason.tooLate else .unknownOrder) ≠ _
        split_ifs <;> simp
      | some p => simp
  | placeStopOrder stop now =>
    show (b.placeStopOrder stop now).2 ≠ _
    rw [(placeStopOrder_represents h.represents h.fifo stop now).1]
    exact Market.placeStopOrder_ne_duplicate hwf (hfresh rfl)
  | cancelStopOrder id requester now =>
    show (b.cancelStopOrder id requester now).2 ≠ _
    rw [(cancelStopOrder_represents h.represents id requester now).1]
    unfold Market.cancelStopOrder
    split_ifs
    · simp
    · cases m.stop? id with
      | none =>
        show m.stopGoneReason id ≠ _
        unfold Session.stopGoneReason
        split_ifs <;> simp
      | some stop => simp
  | modifyStopOrder id requester stopPrice limitPrice quantity now =>
    show (b.modifyStopOrder id requester stopPrice limitPrice quantity now).2 ≠ _
    rw [(modifyStopOrder_represents h.represents id requester stopPrice limitPrice quantity now).1]
    exact Market.modifyStopOrder_ne_duplicate id requester stopPrice limitPrice quantity

/-! ## The stream of a book, call by call -/

/-- A call adds its events to the stream, at its time. -/
theorem events_call (h : b.Refines m) (hwf : m.Wf []) (c : Call) (hfits : (b.call c).Fits) :
    (b.call c).events = b.events ++ b.emitted c ∧ ∀ e ∈ b.emitted c, e.ts = c.now := by
  obtain ⟨es, hes, hts⟩ := Market.call_stamped c hwf h.fifo
  have hevents : (b.call c).events = b.events ++ es := by
    rw [(h.call c hfits).represents.session, h.represents.session]
    exact hes
  have hemitted : b.emitted c = es := by
    rw [emitted, hevents, List.drop_left]
  rw [hemitted]
  exact ⟨hevents, hts⟩

/-- A stream whose calls come in the order of time. -/
theorem run_in_order (h : b.Refines m) (hwf : m.Wf []) (calls : List Call) (hfits : (b.run calls).Fits)
    {last : ℤ} (hlast : ∀ e ∈ b.events, e.ts ≤ last)
    (hevents : (b.events.map EngineEvent.ts).Pairwise (· ≤ ·))
    (hcalls : (last :: calls.map Call.now).Pairwise (· ≤ ·)) :
    ((b.run calls).events.map EngineEvent.ts).Pairwise (· ≤ ·) := by
  induction calls generalizing b m last with
  | nil => exact hevents
  | cons c calls ih =>
    have hcall := (grows_run _ calls).fits hfits
    obtain ⟨hes, hts⟩ := events_call h hwf c hcall
    obtain ⟨hfirst, hrest⟩ := List.pairwise_cons.mp hcalls
    have hnow : last ≤ c.now := hfirst c.now List.mem_cons_self
    refine ih (h.call c hcall) (Market.wf_call c hwf h.fifo) hfits (fun e he => ?_) ?_ hrest
    · rw [hes] at he
      rcases List.mem_append.mp he with he | he
      · exact (hlast e he).trans hnow
      · exact (hts e he).le
    · -- The events of one call bear its time, which is not before those of the earlier ones.
      rw [hes, List.map_append]
      refine List.pairwise_append.mpr ⟨hevents, ?_, ?_⟩
      · refine List.pairwise_map.mpr (List.pairwise_of_forall_mem_list fun e he e' he' => ?_)
        rw [hts e he, hts e' he']
      · intro t ht t' ht'
        obtain ⟨e, he, rfl⟩ := List.mem_map.mp ht
        obtain ⟨e', he', rfl⟩ := List.mem_map.mp ht'
        rw [hts e' he']
        exact (hlast e he).trans hnow

end Book

/-- The symbol of an output. -/
def Output.symbol? : Output → Option SymbolId
  | .marketEvent e => some e.symbol
  | .reply r => some r.symbol
  | .snapshotReady r => some r.symbol
  | .outboxClosed => none

/-- An output that is an event of a symbol. -/
def Output.eventOn (symbol : SymbolId) : Output → Option EngineEvent
  | .marketEvent e => if e.symbol = symbol then some e.event else none
  | _ => none

/-- An output that is a snapshot. -/
def Output.isSnapshot : Output → Bool
  | .snapshotReady _ => true
  | _ => false

/-- The events of a symbol, as they were pushed. -/
def eventsOf (symbol : SymbolId) (outbox : List Output) : List EngineEvent :=
  outbox.filterMap (Output.eventOn symbol)

/-- An event as it is pushed: the sender's own new order or stop is named by the client's id. -/
def Stamped.tag (item : Stamped) (symbol : SymbolId) (event : EngineEvent) : MarketEvent where
  symbol := symbol
  event := event
  clientOrderId :=
    if item.command.creates && Worker.carriesId event.kind && event.orderId = item.seq then
      item.command.clientOrderId
    else ""

/-- An event is published with the tag of its item. -/
theorem Stamped.published_eq (item : Stamped) (symbol : SymbolId) (event : EngineEvent) :
    item.published symbol event = .marketEvent (item.tag symbol event) := by
  unfold Stamped.published Stamped.tag Worker.published
  by_cases hcreates : item.command.creates = true
  · simp only [hcreates, if_true, Bool.true_and]
    by_cases hempty : item.command.clientOrderId.isEmpty = true
    · have hclient : item.command.clientOrderId = "" := String.isEmpty_iff.mp hempty
      simp [hclient]
    · by_cases hkind : Worker.carriesId event.kind = true
      · by_cases hid : event.orderId = item.seq <;> simp [hempty, hkind, hid]
      · simp [hkind]
  · simp [hcreates]

namespace Stamped

variable {item : Stamped} {symbol : SymbolId} {call : ℤ → Call} {subscriber : SubscriberId}

/-! ## The outputs for one item -/

/-- An item of a symbol is a command or a snapshot. -/
theorem call_or_snapshot (h : item.command.symbol? = some symbol) :
    (∃ call, item.call? = some call ∧ item.command.isSnapshot = false) ∨
      ∃ subscriber, item.command = .takeSnapshot symbol subscriber := by
  unfold call?
  cases hcommand : item.command with
  | takeSnapshot s subscriber =>
    rw [hcommand] at h
    obtain rfl : s = symbol := Option.some.inj h
    exact Or.inr ⟨subscriber, rfl⟩
  | shutdown =>
    rw [hcommand] at h
    cases h
  | _ => exact Or.inl ⟨_, rfl, rfl⟩

/-- A command pushes the events of its call, and one reply. -/
theorem outputs_of_call (hsymbol : item.command.symbol? = some symbol) (hcall : item.call? = some call)
    (b : Book) (last : ℤ) :
    item.outputs symbol b last =
      (b.emitted (call (max item.ts last))).map (fun e => Output.marketEvent (item.tag symbol e)) ++
        [.reply (item.reply symbol (b.answer (call (max item.ts last))))] := by
  have hclock : item.clock last = max item.ts last := by simp [clock, hcall]
  have hcallOn : item.callOn symbol last = some (call (max item.ts last)) := by
    rw [callOn, if_pos hsymbol, hcall, hclock, Option.map_some]
  have hpublished : item.published symbol = fun e => Output.marketEvent (item.tag symbol e) :=
    funext (item.published_eq symbol)
  unfold outputs
  rw [hcallOn, hpublished]

/-- A snapshot command pushes the book. -/
theorem outputs_of_snapshot (hcommand : item.command = .takeSnapshot symbol subscriber) (b : Book)
    (last : ℤ) :
    item.outputs symbol b last = [.snapshotReady { symbol, subscriber, snapshot := b.snapshot }] := by
  have hcallOn : item.callOn symbol last = none := by
    rw [callOn, call?, hcommand]
    split_ifs <;> rfl
  unfold outputs
  rw [hcallOn]
  simp only [hcommand]

end Stamped

namespace Worker

variable {cfgs : SymbolId → Option Config} {inbox : List Stamped} {w : Worker} {item : Stamped}
  {symbol : SymbolId} {cfg : Config} {b : Book} {m : Market}

/-- All that is pushed for an item is of its symbol. -/
theorem symbol_outputs (hsymbol : item.command.symbol? = some symbol) (b : Book) (last : ℤ) :
    ∀ o ∈ item.outputs symbol b last, o.symbol? = some symbol := by
  intro o ho
  rcases Stamped.call_or_snapshot hsymbol with ⟨call, hcall, -⟩ | ⟨subscriber, hcommand⟩
  · rw [Stamped.outputs_of_call hsymbol hcall] at ho
    rcases List.mem_append.mp ho with ho | ho
    · obtain ⟨e, -, rfl⟩ := List.mem_map.mp ho
      rfl
    · rw [List.mem_singleton.mp ho]
      rfl
  · rw [Stamped.outputs_of_snapshot hcommand] at ho
    rw [List.mem_singleton.mp ho]
    rfl

/-- The events of two lists follow one another. -/
theorem eventsOf_append (symbol : SymbolId) (outbox outbox' : List Output) :
    eventsOf symbol (outbox ++ outbox') = eventsOf symbol outbox ++ eventsOf symbol outbox' :=
  List.filterMap_append

/-- Outputs for one symbol have no event of another. -/
theorem eventsOf_of_ne {other : SymbolId} {outbox : List Output}
    (h : ∀ o ∈ outbox, o.symbol? = some symbol) (hne : other ≠ symbol) : eventsOf other outbox = [] := by
  refine List.filterMap_eq_nil_iff.mpr fun o ho => ?_
  have hsymbol := h o ho
  cases o with
  | marketEvent e => exact if_neg fun he => hne (he.symm.trans (Option.some.inj hsymbol))
  | _ => rfl

/-- The events pushed for a command are those of its call. -/
theorem eventsOf_outputs (b : Book) (last : ℤ) :
    eventsOf symbol (item.outputs symbol b last) =
      ((item.callOn symbol last).map b.emitted).getD [] := by
  unfold Stamped.outputs
  cases item.callOn symbol last with
  | none =>
    simp only
    split <;> rfl
  | some c =>
    have hevents : eventsOf symbol ((b.emitted c).map (item.published symbol)) = b.emitted c := by
      unfold eventsOf
      rw [List.filterMap_map]
      refine (List.filterMap_congr fun e _ => ?_).trans List.filterMap_some
      show Output.eventOn symbol (item.published symbol e) = some e
      rw [item.published_eq]
      exact if_pos rfl
    simp only
    rw [eventsOf_append, hevents]
    exact List.append_nil _

/-! ## The stream of a symbol -/

/-- The book of each symbol, after an inbox, has handed out few priorities. -/
def Fits (cfgs : SymbolId → Option Config) (inbox : List Stamped) : Prop :=
  ∀ symbol cfg, cfgs symbol = some cfg → ((Book.make cfg).run (callsFrom symbol 0 inbox)).Fits

/-- Counters that fit in the end fit before. -/
theorem Fits.of_append {rest : List Stamped} (h : Fits cfgs (inbox ++ rest)) : Fits cfgs inbox := by
  intro symbol cfg hcfg
  have hfits := h symbol cfg hcfg
  rw [callsFrom_append, Book.run_append] at hfits
  exact (Book.grows_run _ _).fits hfits

/-- The events of a symbol are the stream of its book. -/
def Streams (cfgs : SymbolId → Option Config) (inbox : List Stamped) (w : Worker) : Prop :=
  ∀ symbol, eventsOf symbol w.outbox =
    ((cfgs symbol).map fun cfg => ((Book.make cfg).run (callsFrom symbol 0 inbox)).events).getD []

/-- An item that is taken adds the events of its call to the stream. -/
theorem Takes.streams {w' : Worker} (h : Takes cfgs inbox w item symbol cfg w')
    (hfits : Fits cfgs (inbox ++ [item])) (hstreams : Streams cfgs inbox w) :
    Streams cfgs (inbox ++ [item]) w' := by
  intro other
  rw [h.outbox, eventsOf_append, hstreams, callsFrom_concat]
  by_cases hother : other = symbol
  · subst hother
    have hfits' := hfits other cfg h.cfg_eq
    rw [callsFrom_concat, Book.run_append] at hfits'
    rw [outputsAfter, eventsOf_outputs, h.cfg_eq, Option.map_some, Option.map_some, Option.getD_some,
      Option.getD_some, Book.run_append]
    cases hcall : item.callOn other (clockFrom 0 inbox) with
    | none => exact List.append_nil _
    | some c =>
      rw [hcall] at hfits'
      have hrefines := Book.run_refines cfg _ (hfits.of_append other cfg h.cfg_eq)
      exact (Book.events_call hrefines (Book.reachable_run cfg _).wf c hfits').1.symm
  · have hnone : eventsOf other (outputsAfter cfg inbox item symbol) = [] :=
      eventsOf_of_ne (symbol_outputs h.symbol_eq _ _) hother
    rw [hnone, callOn_of_ne h.symbol_eq hother]
    simp only [Option.toList_none, List.append_nil]

/-- The calls of an inbox come in the order of the worker's clock. -/
theorem callsFrom_in_order (symbol : SymbolId) (last : ℤ) (inbox : List Stamped) :
    (last :: (callsFrom symbol last inbox).map Call.now).Pairwise (· ≤ ·) := by
  induction inbox generalizing last with
  | nil => exact List.pairwise_singleton _ _
  | cons item inbox ih =>
    obtain ⟨hle, hrest⟩ := List.pairwise_cons.mp (ih (item.clock last))
    have hlater : ∀ t ∈ (callsFrom symbol (item.clock last) inbox).map Call.now, last ≤ t :=
      fun t ht => (item.le_clock last).trans (hle t ht)
    rw [callsFrom, List.map_append]
    cases hcall : item.callOn symbol last with
    | none => exact List.pairwise_cons.mpr ⟨hlater, hrest⟩
    | some c =>
      obtain ⟨-, call, hmade, rfl⟩ := Stamped.call?_of_callOn hcall
      have hnow : (call (item.clock last)).now = item.clock last := (Stamped.call?_spec hmade _).1
      show (last :: (call (item.clock last)).now :: (callsFrom symbol (item.clock last) inbox).map
        Call.now).Pairwise (· ≤ ·)
      rw [hnow]
      refine List.pairwise_cons.mpr ⟨fun t ht => ?_, ih (item.clock last)⟩
      rcases List.mem_cons.mp ht with rfl | ht
      · exact item.le_clock last
      · exact hlater t ht

/-- The calls of an inbox that bring a new id are those of the items that do. -/
theorem creates_of_mem_callsFrom {c : Call} {last : ℤ} (h : c ∈ callsFrom symbol last inbox)
    (hcreates : c.creates = true) : ∃ item ∈ inbox, item.command.creates = true ∧ c.id = item.seq := by
  induction inbox generalizing last with
  | nil => cases h
  | cons item inbox ih =>
    rw [callsFrom] at h
    rcases List.mem_append.mp h with h | h
    · obtain ⟨-, call, hcall, rfl⟩ := Stamped.call?_of_callOn (Option.mem_toList.mp h)
      obtain ⟨-, hsame, hid⟩ := Stamped.call?_spec hcall (item.clock last)
      rw [hsame] at hcreates
      exact ⟨item, List.mem_cons_self, hcreates, hid hcreates⟩
    · obtain ⟨item', hmem, hitem'⟩ := ih h
      exact ⟨item', List.mem_cons_of_mem _ hmem, hitem'⟩

/-- An owner is given to an id by the item that it is the sequence number of. -/
theorem owned_of_callsFrom {cfg : Config} {id : OrderId}
    (h : (((Market.make cfg).run (callsFrom symbol 0 inbox)).ownerOf id).isSome) :
    ∃ item ∈ inbox, item.command.creates = true ∧ id = item.seq := by
  have hcreated := Market.created_invariant fun id =>
    ∃ item ∈ inbox, item.command.creates = true ∧ id = item.seq
  refine (hcreated.run (callsFrom symbol 0 inbox) (fun c hc => creates_of_mem_callsFrom hc)
    (Market.wf_make cfg) rfl fun id hid => ?_).1 id h
  cases hid

/-! ## The contract -/

/-- An answer to a command: the events of its call, and one reply. -/
structure Answered (item : Stamped) (symbol : SymbolId) (emitted : List EngineEvent)
    (events : List MarketEvent) (reply : Reply) : Prop where
  /-- The events are those that the call emitted. -/
  events_eq : events.map MarketEvent.event = emitted
  /-- They are of the symbol. -/
  symbol_events : ∀ e ∈ events, e.symbol = symbol
  /-- The reply has the client's id for the command. -/
  clientOrderId_eq : reply.clientOrderId = item.command.clientOrderId
  /-- It is for the gateway of the item. -/
  gatewayId_eq : reply.gatewayId = item.gatewayId
  /-- It is for the account of the item. -/
  accountId_eq : reply.accountId = item.accountId
  /-- It is of the symbol. -/
  symbol_reply : reply.symbol = symbol
  /-- It has the order id of the item. -/
  orderId_eq : reply.orderId = item.orderId

/-- What a worker that has taken an inbox has in its outbox. -/
structure OutputContract (cfgs : SymbolId → Option Config) (inbox : List Stamped) (w : Worker) : Prop where
  /-- A command pushes the events of its call, at the worker's clock, and one reply. -/
  commands : ∀ before item after symbol call, inbox = before ++ item :: after →
    item.command.symbol? = some symbol → item.call? = some call →
      ∃ last b pushed events reply,
        Pushes cfgs w before item symbol last b pushed
          (events.map Output.marketEvent ++ [.reply reply]) ∧
        Answered item symbol (b.emitted (call (max item.ts last))) events reply
  /-- A snapshot command pushes the book of its symbol, as of the events that are pushed. -/
  snapshots : ∀ before item after symbol subscriber, inbox = before ++ item :: after →
    item.command = .takeSnapshot symbol subscriber →
      ∃ last b pushed,
        Pushes cfgs w before item symbol last b pushed
          [.snapshotReady { symbol, subscriber, snapshot := b.snapshot }] ∧
        b.snapshot.asOfSequence = (eventsOf symbol pushed).length
  /-- The events of a symbol are numbered from 1 without a gap. -/
  numbered : ∀ symbol, (eventsOf symbol w.outbox).map EngineEvent.sequenceNumber =
    List.range' 1 (eventsOf symbol w.outbox).length
  /-- The events of a symbol are in order of time. -/
  inOrder : ∀ symbol, ((eventsOf symbol w.outbox).map EngineEvent.ts).Pairwise (· ≤ ·)
  /-- No reply reports a duplicate id. -/
  fresh : ∀ reply, .reply reply ∈ w.outbox → reply.rejectReason ≠ .duplicateOrderId
  /-- A client's id is on events of the order or stop that its own command created. -/
  clientIds : ∀ e, .marketEvent e ∈ w.outbox → e.clientOrderId ≠ "" →
    carriesId e.event.kind = true ∧ ∃ item ∈ inbox, item.command.creates = true ∧
      item.command.symbol? = some e.symbol ∧ item.command.clientOrderId = e.clientOrderId ∧
      e.event.orderId = item.seq

/-- What is pushed for a command answers it. -/
theorem answered_outputs {call : ℤ → Call} (hsymbol : item.command.symbol? = some symbol)
    (hcall : item.call? = some call) (b : Book) (last : ℤ) :
    ∃ events reply,
      item.outputs symbol b last = events.map Output.marketEvent ++ [.reply reply] ∧
        Answered item symbol (b.emitted (call (max item.ts last))) events reply := by
  refine ⟨(b.emitted (call (max item.ts last))).map (item.tag symbol),
    item.reply symbol (b.answer (call (max item.ts last))), ?_, ?_⟩
  · rw [Stamped.outputs_of_call hsymbol hcall, List.map_map]
    rfl
  · refine ⟨?_, fun e he => ?_, rfl, rfl, rfl, rfl, rfl⟩
    · rw [List.map_map]
      exact List.map_id _
    · obtain ⟨_, -, rfl⟩ := List.mem_map.mp he
      rfl

/-- The events of a symbol, and the number of the next one, after an inbox. -/
theorem Streams.numbered (h : Streams cfgs inbox w) (hfits : Fits cfgs inbox) (symbol : SymbolId) :
    (eventsOf symbol w.outbox).map EngineEvent.sequenceNumber =
      List.range' 1 (eventsOf symbol w.outbox).length := by
  rw [h symbol]
  cases hcfg : cfgs symbol with
  | none => rfl
  | some cfg =>
    have hrefines := Book.run_refines cfg (callsFrom symbol 0 inbox) (hfits symbol cfg hcfg)
    rw [Option.map_some, Option.getD_some, hrefines.represents.session]
    exact (Book.reachable_run cfg _).numbered.1

/-- A snapshot is as of the events pushed. -/
theorem Streams.asOfSequence (h : Streams cfgs inbox w) (hfits : Fits cfgs inbox)
    (hcfg : cfgs symbol = some cfg) :
    ((Book.make cfg).run (callsFrom symbol 0 inbox)).snapshot.asOfSequence =
      (eventsOf symbol w.outbox).length := by
  have hrefines := Book.run_refines cfg (callsFrom symbol 0 inbox) (hfits symbol cfg hcfg)
  have hnext := (Book.reachable_run cfg (callsFrom symbol 0 inbox)).numbered.2
  rw [h symbol, hcfg, Option.map_some, Option.getD_some]
  unfold Book.snapshot
  rw [hrefines.represents.session]
  exact Nat.sub_eq_of_eq_add hnext

/-- The events of a symbol are in order of time. -/
theorem Streams.in_order (h : Streams cfgs inbox w) (hfits : Fits cfgs inbox) (symbol : SymbolId) :
    ((eventsOf symbol w.outbox).map EngineEvent.ts).Pairwise (· ≤ ·) := by
  rw [h symbol]
  cases hcfg : cfgs symbol with
  | none => exact List.Pairwise.nil
  | some cfg =>
    refine Book.run_in_order (Book.refines_make cfg) (Market.wf_make cfg) _ (hfits symbol cfg hcfg)
      (fun e he => ?_) List.Pairwise.nil (callsFrom_in_order symbol 0 inbox)
    cases he

/-- No reply says that an id is in use, when the new ids are distinct. -/
theorem FromItem.fresh {reply : Reply} (h : FromItem cfgs inbox (.reply reply))
    (hfits : Fits cfgs inbox)
    (hids : ((inbox.filter fun item => item.command.creates).map Stamped.seq).Nodup) :
    reply.rejectReason ≠ .duplicateOrderId := by
  obtain ⟨before, item, after, symbol, cfg, rfl, hsymbol, hcfg, hmem⟩ := h
  unfold outputsAfter at hmem
  rcases Stamped.call_or_snapshot hsymbol with ⟨call, hcall, -⟩ | ⟨subscriber, hcommand⟩
  · rw [Stamped.outputs_of_call hsymbol hcall] at hmem
    set c := call (max item.ts (clockFrom 0 before)) with hc
    obtain ⟨-, hcreates, hid⟩ := Stamped.call?_spec hcall (max item.ts (clockFrom 0 before))
    have hrefines := Book.run_refines cfg _ (hfits.of_append symbol cfg hcfg)
    rcases List.mem_append.mp hmem with hmem | hmem
    · simp at hmem
    · obtain rfl := Output.reply.inj (List.mem_singleton.mp hmem)
      refine Book.answer_ne_duplicate hrefines (Book.reachable_run cfg _).wf c fun hnew => ?_
      -- An owner of the new id would be an earlier item with the same sequence number.
      rw [← Option.not_isSome_iff_eq_none]
      intro howned
      obtain ⟨earlier, hearlier, hnew', hsame⟩ := owned_of_callsFrom howned
      rw [hc, hcreates] at hnew
      rw [List.filter_append,
        List.filter_cons_of_pos (p := fun item : Stamped => item.command.creates) hnew,
        List.map_append, List.map_cons] at hids
      refine (List.nodup_append.mp hids).2.2 earlier.seq ?_ item.seq List.mem_cons_self ?_
      · exact List.mem_map_of_mem (List.mem_filter.mpr ⟨hearlier, hnew'⟩)
      · rw [← hsame, hc, hid hnew]
  · rw [Stamped.outputs_of_snapshot hcommand] at hmem
    simp at hmem

/-- A client's id is on an event of what its own command created. -/
theorem FromItem.client_id {e : MarketEvent} (h : FromItem cfgs inbox (.marketEvent e))
    (hclient : e.clientOrderId ≠ "") :
    carriesId e.event.kind = true ∧ ∃ item ∈ inbox, item.command.creates = true ∧
      item.command.symbol? = some e.symbol ∧ item.command.clientOrderId = e.clientOrderId ∧
      e.event.orderId = item.seq := by
  obtain ⟨before, item, after, symbol, cfg, rfl, hsymbol, hcfg, hmem⟩ := h
  unfold outputsAfter at hmem
  rcases Stamped.call_or_snapshot hsymbol with ⟨call, hcall, -⟩ | ⟨subscriber, hcommand⟩
  · rw [Stamped.outputs_of_call hsymbol hcall] at hmem
    rcases List.mem_append.mp hmem with hmem | hmem
    · obtain ⟨event, -, htag⟩ := List.mem_map.mp hmem
      obtain rfl := Output.marketEvent.inj htag
      unfold Stamped.tag at hclient ⊢
      simp only at hclient ⊢
      split_ifs at hclient ⊢ with htagged
      · simp only [Bool.and_eq_true, decide_eq_true_eq] at htagged
        obtain ⟨⟨hcreates, hkind⟩, hid⟩ := htagged
        exact ⟨hkind, item, by simp, hcreates, hsymbol, rfl, hid⟩
      · exact absurd rfl hclient
    · -- A reply is no event.
      simp at hmem
  · rw [Stamped.outputs_of_snapshot hcommand] at hmem
    simp at hmem

/-- A snapshot neither moves the clock nor calls a book. -/
theorem callsFrom_without_snapshots (symbol : SymbolId) (last : ℤ) (inbox : List Stamped) :
    callsFrom symbol last (inbox.filter fun item => !item.command.isSnapshot) =
        callsFrom symbol last inbox ∧
      clockFrom last (inbox.filter fun item => !item.command.isSnapshot) = clockFrom last inbox := by
  induction inbox generalizing last with
  | nil => exact ⟨rfl, rfl⟩
  | cons item inbox ih =>
    rw [callsFrom, clockFrom_cons]
    cases hsnapshot : item.command.isSnapshot with
    | false =>
      rw [List.filter_cons_of_pos (by simp [hsnapshot]), callsFrom, clockFrom_cons, (ih _).1]
      exact ⟨rfl, (ih _).2⟩
    | true =>
      -- A snapshot is no call of the book, and does not move its clock.
      have hcall : item.call? = none := by
        unfold Command.isSnapshot at hsnapshot
        unfold Stamped.call?
        cases hcommand : item.command <;> simp [hcommand] at hsnapshot ⊢
      have hcallOn : item.callOn symbol last = none := by
        unfold Stamped.callOn
        rw [hcall]
        split_ifs <;> rfl
      have hclock : item.clock last = last := by simp [Stamped.clock, hcall]
      rw [List.filter_cons_of_neg (by simp [hsnapshot]), hcallOn, hclock]
      exact ih last

/-- Without its snapshots, an inbox is answered as with them. -/
theorem run_without_snapshots (howned : Owned cfgs inbox) :
    ∃ w w', (make cfgs).run inbox = some w ∧
      (make cfgs).run (inbox.filter fun item => !item.command.isSnapshot) = some w' ∧
      w'.outbox = w.outbox.filter fun o => !o.isSnapshot := by
  refine run_filter howned fun before item _ _ symbol cfg hsymbol hcfg => ?_
  obtain ⟨hcalls, hclock⟩ := callsFrom_without_snapshots symbol 0 before
  rcases Stamped.call_or_snapshot hsymbol with ⟨call, hcall, hkept⟩ | ⟨subscriber, hcommand⟩
  · rw [if_pos (by simp [hkept]), outputsAfter, hcalls, hclock]
    refine ⟨hcfg, (List.filter_eq_self.mpr fun o ho => ?_).symm⟩
    rw [Stamped.outputs_of_call hsymbol hcall] at ho
    rcases List.mem_append.mp ho with ho | ho
    · obtain ⟨_, -, rfl⟩ := List.mem_map.mp ho
      rfl
    · rw [List.mem_singleton.mp ho]
      rfl
  · rw [if_neg (by simp [hcommand, Command.isSnapshot]), outputsAfter,
      Stamped.outputs_of_snapshot hcommand]
    rfl

/-- Books with exact priorities fit. -/
theorem fits_of_exact (howned : Owned cfgs inbox)
    (hexact : ∀ symbol cfg, cfgs symbol = some cfg → cfg.priorities = .exact) :
    ∀ w symbol h, (make cfgs).run inbox = some w → w.books symbol = some h → h.book.Fits := by
  intro w symbol h hrun hbook
  obtain ⟨w₁, hrun₁, hserves, -⟩ := serves (P := fun _ _ => True) trivial (fun _ _ => trivial) inbox
    howned
  obtain rfl := Option.some.inj (hrun₁.symm.trans hrun)
  rw [hserves.books] at hbook
  obtain ⟨cfg, hcfg, rfl⟩ := Option.map_eq_some_iff.mp hbook
  exact Book.fits_run (hexact symbol cfg hcfg) _

/-- **The output contract.** A worker answers every inbox for its symbols, in which new orders and
stops have distinct sequence numbers, as the contract says, whatever the timestamps. Nothing behind a
shutdown is answered, and without the snapshots the other outputs are the same. -/
theorem output_contract (cfgs : SymbolId → Option Config) (inbox : List Stamped)
    (howned : Owned cfgs inbox)
    (hids : ((inbox.filter fun item => item.command.creates).map Stamped.seq).Nodup)
    (hfits : ∀ w symbol h, (make cfgs).run inbox = some w → w.books symbol = some h → h.book.Fits) :
    ∃ w, (make cfgs).run inbox = some w ∧ OutputContract cfgs inbox w ∧
      (∀ stop rest, stop.command = .shutdown → (make cfgs).run (inbox ++ stop :: rest) = some w) ∧
      ∃ w', (make cfgs).run (inbox.filter fun item => !item.command.isSnapshot) = some w' ∧
        w'.outbox = w.outbox.filter fun o => !o.isSnapshot := by
  -- One run through the inbox gives the commands' blocks and the source of each output.
  obtain ⟨w, hrun, hserves, hpushed, hfrom⟩ := serves
    (P := fun inbox w => History.Each (Pushed cfgs w) inbox ∧ ∀ o ∈ w.outbox, FromItem cfgs inbox o)
    ⟨History.each_nil, fun o ho => by cases ho⟩
    (fun htakes h => ⟨htakes.pushed h.1, htakes.from_item h.2⟩) inbox howned
  have hfits : Fits cfgs inbox := by
    intro symbol cfg hcfg
    refine hfits w symbol ((Book.make cfg).run (callsFrom symbol 0 inbox)).hosted hrun ?_
    rw [hserves.books, hcfg]
    rfl
  -- A snapshot is taken between two items, so the streams are needed for every prefix of the inbox.
  have hstreams : ∀ before after, inbox = before ++ after → ∀ {w₀}, (make cfgs).run before = some w₀ →
      Streams cfgs before w₀ := by
    rintro before after rfl w₀ hrun₀
    obtain ⟨w₁, hrun₁, -, hstreams⟩ := serves
      (P := fun inbox w => Fits cfgs inbox → Streams cfgs inbox w)
      (fun _ symbol => by cases h : cfgs symbol <;> rfl)
      (fun htakes ih hfits => htakes.streams hfits (ih hfits.of_append)) before
      (fun item hitem => howned item (List.mem_append_left _ hitem))
    obtain rfl := Option.some.inj (hrun₁.symm.trans hrun₀)
    exact hstreams hfits.of_append
  have hall := hstreams inbox [] (List.append_nil _).symm hrun
  refine ⟨w, hrun, ?_, fun stop rest hstop => ?_, ?_⟩
  · constructor
    case commands =>
      intro before item after symbol call hsplit hsymbol hcall
      obtain ⟨cfg, hcfg⟩ : ∃ cfg, cfgs symbol = some cfg := by
        obtain ⟨s, cfg, hs, hcfg⟩ := howned item (by simp [hsplit])
        exact ⟨cfg, Option.some.inj (hs.symm.trans hsymbol) ▸ hcfg⟩
      obtain ⟨pushed, hpushes⟩ := hpushed before item after hsplit symbol cfg hsymbol hcfg
      obtain ⟨events, reply, hblock, hanswered⟩ := answered_outputs hsymbol hcall _ (clockFrom 0 before)
      rw [outputsAfter, hblock] at hpushes
      exact ⟨_, _, pushed, events, reply, hpushes, hanswered⟩
    case snapshots =>
      intro before item after symbol subscriber hsplit hcommand
      have hsymbol : item.command.symbol? = some symbol := by rw [hcommand]; rfl
      obtain ⟨cfg, hcfg⟩ : ∃ cfg, cfgs symbol = some cfg := by
        obtain ⟨s, cfg, hs, hcfg⟩ := howned item (by simp [hsplit])
        exact ⟨cfg, Option.some.inj (hs.symm.trans hsymbol) ▸ hcfg⟩
      obtain ⟨pushed, hpushes⟩ := hpushed before item after hsplit symbol cfg hsymbol hcfg
      rw [outputsAfter, Stamped.outputs_of_snapshot hcommand] at hpushes
      -- The worker that takes the snapshot has run through what is before it.
      obtain ⟨w₀, hrun₀, -, -, rfl⟩ := hpushes.reached
      refine ⟨_, _, _, hpushes, ?_⟩
      exact (hstreams before _ hsplit hrun₀).asOfSequence (Fits.of_append (hsplit ▸ hfits)) hcfg
    case numbered => exact hall.numbered hfits
    case inOrder => exact hall.in_order hfits
    case fresh => exact fun reply hreply => (hfrom _ hreply).fresh hfits hids
    case clientIds => exact fun e he => (hfrom _ he).client_id
  · rw [run_shutdown howned.no_shutdown hstop]
    exact hrun
  · obtain ⟨w₁, w', hrun₁, hrun', hout⟩ := run_without_snapshots howned
    obtain rfl := Option.some.inj (hrun₁.symm.trans hrun)
    exact ⟨w', hrun', hout⟩

/-- The contract, on two symbols: the clock has passed the second order, and a snapshot is asked for. -/
theorem output_contract_two :
    let cfgs : SymbolId → Option Config := fun symbol =>
      if symbol ≤ 2 then some { poolCapacity := 4 } else none
    let inbox : List Stamped :=
      [{ seq := 7, ts := 5, gatewayId := "gw1", accountId := 1,
         command := .newOrder "bid" 1 { id := 0, ownerId := 1, side := .buy, type := .limit,
                                        price := some 100, quantity := 3 } },
       { seq := 4, ts := 2, gatewayId := "gw2", accountId := 2,
         command := .newOrder "ask" 2 { id := 0, ownerId := 2, side := .sell, type := .limit,
                                        price := some 100, quantity := 1 } },
       { command := .takeSnapshot 1 9 },
       { seq := 8, ts := 6, gatewayId := "gw1", accountId := 1, command := .cancelOrder "out" 1 1 7 }]
    ∃ w, (make cfgs).run inbox = some w ∧ OutputContract cfgs inbox w ∧
      (∀ stop rest, stop.command = .shutdown → (make cfgs).run (inbox ++ stop :: rest) = some w) ∧
      ∃ w', (make cfgs).run (inbox.filter fun item => !item.command.isSnapshot) = some w' ∧
        w'.outbox = w.outbox.filter fun o => !o.isSnapshot := by
  intro cfgs inbox
  have howned : Owned cfgs inbox := by
    simp [Owned, cfgs, inbox, Command.symbol?]
  refine output_contract cfgs inbox howned (by decide) (fits_of_exact howned fun symbol cfg hcfg => ?_)
  simp only [cfgs] at hcfg
  split_ifs at hcfg
  rw [← Option.some.inj hcfg]

end Worker

end OrderBookEngine
