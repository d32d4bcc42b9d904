import OrderBookEngine.Lib.Numbered
import OrderBookEngine.Server.Requests

/-!
# What a feed is due

The publisher's records are functions of what it has taken from the outbox (`Recorded`). What a market
subscriber is due for a symbol is one too (`Due`), and while it is in the table its queue, behind what
its consumer has popped, holds exactly that (`Follows`).
-/

namespace OrderBookEngine

/-- An output that is an event of a symbol. -/
def Output.marketEventOn (symbol : SymbolId) : Output → Option MarketEvent
  | .marketEvent event => if event.symbol = symbol then some event else none
  | _ => none

/-- The events of a symbol among some outputs. -/
def marketEventsOf (symbol : SymbolId) (outputs : List Output) : List MarketEvent :=
  outputs.filterMap (Output.marketEventOn symbol)

/-- The number of an event in its symbol. -/
def MarketEvent.seq (event : MarketEvent) : Seq := event.event.sequenceNumber

/-- The events of each symbol are numbered 1, 2, 3, ... in order. -/
def Numbered (outputs : List Output) : Prop :=
  ∀ symbol, NumberedBy MarketEvent.seq (marketEventsOf symbol outputs)

/-- The events of two lists follow one another. -/
theorem marketEventsOf_append (symbol : SymbolId) (outputs outputs' : List Output) :
    marketEventsOf symbol (outputs ++ outputs') =
      marketEventsOf symbol outputs ++ marketEventsOf symbol outputs' := List.filterMap_append

/-- An event counts for its own symbol. -/
theorem marketEventsOf_singleton (symbol : SymbolId) (event : MarketEvent) :
    marketEventsOf symbol [.marketEvent event] = if event.symbol = symbol then [event] else [] := by
  unfold marketEventsOf Output.marketEventOn
  split_ifs with h <;> simp [h]

/-- The last of the list, and one more. -/
theorem rtake_concat {α : Type} (xs : List α) (x : α) (n : ℕ) :
    (if n = 0 then [] else if n < (xs.rtake n ++ [x]).length then (xs.rtake n ++ [x]).tail
      else xs.rtake n ++ [x]) = (xs ++ [x]).rtake n := by
  cases n with
  | zero => simp
  | succ n =>
    have hlength : (xs.rtake (n + 1)).length = xs.length - (xs.length - (n + 1)) := List.length_drop
    rw [if_neg (Nat.succ_ne_zero n), List.rtake_concat_succ, List.length_append, hlength,
      List.length_singleton]
    split_ifs with hfull
    · -- The window is full: its first entry makes room.
      have hnonempty : xs.rtake (n + 1) ≠ [] := by
        rw [← List.length_pos_iff, hlength]
        omega
      rw [List.tail_append_of_ne_nil hnonempty]
      congr 1
      unfold List.rtake
      rw [List.tail_drop]
      congr 1
      omega
    · congr 1
      unfold List.rtake
      rw [show xs.length - (n + 1) = 0 by omega, show xs.length - n = 0 by omega]

/-- The symbol that an item is about. -/
def FeedItem.symbol : FeedItem → SymbolId
  | .snapshotReady r => r.symbol
  | .marketEvent e => e.symbol
  | .reply r => r.symbol

/-- The items of a symbol. -/
def itemsOn (symbol : SymbolId) (items : List FeedItem) : List FeedItem :=
  items.filter fun item => item.symbol = symbol

/-- The items of two lists follow one another. -/
theorem itemsOn_append (symbol : SymbolId) (items items' : List FeedItem) :
    itemsOn symbol (items ++ items') = itemsOn symbol items ++ itemsOn symbol items' :=
  List.filter_append _ _

/-- An item counts for its own symbol. -/
theorem itemsOn_singleton_self (item : FeedItem) : itemsOn item.symbol [item] = [item] :=
  List.filter_cons_of_pos (decide_eq_true rfl)

/-- An item does not count for another symbol. -/
theorem itemsOn_singleton_of_ne {symbol : SymbolId} {item : FeedItem} (h : item.symbol ≠ symbol) :
    itemsOn symbol [item] = [] :=
  List.filter_cons_of_neg fun he => h (of_decide_eq_true he)

namespace Feed

/-- What a subscription has been given. -/
def given (f : Feed) : List FeedItem := f.sub.popped ++ f.sub.items

/-- What is offered is all that a feed may be given. -/
theorem given_offer (f : Feed) (item : FeedItem) : ∀ x ∈ (f.offer item).given, x ∈ f.given ∨ x = item := by
  intro x hx
  unfold Feed.offer Subscription.tryPush Subscription.endWith given at hx
  unfold given
  split_ifs at hx <;> simp_all [or_assoc]

/-- A feed that leaves is given nothing. -/
theorem given_leave (f : Feed) (reason : EndReason) : ∀ x ∈ (f.leave reason).given, x ∈ f.given := by
  intro x hx
  unfold Feed.leave Subscription.endWith given at hx
  unfold given
  cases hentry : f.entry with
  | none =>
    rw [hentry] at hx
    exact hx
  | some entry =>
    rw [hentry] at hx
    simp only at hx
    split_ifs at hx <;> simp_all

end Feed

/-- What a market subscriber is due for a symbol, and the state of the symbol. -/
structure Due where
  /-- Whether the symbol is live, and from which event on. -/
  state : SymbolState
  /-- What it is due so far. -/
  items : List FeedItem

namespace Due

/-- What it is due after one more output. -/
def take (id : SubscriberId) (symbol : SymbolId) (d : Due) : Output → Due
  | .marketEvent event =>
    if event.symbol = symbol ∧ d.state.live = true ∧ ¬ event.seq < d.state.skipBelow then
      { d with items := d.items ++ [.marketEvent event] }
    else d
  | .snapshotReady ready =>
    if ready.subscriber = id ∧ ready.symbol = symbol ∧ d.state.live = false then
      { state := { d.state with live := true }, items := d.items ++ [.snapshotReady ready] }
    else d
  | _ => d

/-- What is due stays due. -/
theorem items_take (id : SubscriberId) (symbol : SymbolId) (d : Due) (output : Output) :
    d.items <+: (d.take id symbol output).items := by
  unfold take
  cases output with
  | marketEvent event =>
    simp only
    split_ifs
    · exact List.prefix_append _ _
    · exact List.prefix_refl _
  | snapshotReady ready =>
    simp only
    split_ifs
    · exact List.prefix_append _ _
    · exact List.prefix_refl _
  | _ => exact List.prefix_refl _

end Due

/-- A feed of a market subscriber that has been given what it is due for a symbol, or that has ended
before the rest was due. -/
structure Follows (f : Feed) (symbol : SymbolId) (d : Due) : Prop where
  /-- While it is in the table, it has been given all that it is due. -/
  registered : ∀ entry, f.entry = some entry → entry.kind = .market ∧
    entry.live symbol = some d.state ∧ f.sub.endReason = .none ∧
    itemsOn symbol (f.sub.popped ++ f.sub.items) = d.items
  /-- Once it has ended, it has been given the first of that. -/
  ended : f.entry = none → f.sub.endReason ≠ .none ∧
    itemsOn symbol (f.sub.popped ++ f.sub.items) <+: d.items

namespace Follows

variable {f : Feed} {symbol : SymbolId} {d : Due} {entry : Subscriber} {state : SymbolState}
  {due : List FeedItem}

/-- An open feed takes the item, or ends for want of room. -/
theorem offer (hentry : f.entry = some entry) (hkind : entry.kind = .market)
    (hlive : entry.live symbol = some state) (hopen : f.sub.endReason = .none)
    (hitems : itemsOn symbol (f.sub.popped ++ f.sub.items) = due) (item : FeedItem) :
    Follows (f.offer item) symbol ⟨state, due ++ itemsOn symbol [item]⟩ := by
  unfold Feed.offer Subscription.tryPush
  rw [if_neg (not_not.mpr hopen)]
  by_cases hfull : f.sub.capacity ≤ f.sub.items.length
  · rw [if_pos hfull]
    refine ⟨fun _ h => (by cases h), fun _ => ?_⟩
    have hended : f.sub.endWith .slowConsumer = { f.sub with endReason := .slowConsumer, items := [] } := by
      unfold Subscription.endWith
      rw [if_neg (not_not.mpr hopen), if_pos rfl]
    simp only [Bool.false_eq_true, if_false, hended]
    -- What was queued is lost; what was popped stands.
    refine ⟨by simp, ?_⟩
    rw [itemsOn_append] at hitems
    rw [List.append_nil, ← hitems, List.append_assoc]
    exact List.prefix_append _ _
  · rw [if_neg hfull]
    refine ⟨fun entry' h => ?_, fun h => (by rw [if_pos rfl, hentry] at h; cases h)⟩
    obtain rfl := Option.some.inj (hentry.symm.trans h)
    refine ⟨hkind, hlive, hopen, ?_⟩
    show itemsOn symbol (f.sub.popped ++ (f.sub.items ++ [item])) = _
    rw [← List.append_assoc, itemsOn_append, hitems]

/-- A feed that ends keeps what its consumer has popped, and unless it was too slow, what is queued. -/
theorem leave (h : Follows f symbol d) {reason : EndReason} (hreason : reason ≠ .none) :
    Follows (f.leave reason) symbol d := by
  unfold Feed.leave
  cases hentry : f.entry with
  | none => exact h
  | some entry =>
    obtain ⟨-, -, hopen, hitems⟩ := h.registered entry hentry
    refine ⟨fun _ h => (by cases h), fun _ => ?_⟩
    unfold Subscription.endWith
    rw [if_neg (not_not.mpr hopen)]
    refine ⟨hreason, ?_⟩
    rw [← hitems, itemsOn_append, itemsOn_append]
    show itemsOn symbol f.sub.popped ++ itemsOn symbol (if reason = .slowConsumer then [] else _) <+: _
    split_ifs
    · exact (List.append_nil _).symm ▸ List.prefix_append _ _
    · exact List.prefix_refl _

/-- One output. -/
theorem take (h : Follows f symbol d) (output : Output) :
    Follows (f.take output) symbol (d.take f.sub.id symbol output) := by
  cases hentry : f.entry with
  | none =>
    have hstay : f.take output = f := by
      unfold Feed.take
      rw [hentry]
    rw [hstay]
    refine ⟨fun entry he => (by rw [hentry] at he; cases he), fun _ => ?_⟩
    obtain ⟨hend, hitems⟩ := h.ended hentry
    exact ⟨hend, hitems.trans (d.items_take _ _ _)⟩
  | some entry =>
    obtain ⟨hkind, hlive, hopen, hitems⟩ := h.registered entry hentry
    have hoffer := offer hentry hkind hlive hopen hitems
    unfold Feed.take
    rw [hentry]
    cases output with
    | marketEvent event =>
      unfold Due.take
      simp only
      by_cases hsymbol : event.symbol = symbol
      · -- The subscriber wants the event exactly if it is due.
        have hwants : entry.wants event = true ↔
            event.symbol = symbol ∧ d.state.live = true ∧ ¬ event.seq < d.state.skipBelow := by
          unfold Subscriber.wants
          rw [hsymbol, hlive]
          simp [MarketEvent.seq]
        have hsame : itemsOn symbol [.marketEvent event] = [.marketEvent event] := by
          rw [← hsymbol]
          exact itemsOn_singleton_self (.marketEvent event)
        by_cases hwanted : entry.wants event = true
        · rw [if_pos hwanted, if_pos (hwants.mp hwanted)]
          have hpushed := hoffer (.marketEvent event)
          rwa [hsame] at hpushed
        · rw [if_neg hwanted, if_neg fun hd => hwanted (hwants.mpr hd)]
          exact h
      · -- An event of another symbol may be offered, and is not among the items of this one.
        have hother : itemsOn symbol [.marketEvent event] = [] := itemsOn_singleton_of_ne hsymbol
        have hskip : ¬ (event.symbol = symbol ∧ d.state.live = true ∧
            ¬ event.seq < d.state.skipBelow) := fun hd => hsymbol hd.1
        rw [if_neg hskip]
        split_ifs
        · have hpushed := hoffer (.marketEvent event)
          rwa [hother, List.append_nil] at hpushed
        · exact h
    | reply reply =>
      simp only
      rw [if_neg fun he => by rw [hkind] at he; cases he.1]
      exact h
    | snapshotReady ready =>
      unfold Due.take
      simp only
      have hwaiting : ∀ (live : SymbolId → Option SymbolState) (state : SymbolState),
          live symbol = some state →
            Follows ({ f with entry := some { entry with live } }.offer (.snapshotReady ready)) symbol
              ⟨state, d.items ++ itemsOn symbol [.snapshotReady ready]⟩ :=
        fun live state hstate => @offer { f with entry := some { entry with live } } symbol
          { entry with live } state d.items rfl hkind hstate hopen hitems (.snapshotReady ready)
      by_cases hmine : ready.subscriber = f.sub.id
      · rw [if_neg (not_not.mpr hmine)]
        by_cases hsymbol : ready.symbol = symbol
        · subst hsymbol
          have hsame : itemsOn ready.symbol [.snapshotReady ready] = [.snapshotReady ready] :=
            itemsOn_singleton_self (.snapshotReady ready)
          rw [hlive]
          simp only
          -- The snapshot makes the symbol live, once.
          by_cases hstate : d.state.live = true
          · rw [if_pos hstate, if_neg fun hd => by rw [hstate] at hd; cases hd.2.2]
            exact h
          · rw [if_neg hstate, if_pos ⟨hmine, trivial, Bool.not_eq_true _ ▸ hstate⟩]
            have hpushed := hwaiting _ _ (Function.update_self ready.symbol
              (some { d.state with live := true }) entry.live)
            rwa [hsame] at hpushed
        · -- A snapshot of another symbol changes only that symbol's state.
          have hother : itemsOn symbol [.snapshotReady ready] = [] := itemsOn_singleton_of_ne hsymbol
          have hskip : ¬ (ready.subscriber = f.sub.id ∧ ready.symbol = symbol ∧ d.state.live = false) :=
            fun hd => hsymbol hd.2.1
          rw [if_neg hskip]
          cases hstate : entry.live ready.symbol with
          | none => exact h
          | some state =>
            simp only
            split_ifs
            · exact h
            · have hpushed := hwaiting _ _ ((Function.update_of_ne (Ne.symm hsymbol)
                (some { state with live := true }) entry.live).trans hlive)
              rwa [hother, List.append_nil] at hpushed
      · -- A snapshot for another subscriber.
        have hskip : ¬ (ready.subscriber = f.sub.id ∧ ready.symbol = symbol ∧ d.state.live = false) :=
          fun hd => hmine hd.1
        rw [if_pos hmine, if_neg hskip]
        exact h
    | outboxClosed => exact h.leave (by simp)

/-- One action, with the output that it takes, if any. -/
theorem act (h : Follows f symbol d) (a : Publisher.Action) :
    Follows (f.act a) symbol
      (match a with | .take output => d.take f.sub.id symbol output | _ => d) := by
  cases a with
  | take output => exact h.take output
  | subscribe gatewayId symbols fromSeq => exact h
  | subscribeReplies gatewayId => exact h
  | unsubscribe id =>
    unfold Feed.act
    simp only
    split_ifs
    · exact h.leave (by simp)
    · exact h
  | nextFor id =>
    unfold Feed.act
    simp only
    split_ifs
    · obtain ⟨-, -, hend, hitems⟩ := f.sub.nextFor_spec
      constructor
      · intro entry hentry
        obtain ⟨hkind, hlive, hopen, hdue⟩ := h.registered entry hentry
        exact ⟨hkind, hlive, hend.trans hopen, by rw [hitems]; exact hdue⟩
      · intro hentry
        obtain ⟨hended, hdue⟩ := h.ended hentry
        exact ⟨hend ▸ hended, by rw [hitems]; exact hdue⟩
    · exact h

/-- What the consumer has popped is a beginning of what it is due. -/
theorem popped (h : Follows f symbol d) : itemsOn symbol f.sub.popped <+: d.items := by
  have hall : itemsOn symbol (f.sub.popped ++ f.sub.items) <+: d.items := by
    cases hentry : f.entry with
    | none => exact (h.ended hentry).2
    | some entry =>
      rw [(h.registered entry hentry).2.2.2]
  rw [itemsOn_append] at hall
  exact (List.prefix_append _ _).trans hall

end Follows

namespace Publisher

variable {p p' : Publisher} {symbol : SymbolId} {wanted : Seq} {fromSeq : FromSeq} {output : Output}
  {a : Action} {symbols : List SymbolId}

/-! ## The records -/

/-- The kept events are the last of those taken, and the last sequence number is that of the last. -/
structure Recorded (p : Publisher) : Prop where
  /-- What is kept are the last events of the symbol. -/
  history : ∀ symbol, (p.history symbol).getD [] =
    (marketEventsOf symbol p.routed).rtake p.options.replayWindow
  /-- The last number is that of the last event. -/
  last : ∀ symbol, p.last symbol =
    ((marketEventsOf symbol p.routed).getLast?.map MarketEvent.seq).getD 0

/-- An output that is recorded keeps the records. -/
theorem Recorded.record (h : p.Recorded) (output : Output) : (p.record output).Recorded := by
  -- What is no market event is routed and leaves the history as it is.
  have hplain : ∀ outputs, (∀ symbol, marketEventsOf symbol outputs = []) →
      Recorded { p with routed := p.routed ++ outputs } := by
    intro outputs hnone
    constructor <;> intro symbol
    · show _ = (marketEventsOf symbol (p.routed ++ outputs)).rtake _
      rw [marketEventsOf_append, hnone, List.append_nil]
      exact h.history symbol
    · show p.last symbol = _
      rw [marketEventsOf_append, hnone, List.append_nil]
      exact h.last symbol
  cases output with
  | marketEvent event =>
    constructor <;> intro symbol
    · show ((p.record (.marketEvent event)).history symbol).getD [] =
        (marketEventsOf symbol (p.routed ++ [.marketEvent event])).rtake p.options.replayWindow
      rw [marketEventsOf_append, marketEventsOf_singleton]
      by_cases hsymbol : event.symbol = symbol
      · subst hsymbol
        rw [if_pos rfl, ← rtake_concat, ← h.history]
        show (Function.update p.history event.symbol _ event.symbol).getD [] = _
        rw [Function.update_self]
        rfl
      · rw [if_neg hsymbol, List.append_nil, ← h.history]
        show (Function.update p.history event.symbol _ symbol).getD [] = _
        rw [Function.update_of_ne (Ne.symm hsymbol)]
    · show (Function.update p.lastSeq event.symbol (some event.seq) symbol).getD 0 =
        ((marketEventsOf symbol (p.routed ++ [.marketEvent event])).getLast?.map MarketEvent.seq).getD 0
      rw [marketEventsOf_append, marketEventsOf_singleton]
      by_cases hsymbol : event.symbol = symbol
      · rw [hsymbol, Function.update_self, if_pos rfl, List.getLast?_concat]
        rfl
      · rw [Function.update_of_ne (Ne.symm hsymbol), if_neg hsymbol, List.append_nil]
        exact h.last symbol
  | outboxClosed =>
    have hrecorded := hplain [.outboxClosed] fun _ => rfl
    exact ⟨hrecorded.history, hrecorded.last⟩
  | reply reply => exact hplain [.reply reply] fun _ => rfl
  | snapshotReady ready => exact hplain [.snapshotReady ready] fun _ => rfl

/-- The records depend on nothing else of a publisher. -/
theorem Recorded.congr (h : p.Recorded) (hrecord : SameRecord p p') : p'.Recorded := by
  constructor <;> intro symbol
  · rw [hrecord.history, hrecord.routed, hrecord.options]
    exact h.history symbol
  · unfold Publisher.last
    rw [hrecord.lastSeq, hrecord.routed]
    exact h.last symbol

/-- An action keeps the records, and takes at most one output. -/
theorem Recorded.act (h : p.Recorded) (hwf : p.Wf) (hact : p.act a = .ok p') : p'.Recorded := by
  obtain ⟨_, hact', -, -, -, hrecord⟩ := act_spec hwf a
  obtain rfl := Except.ok.inj (hact.symm.trans hact')
  have hnoted : (p.noted a).Recorded := by
    unfold noted
    split
    · split_ifs
      · exact h
      · exact h.record _
    · exact h
  have hnext : Recorded { p.noted a with nextId := p'.nextId } := ⟨hnoted.history, hnoted.last⟩
  exact hnext.congr hrecord

/-- With numbers from one on, the last number counts the events. -/
theorem Recorded.last_eq (h : p.Recorded) (hnum : Numbered p.routed) (symbol : SymbolId) :
    p.last symbol = (marketEventsOf symbol p.routed).length :=
  (h.last symbol).trans (hnum symbol).getLast

/-- An event is before the oldest kept one if it is out of the window. -/
theorem Recorded.oldest_eq (h : p.Recorded) (hnum : Numbered p.routed) (symbol : SymbolId) :
    p.oldest symbol = (marketEventsOf symbol p.routed).length - p.options.replayWindow + 1 := by
  have hhead : p.oldest symbol = ((((p.history symbol).getD []).head?.map MarketEvent.seq).getD
      (p.last symbol + 1)) := by
    unfold oldest
    cases (p.history symbol).getD [] <;> rfl
  rw [hhead, h.history, h.last_eq hnum]
  exact (hnum symbol).head_rtake _

/-- An event that is asked for is gone if it has been, and is not among the last. -/
theorem Recorded.gone_iff (h : p.Recorded) (hnum : Numbered p.routed)
    (hwanted : ∀ symbol seq, fromSeq.lookup symbol = some seq → 1 ≤ seq) :
    p.Gone fromSeq ↔ ∃ symbol seq, fromSeq.lookup symbol = some seq ∧
      (∃ event ∈ marketEventsOf symbol p.routed, event.seq = seq) ∧
      ¬ ∃ event ∈ (marketEventsOf symbol p.routed).rtake p.options.replayWindow, event.seq = seq := by
  have hout : ∀ a n w : ℕ, 1 ≤ a →
      (a ≤ n ∧ a < n - w + 1 ↔ (1 ≤ a ∧ a ≤ n) ∧ ¬ (n - w < a ∧ a ≤ n)) := by omega
  unfold Gone
  refine exists_congr fun symbol => exists_congr fun seq => and_congr_right fun hlookup => ?_
  rw [h.last_eq hnum, h.oldest_eq hnum, (hnum symbol).exists_iff, (hnum symbol).exists_rtake_iff]
  exact hout _ _ _ (hwanted symbol seq hlookup)

/-- Unless it is gone, all events from the one asked for on are replayed. -/
theorem Recorded.replayed_eq (h : p.Recorded) (hnum : Numbered p.routed)
    (hkept : ¬ (wanted ≤ p.last symbol ∧ wanted < p.oldest symbol)) :
    p.replayed symbol wanted =
      (marketEventsOf symbol p.routed).filter fun event => wanted ≤ event.seq := by
  have hin : ∀ a n w : ℕ, ¬ (a ≤ n ∧ a < n - w + 1) → n - w < a := by omega
  rw [h.last_eq hnum, h.oldest_eq hnum] at hkept
  unfold replayed
  rw [h.history]
  exact (hnum symbol).filter_rtake (hin _ _ _ hkept)

/-! ## Feeds along a run -/

/-- What is due after more outputs. -/
def due (id : SubscriberId) (symbol : SymbolId) (d : Due) (outputs : List Output) : Due :=
  outputs.foldl (Due.take id symbol) d

/-- One action of the publisher, for a feed that is there. -/
theorem follows_act {id : SubscriberId} {d : Due} (h : p.Wf) (hact : p.act a = .ok p')
    (hid : id < p.nextId) (hfollows : Follows (p.feed id) symbol d) :
    ∃ outputs, p'.routed = p.routed ++ outputs ∧ Follows (p'.feed id) symbol (due id symbol d outputs) := by
  obtain ⟨_, hact', -, hfeed, -, hrecord⟩ := act_spec h a
  obtain rfl := Except.ok.inj (hact.symm.trans hact')
  have hstep := hfollows.act a
  have hsub : (p.feed id).sub.id = id := h.id_eq id
  rw [hsub, ← hfeed id hid] at hstep
  have hrouted : p'.routed = (p.noted a).routed := hrecord.routed
  cases a with
  | take output =>
    unfold noted at hrouted
    simp only at hrouted hstep
    by_cases hclosed : p.closed = true
    · -- The thread has returned, and no feed is there to follow.
      rw [if_pos hclosed] at hrouted
      refine ⟨[], by rw [hrouted, List.append_nil], ?_⟩
      have hstay : p'.feed id = p.feed id := by
        rw [hfeed id hid]
        unfold Feed.act Feed.take feed
        rw [h.shut hclosed id]
      rw [hstay]
      exact hfollows
    · rw [if_neg hclosed] at hrouted
      refine ⟨[output], ?_, hstep⟩
      rw [hrouted]
      cases output <;> rfl
  | _ => exact ⟨[], by rw [List.append_nil]; exact hrouted, hstep⟩

/-- What every action keeps, a run keeps. -/
theorem run_invariant {I : Publisher → Prop} (hstep : ∀ p a p', p.Wf → p.act a = .ok p' → I p → I p')
    (h : p.Wf) (hI : I p) (actions : List Action) :
    ∃ p', p.run actions = .ok p' ∧ p'.Wf ∧ I p' := by
  induction actions generalizing p with
  | nil => exact ⟨p, rfl, h, hI⟩
  | cons a actions ih =>
    obtain ⟨p₁, hact, hwf, -⟩ := act_spec h a
    obtain ⟨p', hrun, hwf', hI'⟩ := ih hwf (hstep p a p₁ h hact hI)
    refine ⟨p', ?_, hwf', hI'⟩
    unfold run at hrun ⊢
    rw [List.foldlM_cons, hact]
    exact hrun

/-- A feed that is followed is followed along a run. -/
theorem run_follows {id : SubscriberId} {d : Due} (h : p.Wf) (hid : id < p.nextId)
    (hfollows : Follows (p.feed id) symbol d) (actions : List Action) :
    ∃ p' outputs, p.run actions = .ok p' ∧ p'.Wf ∧ p'.routed = p.routed ++ outputs ∧
      Follows (p'.feed id) symbol (due id symbol d outputs) := by
  have hkept : ∀ (q : Publisher) (a : Action) (q' : Publisher), q.Wf → q.act a = .ok q' →
      (id < q.nextId ∧ ∃ outputs, q.routed = p.routed ++ outputs ∧
        Follows (q.feed id) symbol (due id symbol d outputs)) →
      id < q'.nextId ∧ ∃ outputs, q'.routed = p.routed ++ outputs ∧
        Follows (q'.feed id) symbol (due id symbol d outputs) := by
    rintro q a q' hwf hact ⟨hlt, outputs, hrouted, hdue⟩
    obtain ⟨more, hmore, hdue'⟩ := follows_act hwf hact hlt hdue
    obtain ⟨_, hact', -, -, hnext, -⟩ := act_spec hwf a
    obtain rfl := Except.ok.inj (hact.symm.trans hact')
    refine ⟨hlt.trans_le hnext, outputs ++ more, ?_, ?_⟩
    · rw [hmore, hrouted, List.append_assoc]
    · unfold due at hdue' ⊢
      rwa [List.foldl_append]
  obtain ⟨p', hrun, hwf, -, outputs, hrouted, hdue⟩ :=
    run_invariant hkept h ⟨hid, [], (List.append_nil _).symm, hfollows⟩ actions
  exact ⟨p', outputs, hrun, hwf, hrouted, hdue⟩

/-! ## From the constructor -/

/-- A new publisher has nothing to agree or to keep. -/
theorem wf_make {options : PublisherOptions} (h : make symbols options = .ok p) :
    p.Wf ∧ p.Recorded ∧ p.options = options ∧ p.routed = [] := by
  unfold make at h
  split_ifs at h
  obtain rfl := Except.ok.inj h
  refine ⟨?_, ⟨fun symbol => (List.rtake_nil _).symm, fun symbol => rfl⟩, rfl, rfl⟩
  constructor
  case id_eq => exact fun id => rfl
  case fresh => exact fun id _ => rfl
  case registered => exact fun id entry hentry => by cases hentry
  case entry => exact fun kind gatewayId id hgate => by cases kind <;> cases hgate
  case mute => exact fun id entry hentry => by cases hentry
  case shut => exact fun hclosed => by cases hclosed

/-- An action that closes the publisher. -/
def Action.closes : Action → Bool
  | .take .outboxClosed => true
  | _ => false

/-- The options stay, and only the closing of the outbox closes. -/
theorem settings_act (h : p.Wf) (hact : p.act a = .ok p') :
    p'.options = p.options ∧ p'.closed = (p.closed || a.closes) := by
  obtain ⟨_, hact', -, -, -, hrecord⟩ := act_spec h a
  obtain rfl := Except.ok.inj (hact.symm.trans hact')
  have hnoted : (p.noted a).options = p.options ∧ (p.noted a).closed = (p.closed || a.closes) := by
    unfold noted
    cases a with
    | take output =>
      simp only
      split_ifs with hclosed
      · exact ⟨rfl, by rw [hclosed]; rfl⟩
      · cases output with
        | outboxClosed => exact ⟨rfl, (Bool.or_true _).symm⟩
        | _ => exact ⟨rfl, (Bool.or_false _).symm⟩
    | _ => exact ⟨rfl, (Bool.or_false _).symm⟩
  exact ⟨hrecord.options.trans hnoted.1, hrecord.closed.trans hnoted.2⟩

/-- The records and the options along a run. -/
theorem run_recorded {options : PublisherOptions} (h : p.Wf) (hrecorded : p.Recorded)
    (hoptions : p.options = options) (actions : List Action) :
    ∃ p', p.run actions = .ok p' ∧ p'.Wf ∧ p'.Recorded ∧ p'.options = options := by
  have hkept : ∀ (q : Publisher) (a : Action) (q' : Publisher), q.Wf → q.act a = .ok q' →
      q.Recorded ∧ q.options = options → q'.Recorded ∧ q'.options = options := by
    rintro q a q' hwf hact ⟨hq, hopts⟩
    exact ⟨hq.act hwf hact, (settings_act hwf hact).1.trans hopts⟩
  exact run_invariant hkept h ⟨hrecorded, hoptions⟩ actions

end Publisher

end OrderBookEngine
