import OrderBookEngine.Server.Feeds

/-!
# Resuming from a sequence number

A request that asks for a symbol from a sequence number gets its events from there on: the kept ones
from the history, the later ones live. What it is due does not depend on where the two meet
(`due_of_live`), because a publisher that has not dropped an event still keeps it (`replayOf_eq`).
-/

namespace OrderBookEngine

/-- The items of one symbol among those of several. -/
theorem itemsOn_flatMap {symbols : List SymbolId} {g : SymbolId → List FeedItem} (hnodup : symbols.Nodup)
    (hg : ∀ t, ∀ item ∈ g t, item.symbol = t) (symbol : SymbolId) :
    itemsOn symbol (symbols.flatMap g) = if symbol ∈ symbols then g symbol else [] := by
  have hsame : itemsOn symbol (g symbol) = g symbol :=
    List.filter_eq_self.mpr fun item hitem => decide_eq_true (hg symbol item hitem)
  have hother : ∀ t, t ≠ symbol → itemsOn symbol (g t) = [] := fun t ht =>
    List.filter_eq_nil_iff.mpr fun item hitem he => ht ((hg t item hitem).symm.trans (of_decide_eq_true he))
  induction symbols with
  | nil => rfl
  | cons first symbols ih =>
    obtain ⟨hout, hnodup⟩ := List.nodup_cons.mp hnodup
    rw [List.flatMap_cons, itemsOn_append, ih hnodup]
    by_cases hfirst : first = symbol
    · subst hfirst
      rw [hsame, if_neg hout, List.append_nil, if_pos List.mem_cons_self]
    · rw [hother first hfirst, List.nil_append]
      simp only [List.mem_cons, Ne.symm hfirst, false_or]

/-- The events of a symbol have the symbol. -/
theorem symbol_of_mem_marketEventsOf {symbol : SymbolId} {outputs : List Output} {event : MarketEvent}
    (h : event ∈ marketEventsOf symbol outputs) : event.symbol = symbol := by
  obtain ⟨output, -, hon⟩ := List.mem_filterMap.mp h
  unfold Output.marketEventOn at hon
  cases output with
  | marketEvent e =>
    simp only at hon
    split_ifs at hon with hsymbol
    exact Option.some.inj hon ▸ hsymbol
  | _ => cases hon

namespace Publisher

variable {p p' : Publisher} {symbol : SymbolId} {wanted : Seq} {fromSeq : FromSeq}
  {gatewayId : GatewayId} {symbols : List SymbolId} {id : SubscriberId}

/-! ## The start of a feed -/

/-- What is replayed for a symbol has the symbol. -/
theorem symbol_replayOf (h : p.Recorded) (fromSeq : FromSeq) (symbol : SymbolId) :
    ∀ item ∈ p.replayOf fromSeq symbol, item.symbol = symbol := by
  intro item hitem
  unfold replayOf at hitem
  cases hlookup : fromSeq.lookup symbol with
  | none =>
    rw [hlookup] at hitem
    cases hitem
  | some wanted =>
    rw [hlookup] at hitem
    obtain ⟨event, hevent, rfl⟩ := List.mem_map.mp hitem
    have hkept := (List.mem_filter.mp hevent).1
    rw [h.history] at hkept
    exact symbol_of_mem_marketEventsOf (List.mem_of_mem_drop hkept)

/-- Unless it is gone, what is replayed of a symbol is all of its events from the one asked for on. -/
theorem replayOf_eq (h : p.Recorded) (hnum : Numbered p.routed) (hkept : ¬ p.Gone fromSeq)
    (hlookup : fromSeq.lookup symbol = some wanted) :
    p.replayOf fromSeq symbol =
      ((marketEventsOf symbol p.routed).filter fun event => wanted ≤ event.seq).map .marketEvent := by
  unfold replayOf
  rw [hlookup]
  simp only
  rw [h.replayed_eq hnum fun hgone => hkept ⟨symbol, wanted, hlookup, hgone⟩]

/-- A new feed starts with the replay. -/
theorem follows_register (h : p.Wf) (hrecorded : p.Recorded) (stats : PublisherStats)
    (hpasses : p.Passes gatewayId symbols fromSeq) :
    let p' := register { p with stats } (p.newSub gatewayId symbols fromSeq)
      { live := symbolStates fromSeq (p.asked symbols) }
    p'.Wf ∧ p.nextId < p'.nextId ∧ p'.routed = p.routed ∧
    ∀ symbol state, symbolStates fromSeq (p.asked symbols) symbol = some state →
      Follows (p'.feed p.nextId) symbol ⟨state, p.replayOf fromSeq symbol⟩ := by
  intro p'
  obtain ⟨hwf, hfeed, -, hrecord⟩ := hpasses.register_spec h stats
  refine ⟨hwf, ?_, hrecord.routed, fun symbol state hstate => ?_⟩
  · have hnext : p'.nextId = p.nextId + 1 := hrecord.nextId
    rw [hnext]
    exact Nat.lt_succ_self _
  · have hfeed : p'.feed p.nextId = ⟨some { live := symbolStates fromSeq (p.asked symbols) },
        p.newSub gatewayId symbols fromSeq⟩ := hfeed
    have hasked : symbol ∈ p.asked symbols := by
      unfold symbolStates at hstate
      split_ifs at hstate with hasked
      exact hasked
    rw [hfeed]
    refine ⟨fun entry hentry => ?_, fun hnone => by cases hnone⟩
    obtain rfl := Option.some.inj hentry
    refine ⟨rfl, hstate, rfl, ?_⟩
    -- The replayed items are those of all the symbols, and each symbol sees its own.
    show itemsOn symbol ([] ++ (p.asked symbols).flatMap (p.replayOf fromSeq)) = _
    rw [List.nil_append, itemsOn_flatMap (p.nodup_asked symbols) (symbol_replayOf hrecorded fromSeq),
      if_pos hasked]

/-! ## What is due -/

/-- A live symbol is due every event from its threshold on, and no snapshot. -/
theorem due_of_live (id : SubscriberId) (symbol : SymbolId) (wanted : Seq) (items : List FeedItem)
    (outputs : List Output) :
    due id symbol ⟨{ live := true, skipBelow := wanted }, items⟩ outputs =
      ⟨{ live := true, skipBelow := wanted }, items ++
        ((marketEventsOf symbol outputs).filter fun event => wanted ≤ event.seq).map .marketEvent⟩ := by
  induction outputs generalizing items with
  | nil => simp [due, marketEventsOf]
  | cons output outputs ih =>
    have hstep : due id symbol ⟨{ live := true, skipBelow := wanted }, items⟩ (output :: outputs) =
        due id symbol (Due.take id symbol ⟨{ live := true, skipBelow := wanted }, items⟩ output)
          outputs := rfl
    have hskip : ∀ {output : Output}, Output.marketEventOn symbol output = none →
        marketEventsOf symbol (output :: outputs) = marketEventsOf symbol outputs := fun hnone =>
      List.filterMap_cons_none hnone
    rw [hstep]
    cases output with
    | marketEvent event =>
      unfold Due.take
      simp only
      by_cases hsymbol : event.symbol = symbol
      · have hon : Output.marketEventOn symbol (.marketEvent event) = some event := if_pos hsymbol
        have hcons : marketEventsOf symbol (.marketEvent event :: outputs) =
            event :: marketEventsOf symbol outputs := List.filterMap_cons_some hon
        rw [hcons]
        -- An event below the wanted number is not due.
        by_cases hlow : event.seq < wanted
        · have hfilter : ¬ (decide (wanted ≤ event.seq) = true) := fun hle =>
            absurd (of_decide_eq_true hle) (not_le.mpr hlow)
          rw [if_neg fun hd => hd.2.2 hlow, ih, List.filter_cons, if_neg hfilter]
        · have hfilter : decide (wanted ≤ event.seq) = true := decide_eq_true (not_lt.mp hlow)
          rw [if_pos ⟨hsymbol, trivial, hlow⟩, ih, List.filter_cons, if_pos hfilter, List.map_cons,
            List.append_assoc]
          rfl
      · have hoff : Output.marketEventOn symbol (.marketEvent event) = none := if_neg hsymbol
        rw [if_neg fun hd => hsymbol hd.1, ih, hskip hoff]
    | snapshotReady ready =>
      unfold Due.take
      simp only
      -- A symbol that is live takes no snapshot.
      rw [if_neg fun hd => by simp at hd, ih, hskip rfl]
    | reply reply => exact (ih items).trans (by rw [hskip rfl])
    | outboxClosed => exact (ih items).trans (by rw [hskip rfl])

/-! ## Resuming -/

/-- A subscription that has been given the events of a symbol from a sequence number on: what its
consumer has popped of the symbol is a run of them with no snapshot, and until it ends, all of them are
popped or queued. -/
structure Resumed (p : Publisher) (id : SubscriberId) (symbol : SymbolId) (wanted : Seq) : Prop where
  /-- The popped events of the symbol are the first of those wanted, without a gap. -/
  popped : ∃ events, itemsOn symbol (p.subs id).popped = events.map .marketEvent ∧
    events <+: (marketEventsOf symbol p.routed).filter (fun event => wanted ≤ event.seq) ∧
    events.map MarketEvent.seq = List.range' wanted events.length
  /-- While it is open, nothing of them is missing. -/
  complete : (p.subs id).endReason = .none →
    itemsOn symbol ((p.subs id).popped ++ (p.subs id).items) =
      ((marketEventsOf symbol p.routed).filter fun event => wanted ≤ event.seq).map .marketEvent

/-- A feed that is due the events from a number on has resumed there. -/
theorem resumed_of_follows (hnum : Numbered p.routed) (hone : 1 ≤ wanted) {state : SymbolState}
    (h : Follows (p.feed id) symbol
      ⟨state, ((marketEventsOf symbol p.routed).filter fun event => wanted ≤ event.seq).map
        .marketEvent⟩) : p.Resumed id symbol wanted := by
  constructor
  case popped =>
    obtain ⟨events, hevents, hpopped⟩ := List.prefix_map_iff.mp h.popped
    exact ⟨events, hpopped, hevents, (hnum symbol).map_of_isPrefix hone hevents⟩
  case complete =>
    intro hopen
    cases hentry : (p.feed id).entry with
    | none => exact absurd hopen (h.ended hentry).1
    | some entry => exact (h.registered entry hentry).2.2.2

/-- **Resuming.** A publisher's run throws nothing. In a run in which the events of each symbol are
numbered 1, 2, 3, ..., a request that passes the other checks is refused as too old exactly when some
event that it asks for from has been routed and is not among the last `replayWindow` of its symbol, and
then nothing is registered. Otherwise, at any later moment, every symbol that it asks for from a
sequence number has been given its events from there on. -/
theorem resume_exact (symbols : List SymbolId) (options : PublisherOptions) (p₀ : Publisher)
    (hmake : make symbols options = .ok p₀) (actions : List Action) :
    ∃ p, p₀.run actions = .ok p ∧
      ∀ gatewayId asked fromSeq, ∃ p₁ result snapshots,
        p.subscribe gatewayId asked fromSeq = .ok (p₁, result, snapshots) ∧
        (Numbered p.routed → p.Passes gatewayId asked fromSeq →
          (result.error = .tooOld ↔ ∃ symbol wanted, fromSeq.lookup symbol = some wanted ∧
            (∃ event ∈ marketEventsOf symbol p.routed, event.seq = wanted) ∧
            ¬ ∃ event ∈ (marketEventsOf symbol p.routed).rtake options.replayWindow,
              event.seq = wanted) ∧
          (result.error = .tooOld →
            result.subscription = none ∧ snapshots = [] ∧ p₁ = { p with stats := p₁.stats }) ∧
          (result.error ≠ .tooOld → result = { subscription := some p.nextId } ∧
            ∀ later, ∃ p₂, p₁.run later = .ok p₂ ∧
              (Numbered p₂.routed → ∀ symbol wanted, fromSeq.lookup symbol = some wanted →
                p₂.Resumed p.nextId symbol wanted))) := by
  obtain ⟨hwf₀, hrecorded₀, hoptions₀, -⟩ := wf_make hmake
  obtain ⟨p, hrun, hwf, hrecorded, hoptions⟩ := run_recorded hwf₀ hrecorded₀ hoptions₀ actions
  refine ⟨p, hrun, fun gatewayId asked fromSeq => ?_⟩
  obtain ⟨p₁, result, snapshots, hsubscribe, hcases⟩ := p.subscribe_spec gatewayId asked fromSeq
  refine ⟨p₁, result, snapshots, hsubscribe, fun hnum hpasses => ?_⟩
  have hgone : p.Gone fromSeq ↔ _ :=
    hrecorded.gone_iff hnum fun symbol seq hlookup => (hpasses.wanted symbol seq hlookup).2
  rw [hoptions] at hgone
  rw [← hgone]
  cases hcases with
  | refused fails => exact absurd hpasses fails
  | tooOld _ gone subscription error =>
    exact ⟨iff_of_true error gone, fun _ => ⟨subscription, rfl, rfl⟩, fun hne => absurd error hne⟩
  | registered stats _ kept =>
    refine ⟨iff_of_false (by simp) kept, fun h => (by cases h), fun _ => ⟨rfl, fun later => ?_⟩⟩
    obtain ⟨hwf₁, hnext, hrouted₁, hfollows⟩ := follows_register hwf hrecorded stats hpasses
    obtain ⟨p₂, hrun₂, -, -⟩ := run_invariant (I := fun _ => True) (fun _ _ _ _ _ _ => trivial) hwf₁
      trivial later
    refine ⟨p₂, hrun₂, fun hnum₂ symbol wanted hlookup => ?_⟩
    obtain ⟨hasked, hone⟩ := hpasses.wanted symbol wanted hlookup
    have hstate : symbolStates fromSeq (p.asked asked) symbol =
        some { live := true, skipBelow := wanted } := by
      unfold symbolStates
      rw [if_pos hasked, hlookup]
    obtain ⟨_, outputs, hrun₂', -, hrouted₂, hdue⟩ :=
      run_follows hwf₁ hnext (hfollows symbol _ hstate) later
    obtain rfl := Except.ok.inj (hrun₂.symm.trans hrun₂')
    -- The replay is what came before the request, the rest came after it.
    have hwhole : p.replayOf fromSeq symbol ++ ((marketEventsOf symbol outputs).filter fun event =>
          wanted ≤ event.seq).map .marketEvent =
        ((marketEventsOf symbol p₂.routed).filter fun event => wanted ≤ event.seq).map
          FeedItem.marketEvent := by
      rw [replayOf_eq hrecorded hnum kept hlookup, hrouted₂, hrouted₁, marketEventsOf_append,
        List.filter_append, List.map_append]
    rw [due_of_live, hwhole] at hdue
    exact resumed_of_follows hnum₂ hone hdue

/-- With a window of one event, the last is still kept: a request from it on resumes. -/
theorem resume_exact_of_window :
    let p₀ : Publisher := { symbolList := [1], options := { queueCapacity := 2, replayWindow := 1 } }
    let event (seq : Seq) : MarketEvent :=
      { symbol := 1
        event := { sequenceNumber := seq, kind := .cancelled, ts := 0, orderId := seq, ownerId := 1,
                   side := .buy, price := some 100, quantity := 1 } }
    ∃ p p₁ snapshots p₂,
      p₀.run [.take (.marketEvent (event 1)), .take (.marketEvent (event 2))] = .ok p ∧
      p.subscribe "gateway" [1] (AList.singleton 1 2) = .ok (p₁, { subscription := some 1 }, snapshots) ∧
      p₁.run [.take (.marketEvent (event 3)), .nextFor 1] = .ok p₂ ∧ p₂.Resumed 1 1 2 := by
  intro p₀ event
  -- The stream of the symbol is numbered without gaps, which is what the theorem asks for.
  have hnumbered : ∀ n, Numbered ((List.range' 1 n).map fun seq => .marketEvent (event seq)) := by
    intro n symbol
    by_cases hsymbol : symbol = 1
    · have hevents : marketEventsOf symbol ((List.range' 1 n).map fun seq => .marketEvent (event seq)) =
          (List.range' 1 n).map event := by
        unfold marketEventsOf
        rw [List.filterMap_map, ← List.filterMap_eq_map]
        exact List.filterMap_congr fun seq _ => if_pos hsymbol.symm
      rw [hevents, NumberedBy, List.map_map, List.length_map, List.length_range']
      exact List.map_id _
    · have hevents : marketEventsOf symbol ((List.range' 1 n).map fun seq => .marketEvent (event seq)) =
          [] := by
        unfold marketEventsOf
        rw [List.filterMap_map]
        exact List.filterMap_eq_nil_iff.mpr fun seq _ => if_neg (Ne.symm hsymbol)
      rw [hevents]
      rfl
  obtain ⟨p, hrun, h⟩ := resume_exact [1] { queueCapacity := 2, replayWindow := 1 } p₀ rfl
    [.take (.marketEvent (event 1)), .take (.marketEvent (event 2))]
  obtain ⟨p₁, result, snapshots, hsubscribe, hanswer⟩ := h "gateway" [1] (AList.singleton 1 2)
  have hp := Except.ok.inj hrun
  have hrouted : p.routed = (List.range' 1 2).map fun seq => .marketEvent (event seq) := by
    rw [← hp]
    rfl
  have hlookup : ∀ symbol wanted, (AList.singleton 1 2 : FromSeq).lookup symbol = some wanted →
      symbol = 1 ∧ wanted = 2 := by
    intro symbol wanted hlookup
    have hmem := AList.mem_lookup_iff.mp hlookup
    rw [AList.singleton_entries, List.mem_singleton] at hmem
    cases hmem
    exact ⟨rfl, rfl⟩
  have hasked : p.asked [1] = [1] := rfl
  have hpasses : p.Passes "gateway" [1] (AList.singleton 1 2) := by
    constructor
    case gateway => simp
    case known => rw [hasked, ← hp]; exact fun symbol hmem => hmem
    case wanted =>
      intro symbol wanted hwanted
      obtain ⟨rfl, rfl⟩ := hlookup symbol wanted hwanted
      rw [hasked]
      simp
    case open_ => rw [← hp]; rfl
    case single => rw [← hp]; rfl
  obtain ⟨hold, -, hnew⟩ := hanswer (hrouted ▸ hnumbered 2) hpasses
  -- The window holds the event of the wanted number.
  have herror : result.error ≠ .tooOld := by
    intro herror
    obtain ⟨symbol, wanted, hwanted, -, hout⟩ := hold.mp herror
    obtain ⟨rfl, rfl⟩ := hlookup symbol wanted hwanted
    refine hout ⟨event 2, ?_, rfl⟩
    rw [hrouted]
    exact List.mem_singleton_self (event 2)
  obtain ⟨rfl, hlater⟩ := hnew herror
  obtain ⟨p₂, hrun₂, hresumed⟩ := hlater [.take (.marketEvent (event 3)), .nextFor 1]
  have hid : p.nextId = 1 := by rw [← hp]; rfl
  rw [hid] at hsubscribe hresumed
  have hrouted₂ : p₂.routed = (List.range' 1 3).map fun seq => .marketEvent (event seq) := by
    have hsubscribe₁ := hsubscribe
    rw [← hp] at hsubscribe₁
    have hp₁ : _ = p₁ := congrArg Prod.fst (Except.ok.inj hsubscribe₁)
    have hrun₁ := hrun₂
    rw [← hp₁] at hrun₁
    rw [← Except.ok.inj hrun₁]
    rfl
  exact ⟨p, p₁, snapshots, p₂, hrun, hsubscribe, hrun₂, hresumed (hrouted₂ ▸ hnumbered 3) 1 2 rfl⟩

end Publisher

end OrderBookEngine
