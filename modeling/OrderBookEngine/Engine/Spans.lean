import OrderBookEngine.Engine.Frame

/-!
# The events of a run and the events of its walks

The stream of events only grows, its events are numbered 1, 2, 3, ..., and trades and halts are emitted
by walks alone. `Spans` says so of a piece of a run and the walks in it: the stream after every walk is a
beginning of the stream at the end, and an event that only walks emit, and that the piece emits, lies in
the stretch of one of its walks.
-/

namespace OrderBookEngine

/-- The kinds of event that only the fill loop emits. -/
def EventKind.ofWalk : EventKind → Bool
  | .trade | .halted => true
  | _ => false

/-- The events are numbered 1, 2, 3, ... in order, and the next number follows. -/
structure Session.Numbered (s : Session) : Prop where
  /-- The event at a place has the number of the place. -/
  events : s.events.map EngineEvent.sequenceNumber = List.range' 1 s.events.length
  /-- One more than there are events. -/
  nextSeq : s.nextSeq = s.events.length + 1

/-- One more event, with the next number. -/
theorem Session.Numbered.note {s s' : Session} {e : EngineEvent} (h : s.Numbered)
    (hevents : s'.events = s.events ++ [e]) (hseq : e.sequenceNumber = s.nextSeq)
    (hnext : s'.nextSeq = s.nextSeq + 1) : s'.Numbered where
  events := by
    rw [hevents, List.map_append, h.events, List.map_singleton, hseq, h.nextSeq, List.length_append,
      List.length_singleton, List.range'_1_concat, Nat.add_comm]
  nextSeq := by rw [hnext, hevents, h.nextSeq, List.length_append, List.length_singleton]

/-- A change without an event. -/
theorem Session.Numbered.silent {s s' : Session} (h : s.Numbered) (hevents : s'.events = s.events)
    (hnext : s'.nextSeq = s.nextSeq) : s'.Numbered :=
  ⟨hevents ▸ h.events, hnext.trans (hevents ▸ h.nextSeq)⟩

namespace Book

variable {b b' b'' : Book} {incoming : Order} {now : ℤ} {entries entries' : List (Entry Book)}

/-- The stream of events after an entry's walk. -/
def eventsAfter (e : Entry Book) : List EngineEvent := (e.state.walk e.order e.now).1.events

/-- A piece of a run, from `b` to `b'`, with its walks. -/
structure Spans (b b' : Book) (entries : List (Entry Book)) : Prop where
  /-- Nothing that has been emitted changes. -/
  grows : b.events <+: b'.events
  /-- What has been emitted up to the end of a walk stays. -/
  walked : ∀ e ∈ entries, eventsAfter e <+: b'.events
  /-- An event of the fill loop was emitted before, or by one of the walks. -/
  ofWalk : ∀ before ev, before ++ [ev] <+: b'.events → ev.kind.ofWalk = true →
    before ++ [ev] <+: b.events ∨
      ∃ e ∈ entries, e.state.events <+: before ∧ before ++ [ev] <+: eventsAfter e
  /-- The numbers stay in order. -/
  numbered : b.Numbered → b'.Numbered

/-! ## Pieces without a walk -/

/-- A piece that emits nothing. -/
theorem spans_silent (h : b'.events = b.events) (hnext : b'.nextSeq = b.nextSeq) : Spans b b' [] where
  grows := h ▸ List.prefix_rfl
  walked _ he := by cases he
  ofWalk before ev hev _ := Or.inl (h ▸ hev)
  numbered hnum := hnum.silent h hnext

/-- The piece that does nothing. -/
theorem Spans.refl (b : Book) : Spans b b [] := spans_silent rfl rfl

/-- A piece that emits one event, which no walk emits. -/
theorem spans_note {ev : EngineEvent} (h : b'.events = b.events ++ [ev]) (hk : ev.kind.ofWalk = false)
    (hseq : ev.sequenceNumber = b.nextSeq) (hnext : b'.nextSeq = b.nextSeq + 1) :
    Spans b b' [] where
  grows := by
    rw [h]
    exact List.prefix_append _ _
  walked _ he := by cases he
  ofWalk before ev' hev hk' := by
    rw [h] at hev
    rcases List.prefix_concat_iff.mp hev with heq | hleads
    · obtain ⟨-, hsame⟩ := List.append_inj' heq rfl
      rw [List.singleton_inj.mp hsame, hk] at hk'
      cases hk'
    · exact Or.inl hleads
  numbered hnum := hnum.note h hseq hnext

/-- Two pieces, one after the other. -/
theorem Spans.trans (h : Spans b b' entries) (h' : Spans b' b'' entries') :
    Spans b b'' (entries ++ entries') where
  grows := h.grows.trans h'.grows
  walked e he := by
    rcases List.mem_append.mp he with he | he
    · exact (h.walked e he).trans h'.grows
    · exact h'.walked e he
  ofWalk before ev hev hk := by
    rcases h'.ofWalk before ev hev hk with hev' | ⟨e, he, hstretch⟩
    · rcases h.ofWalk before ev hev' hk with hev'' | ⟨e, he, hstretch⟩
      · exact Or.inl hev''
      · exact Or.inr ⟨e, List.mem_append_left _ he, hstretch⟩
    · exact Or.inr ⟨e, List.mem_append_right _ he, hstretch⟩
  numbered hnum := h'.numbered (h.numbered hnum)

/-! ## What a walk emits -/

/-- A fill is skipped at the second price outside the band, or emits one event. -/
theorem events_fillStep (now : ℤ) (l : FillLoop) (fill : ProposedFill) :
    (fillStep now l fill).book.events = l.book.events ∧
        (fillStep now l fill).bandLimited = true ∨
      ∃ ev, (fillStep now l fill).book.events = l.book.events ++ [ev] := by
  unfold fillStep
  cases l.book.bandDecision now l.breachLevel fill.fillPrice with
  | halt => exact Or.inr ⟨_, rfl⟩
  | limit => exact Or.inl ⟨rfl, rfl⟩
  | print outside breach =>
    simp only
    split_ifs <;> exact Or.inr ⟨_, rfl⟩

/-- A fill keeps what has been emitted. -/
theorem prefix_fillStep (now : ℤ) (l : FillLoop) (fill : ProposedFill) :
    l.book.events <+: (fillStep now l fill).book.events := by
  rcases events_fillStep now l fill with ⟨heq, -⟩ | ⟨ev, heq⟩
  · exact heq ▸ List.prefix_rfl
  · rw [heq]
    exact List.prefix_append _ _

/-- The fill loop keeps what has been emitted, fill by fill. -/
theorem prefix_fillLoop (now : ℤ) (fills : List ProposedFill) (l : FillLoop) :
    l.book.events <+: (fillLoop now fills l).book.events := by
  induction fills generalizing l with
  | nil => exact List.prefix_rfl
  | cons fill fills ih =>
    rw [fillLoop]
    split_ifs
    · exact prefix_fillStep now l fill
    · exact (prefix_fillStep now l fill).trans (ih _)

/-- The remainder rests, expires, or is nothing. -/
def Remains (events events' : List EngineEvent) : Prop :=
  ∃ es, events' = events ++ es ∧ ∀ ev ∈ es, ev.kind = .rested ∨ ev.kind = .expired

/-- One event that says where the remainder went. -/
theorem Remains.one (events : List EngineEvent) {e : EngineEvent}
    (h : e.kind = .rested ∨ e.kind = .expired) : Remains events (events ++ [e]) :=
  ⟨[e], rfl, fun _ he => List.mem_singleton.mp he ▸ h⟩

/-- What remains of a walk calls no halt. -/
theorem Remains.halted {events events' before : List EngineEvent} {ev : EngineEvent}
    (h : Remains events events') (hev : before ++ [ev] <+: events') (hk : ev.kind = .halted) :
    before ++ [ev] <+: events := by
  obtain ⟨es, rfl, hkinds⟩ := h
  rcases List.prefix_or_prefix_of_prefix hev (List.prefix_append events es) with hle | hle
  · exact hle
  · rcases List.prefix_concat_iff.mp hle with heq | ⟨mid, rfl⟩
    · exact heq ▸ List.prefix_rfl
    · rw [List.append_assoc, List.prefix_append_right_inj] at hev
      rcases hkinds ev (hev.subset (by simp)) with hrested | hexpired
      · rw [hk] at hrested
        cases hrested
      · rw [hk] at hexpired
        cases hexpired

/-- A remainder expires with one event. -/
theorem remains_expire (b : Book) (incoming : Order) (trades : List Trade) (why : RejectReason)
    (now : ℤ) : Remains b.events (b.expire incoming trades why now).1.events :=
  Remains.one b.events (e := { incoming.event .expired now with sequenceNumber := b.nextSeq })
    (Or.inr rfl)

/-- An order comes to rest with one event. -/
theorem remains_restOrder (h : b.restOrder incoming now = some b') : Remains b.events b'.events := by
  unfold restOrder at h
  obtain ⟨st, -, rfl⟩ := Option.map_eq_some_iff.mp h
  exact Remains.one b.events (e := { incoming.event .rested now with sequenceNumber := b.nextSeq })
    (Or.inl rfl)

/-- At the edge of the band the remainder rests, or expires. -/
theorem remains_restAtBandEdge (b : Book) (incoming : Order) (trades : List Trade)
    (why : RejectReason) (now : ℤ) :
    Remains b.events (b.restAtBandEdge incoming trades why now).1.events := by
  unfold restAtBandEdge
  simp only
  split_ifs
  · cases hr : b.restOrder (b.atBandEdge incoming) now with
    | none => exact remains_expire ..
    | some b' => exact remains_restOrder hr
  · exact remains_expire ..
  · exact remains_expire ..
  · exact ⟨[], (List.append_nil _).symm, by simp⟩

/-- The end of a walk rests or expires the remainder, if there is one. -/
theorem remains_settle (l : FillLoop) (plan : MatchPlan) (now : ℤ) :
    Remains l.book.events (settle l plan now).1.events := by
  unfold settle
  simp only
  set b := if l.incoming.quantity = 0 then
    { l.book with toSession := l.book.markFilled l.incoming.id } else l.book with hb
  have hevents : b.events = l.book.events := by
    rw [hb]
    split_ifs <;> rfl
  rw [← hevents]
  split_ifs
  · exact remains_restAtBandEdge ..
  · exact remains_restAtBandEdge ..
  · exact remains_expire ..
  · cases hr : b.restOrder l.incoming now with
    | none => exact remains_expire ..
    | some b' => exact remains_restOrder hr
  all_goals first
    | exact remains_expire ..
    | exact ⟨[], (List.append_nil _).symm, by simp⟩

/-- A walk keeps what has been emitted. -/
theorem prefix_walk (b : Book) (incoming : Order) (now : ℤ) :
    b.events <+: (b.walk incoming now).1.events := by
  obtain ⟨es, hes, -⟩ := remains_settle
    (fillLoop now (b.planMatch incoming).fills { book := b, incoming }) (b.planMatch incoming) now
  unfold walk
  simp only
  rw [hes]
  exact (prefix_fillLoop now _ { book := b, incoming }).trans (List.prefix_append _ _)

/-! ## The numbers of a walk's events -/

/-- The event of a fill has the next number. -/
theorem numbered_fillStep (now : ℤ) (l : FillLoop) (fill : ProposedFill) (h : l.book.Numbered) :
    (fillStep now l fill).book.Numbered := by
  unfold fillStep
  cases l.book.bandDecision now l.breachLevel fill.fillPrice with
  | halt => exact h.note rfl rfl rfl
  | limit => exact h
  | print outside breach =>
    simp only
    split_ifs <;> exact h.note rfl rfl rfl

/-- The fill loop keeps the numbers in order, fill by fill. -/
theorem numbered_fillLoop (now : ℤ) (fills : List ProposedFill) (l : FillLoop) (h : l.book.Numbered) :
    (fillLoop now fills l).book.Numbered := by
  induction fills generalizing l with
  | nil => exact h
  | cons fill fills ih =>
    rw [fillLoop]
    split_ifs
    · exact numbered_fillStep now l fill h
    · exact ih _ (numbered_fillStep now l fill h)

/-- An order that rests keeps the numbers in order. -/
theorem numbered_restOrder (hrest : b.restOrder incoming now = some b') (h : b.Numbered) :
    b'.Numbered := by
  unfold restOrder at hrest
  obtain ⟨st, -, rfl⟩ := Option.map_eq_some_iff.mp hrest
  exact h.note rfl rfl rfl

/-- An order that expires keeps the numbers in order. -/
theorem numbered_expire (trades : List Trade) (why : RejectReason) (h : b.Numbered) :
    (b.expire incoming trades why now).1.Numbered := h.note rfl rfl rfl

/-- At the edge of the band the numbers stay in order. -/
theorem numbered_restAtBandEdge (trades : List Trade) (why : RejectReason) (h : b.Numbered) :
    (b.restAtBandEdge incoming trades why now).1.Numbered := by
  unfold restAtBandEdge
  simp only
  split_ifs
  · cases hr : b.restOrder (b.atBandEdge incoming) now with
    | none => exact numbered_expire _ _ h
    | some b' => exact numbered_restOrder hr h
  · exact numbered_expire _ _ h
  · exact numbered_expire _ _ h
  · exact h

/-- The end of a walk keeps the numbers in order. -/
theorem numbered_settle (l : FillLoop) (plan : MatchPlan) (now : ℤ) (h : l.book.Numbered) :
    (settle l plan now).1.Numbered := by
  unfold settle
  simp only
  set b := if l.incoming.quantity = 0 then
    { l.book with toSession := l.book.markFilled l.incoming.id } else l.book with hb
  have hnum : b.Numbered := by
    rw [hb]
    split_ifs
    · exact h.silent rfl rfl
    · exact h
  split_ifs
  · exact numbered_restAtBandEdge _ _ hnum
  · exact numbered_restAtBandEdge _ _ hnum
  · exact numbered_expire _ _ hnum
  · cases hr : b.restOrder l.incoming now with
    | none => exact numbered_expire _ _ hnum
    | some b' => exact numbered_restOrder hr hnum
  all_goals first
    | exact numbered_expire _ _ hnum
    | exact hnum

/-- A walk keeps the numbers in order. -/
theorem numbered_walk (b : Book) (incoming : Order) (now : ℤ) (h : b.Numbered) :
    (b.walk incoming now).1.Numbered :=
  numbered_settle _ _ now (numbered_fillLoop now _ _ h)

/-- A walk is a piece of its own. -/
theorem spans_walk (b : Book) (incoming : Order) (now : ℤ) :
    Spans b (b.walk incoming now).1 [{ state := b, order := incoming, now }] where
  grows := prefix_walk b incoming now
  walked e he := by rw [List.mem_singleton.mp he]; exact List.prefix_rfl
  ofWalk before ev hev _ := by
    rcases List.prefix_or_prefix_of_prefix (prefix_walk b incoming now) hev with hle | hle
    · rcases List.prefix_concat_iff.mp hle with heq | hle
      · exact Or.inl (heq ▸ List.prefix_rfl)
      · exact Or.inr ⟨_, List.mem_singleton_self _, hle, hev⟩
    · exact Or.inl hle
  numbered := numbered_walk b incoming now

/-! ## Calls -/

/-- Validation emits the resumption, if anything. -/
theorem spans_validate (b : Book) (order : Order) (now : ℤ) :
    Spans b { b with toSession := (b.validateNewOrder order now).1 } [] := by
  unfold Session.validateNewOrder
  split_ifs
  · exact .refl b
  · exact spans_note rfl rfl rfl rfl
  · exact .refl b

/-- An admission emits the acceptance, behind the resumption if there is one. -/
theorem spans_admitted (h : b.admitted incoming now = some b') : Spans b b' [] := by
  unfold admitted at h
  simp only at h
  split_ifs at h
  obtain rfl := Option.some.inj h
  exact (spans_validate b incoming now).trans (spans_note rfl rfl rfl rfl)

/-- A refusal emits the rejection, if it is reported. -/
theorem spans_refused {f : ℤ → ℤ → ℤ → Book → Book} (h : b.admitted incoming now = none)
    (reportReject : Bool) : Spans b (b.addOrderCoreWith f incoming now reportReject).1 [] := by
  obtain ⟨why, -, heq⟩ := addOrderCoreWith_of_refused f h reportReject
  rw [heq]
  cases reportReject with
  | false => exact spans_validate b incoming now
  | true => exact (spans_validate b incoming now).trans (spans_note rfl rfl rfl rfl)

/-- An order is entered, and the call that ends it follows. -/
theorem spans_addOrderCoreWith {f : ℤ → ℤ → ℤ → Book → Book}
    {after : ℤ → ℤ → ℤ → Book → List (Entry Book)}
    (hf : ∀ low high b, Spans b (f low high now b) (after low high now b)) (b : Book)
    (incoming : Order) (reportReject : Bool) :
    Spans b (b.addOrderCoreWith f incoming now reportReject).1 (b.coreEntries after incoming now) := by
  unfold coreEntries
  cases hadm : b.admitted incoming now with
  | none => exact spans_refused hadm reportReject
  | some b' =>
    have hwalk := (spans_admitted hadm).trans (spans_walk b' incoming now)
    rw [addOrderCoreWith_of_admitted f hadm]
    unfold afterWalk entriesAfter
    simp only
    cases (b'.walk incoming now).2.trades.getLast? with
    | none => exact hwalk
    | some last =>
      simp only
      set moved : Book := { (b'.walk incoming now).1 with
        toSession := (b'.walk incoming now).1.moveReference last }
      have hmoved : Spans (b'.walk incoming now).1 moved [] := spans_silent rfl rfl
      exact hwalk.trans (hmoved.trans (hf _ _ moved))

/-- Waking stops emits nothing. -/
theorem spans_wakeStops (low high : ℤ) (b : Book) : Spans b (b.wakeStops low high) [] := by
  unfold wakeStops
  split_ifs <;> exact spans_silent rfl rfl

/-- A drain is made of the firings and their walks. -/
theorem spans_drainLoop (now : ℤ) (fuel : ℕ) (b : Book) :
    Spans b (drainLoop now fuel b) (drainEntries now fuel b) := by
  induction fuel generalizing b with
  | zero => exact .refl b
  | succ fuel ih =>
    unfold drainLoop drainEntries
    cases b.triggeredStops with
    | nil => exact .refl b
    | cons stop rest =>
      simp only
      split_ifs
      · exact spans_silent rfl rfl
      · have hfired : Spans b ({ b with triggeredStops := rest }.emit (stop.event .stopTriggered now)) [] :=
          spans_note rfl rfl rfl rfl
        have hcore : Spans ({ b with triggeredStops := rest }.emit (stop.event .stopTriggered now))
            ({ b with triggeredStops := rest }.fireStop stop now)
            (coreEntries (fun _ _ _ _ => [])
              ({ b with triggeredStops := rest }.emit (stop.event .stopTriggered now))
              stop.firedOrder now) :=
          spans_addOrderCoreWith (fun low high b => spans_wakeStops low high b) _ _ false
        exact (hfired.trans hcore).trans (ih _)

/-- The firing of stops after a walk is one drain, or nothing. -/
theorem spans_checkAndTriggerStops (low high now : ℤ) (b : Book) :
    Spans b (checkAndTriggerStops low high now b) (triggerEntries low high now b) := by
  unfold checkAndTriggerStops triggerEntries
  simp only
  split_ifs
  · exact .refl b
  · exact spans_wakeStops low high b
  · set b' : Book := b.wakeStops low high
    have hwake : Spans b { b' with drainingStops := true } [] :=
      (spans_wakeStops low high b).trans (spans_silent rfl rfl)
    set drained := drainLoop now { b' with drainingStops := true }.pendingStops
      { b' with drainingStops := true }
    have hdrain : Spans { b' with drainingStops := true } drained _ := spans_drainLoop now _ _
    have hdone : Spans drained { drained with drainingStops := false } [] := spans_silent rfl rfl
    have hall := (hwake.trans hdrain).trans hdone
    rw [List.append_nil, List.nil_append] at hall
    exact hall

/-- An order that is entered is a piece with its own walk and those of the stops that it wakes. -/
theorem spans_addOrderCore (b : Book) (incoming : Order) (now : ℤ) (reportReject : Bool) :
    Spans b (b.addOrderCore incoming now reportReject).1 (b.coreEntries triggerEntries incoming now) :=
  spans_addOrderCoreWith (fun low high b => spans_checkAndTriggerStops low high now b) b incoming
    reportReject

/-- A modification withdraws, reduces, or replaces with a walk. -/
theorem spans_modifyOrder (b : Book) (id : OrderId) (requester : OwnerId) (price quantity now : ℤ) :
    Spans b (b.modifyOrder id requester price quantity now).1
      (b.callEntries (.modifyOrder id requester price quantity now)) := by
  rw [modifyOrder, callEntries]
  cases b.ownedBy id requester with
  | false => exact .refl b
  | true =>
    cases b.idIndex id with
    | none => exact .refl b
    | some p =>
      simp only [Bool.not_true, Bool.false_eq_true, if_false]
      set order := (b.node p).order
      by_cases hbad : Session.validateOrderFields
          { order with price := some price, quantity } ≠ .none
      · rw [if_pos hbad, if_pos (Or.inl hbad)]
        exact .refl b
      by_cases hnone : quantity - order.filled ≤ 0
      · rw [if_neg hbad, if_pos hnone, if_pos (Or.inr (Or.inl hnone))]
        exact spans_note rfl rfl rfl rfl
      by_cases hplace : some price = order.price ∧ quantity - order.filled ≤ order.quantity
      · rw [if_neg hbad, if_neg hnone, if_pos hplace, if_pos (Or.inr (Or.inr hplace))]
        exact spans_note rfl rfl rfl rfl
      -- What is left are the changes that take the order out and enter it again.
      have hstay : ¬(Session.validateOrderFields { order with price := some price, quantity } ≠ .none ∨
          quantity - order.filled ≤ 0 ∨
            some price = order.price ∧ quantity - order.filled ≤ order.quantity) :=
        fun h => h.elim hbad fun h => h.elim hnone hplace
      rw [if_neg hbad, if_neg hnone, if_neg hplace, if_neg hstay]
      set replacement : Order := { order with price := some price, quantity := quantity - order.filled }
      have hvalidate := spans_validate b replacement now
      by_cases hinvalid : (b.validateNewOrder replacement now).2 ≠ .none
      · rw [if_pos hinvalid, if_pos hinvalid]
        exact hvalidate
      · rw [if_neg hinvalid, if_neg hinvalid]
        set validated : Book := { b with toSession := (b.validateNewOrder replacement now).1 }
        set removed : Book := { validated.emit (order.event .replaced now) with
          toStore := (validated.emit (order.event .replaced now)).removeResting p }
        have hreplaced : Spans validated removed [] := spans_note rfl rfl rfl rfl
        exact (hvalidate.trans hreplaced).trans (spans_addOrderCore removed replacement now false)

/-- Every call is a piece of the run with its walks. -/
theorem spans_call (b : Book) (c : Call) : Spans b (b.call c) (b.callEntries c) := by
  cases c with
  | addOrder order now => exact spans_addOrderCore b order now true
  | modifyOrder id requester price quantity now =>
    exact spans_modifyOrder b id requester price quantity now
  | cancelOrder id requester now =>
    show Spans b (b.cancelOrder id requester now).1 []
    unfold cancelOrder
    cases b.ownedBy id requester with
    | false => exact .refl b
    | true =>
      cases b.idIndex id with
      | none => exact .refl b
      | some p => exact spans_note rfl rfl rfl rfl
  | placeStopOrder stop now =>
    show Spans b (b.placeStopOrder stop now).1 []
    unfold placeStopOrder
    simp only
    split_ifs <;> exact spans_note rfl rfl rfl rfl
  | cancelStopOrder id requester now =>
    show Spans b (b.cancelStopOrder id requester now).1 []
    unfold cancelStopOrder
    cases b.ownedBy id requester with
    | false => exact .refl b
    | true =>
      cases b.stopIndex id with
      | none => exact .refl b
      | some location =>
        cases hfind : (b.stopsFor location.side).find? location.key with
        | none =>
          simp only [hfind]
          exact .refl b
        | some stop =>
          simp only [hfind]
          exact spans_note rfl rfl rfl rfl
  | modifyStopOrder id requester stopPrice limitPrice quantity now =>
    show Spans b (b.modifyStopOrder id requester stopPrice limitPrice quantity now).1 []
    unfold modifyStopOrder
    cases b.ownedBy id requester with
    | false => exact .refl b
    | true =>
      cases b.stopIndex id with
      | none => exact .refl b
      | some location =>
        cases hfind : (b.stopsFor location.side).find? location.key with
        | none =>
          simp only [hfind]
          exact .refl b
        | some old =>
          simp only [hfind, Bool.not_true, Bool.false_eq_true, if_false]
          split_ifs
          · exact .refl b
          · exact .refl b
          all_goals exact spans_note rfl rfl rfl rfl

/-- **The walks of a run.** The stream after every walk of a run is a beginning of the run's, and every
trade and halt of the run is emitted by one of its walks. -/
theorem spans_run (b : Book) (calls : List Call) : Spans b (b.run calls) (b.runEntries calls) := by
  induction calls generalizing b with
  | nil => exact .refl b
  | cons c calls ih => exact (spans_call b c).trans (ih _)

end Book

end OrderBookEngine
