import OrderBookEngine.Market.Episodes
import OrderBookEngine.Refine.Run

/-!
# Every accepted order has one outcome

From an `Accepted` event to the next one of the same id, the order trades no more than its quantity,
and what is left of it rests or expires, once, in the same call and behind its trades. An answer to
`add_order` says the same of the order's own trades. Both are read off the stream of blocks.
-/

namespace OrderBookEngine

/-- The events up to the next acceptance of an id. -/
def untilAccepted (id : OrderId) (es : List EngineEvent) : List EngineEvent :=
  es.takeWhile fun e => !(e.kind = .accepted && e.orderId = id)

/-- The trades of an aggressor. -/
def tradesOf (id : OrderId) (es : List EngineEvent) : List EngineEvent :=
  es.filter fun e => e.kind = .trade && e.orderId = id

/-- The events that an order comes to rest or expires with. -/
def closingsOf (id : OrderId) (es : List EngineEvent) : List EngineEvent :=
  es.filter fun e => (e.kind = .rested || e.kind = .expired) && e.orderId = id

/-- The events that an order expires with. -/
def expiriesOf (id : OrderId) (es : List EngineEvent) : List EngineEvent :=
  (closingsOf id es).filter fun e => e.kind = .expired

/-- The quantity that an order has traded as the aggressor. -/
def tradedQuantity (id : OrderId) (es : List EngineEvent) : ℤ :=
  ((tradesOf id es).map EngineEvent.quantity).sum

/-- The outcome of an acceptance, in the rest of its call and the events of later calls. -/
structure Outcome (accepted : EngineEvent) (call later : List EngineEvent) : Prop where
  /-- It trades no more than it was accepted for. -/
  le : tradedQuantity accepted.orderId (untilAccepted accepted.orderId (call ++ later)) ≤
    accepted.quantity
  /-- What it does not trade is closed in the call, by one event behind its trades. -/
  remainder : tradedQuantity accepted.orderId (untilAccepted accepted.orderId (call ++ later)) <
      accepted.quantity →
    ∃ before e after, call = before ++ e :: after ∧
      closingsOf accepted.orderId (untilAccepted accepted.orderId (call ++ later)) = [e] ∧
      tradesOf accepted.orderId (untilAccepted accepted.orderId (call ++ later)) =
        tradesOf accepted.orderId before ∧
      e.quantity = accepted.quantity -
        tradedQuantity accepted.orderId (untilAccepted accepted.orderId (call ++ later))
  /-- If it trades everything, nothing closes it. -/
  filled : tradedQuantity accepted.orderId (untilAccepted accepted.orderId (call ++ later)) =
      accepted.quantity →
    closingsOf accepted.orderId (untilAccepted accepted.orderId (call ++ later)) = []

namespace Market

variable {P : OrderId → Prop} {id : OrderId} {b es : List EngineEvent}

/-! ## The events of a block -/

/-- An event that neither accepts an id, nor trades for it, nor closes it. -/
def Apart (id : OrderId) (e : EngineEvent) : Prop :=
  e.orderId = id → e.kind ≠ .accepted ∧ e.kind ≠ .trade ∧ e.kind ≠ .rested ∧ e.kind ≠ .expired

/-- An event of another kind is apart from every id. -/
theorem apart_of_kind {e : EngineEvent} (h : e.kind ≠ .accepted) (ht : e.kind ≠ .trade)
    (hr : e.kind ≠ .rested) (he : e.kind ≠ .expired) : Apart id e := fun _ => ⟨h, ht, hr, he⟩

/-- Events apart from an id come before its next acceptance. -/
theorem untilAccepted_append (h : ∀ e ∈ b, Apart id e) :
    untilAccepted id (b ++ es) = b ++ untilAccepted id es :=
  List.takeWhile_append_of_pos fun e he => by
    by_cases hid : e.orderId = id
    · simp [(h e he hid).1]
    · simp [hid]

/-- Events apart from an id neither trade for it nor close it. -/
theorem filter_apart (h : ∀ e ∈ b, Apart id e) : tradesOf id b = [] ∧ closingsOf id b = [] := by
  constructor <;> refine List.filter_eq_nil_iff.mpr fun e he => ?_
  · by_cases hid : e.orderId = id
    · simp [(h e he hid).2.1]
    · simp [hid]
  · by_cases hid : e.orderId = id
    · simp [(h e he hid).2.2.1, (h e he hid).2.2.2]
    · simp [hid]

/-- What leads up to a walk is apart from every id. -/
theorem Leads.apart {lead : List EngineEvent} {id' : OrderId} (h : Leads id' lead) :
    ∀ e ∈ lead, Apart id e := by
  rcases h with rfl | ⟨e, rfl, hk | hk, -⟩
  · simp
  · simp [Apart, hk]
  · simp [Apart, hk]

/-- The trade events of an episode. -/
theorem Opens.trades {quantity remaining : ℤ} {trades : List Trade} {accepted : EngineEvent}
    {ts : List EngineEvent} (h : Opens id quantity trades remaining accepted ts) :
    (∀ e ∈ ts, e.kind = .trade ∧ e.orderId = id) ∧
      (ts.map EngineEvent.quantity).sum = quantity - remaining := by
  refine ⟨fun e he => ?_, ?_⟩
  · have hmem : e.numbered 0 ∈ trades.map tradeEvent := by
      rw [← h.prints]
      exact List.mem_map_of_mem he
    obtain ⟨t, ht, hte⟩ := List.mem_map.mp hmem
    have hk := congrArg EngineEvent.kind hte
    have hid := congrArg EngineEvent.orderId hte
    exact ⟨hk.symm, hid.symm.trans (h.aggressor t ht).1⟩
  · have hq := congrArg (List.map EngineEvent.quantity) h.prints
    rw [List.map_map, List.map_map] at hq
    have hq : ts.map EngineEvent.quantity = trades.map Trade.quantity := hq
    have := h.sum
    rw [hq]
    omega

/-- What closes an order rests or expires its id. -/
theorem Closes.kinds {remaining unaccepted : ℤ} {closing : List EngineEvent}
    (h : Closes id remaining unaccepted closing) :
    ∀ e ∈ closing, (e.kind = .rested ∨ e.kind = .expired) ∧ e.orderId = id := by
  cases h with
  | filled => simp
  | rested kind orderId _ _ => simp [kind, orderId]
  | expired kind orderId _ _ => simp [kind, orderId]

/-- A block of other ids. -/
theorem Block.apart (h : Block P b) (hid : ¬ P id) : ∀ e ∈ b, Apart id e := by
  cases h with
  | @note e kind =>
    intro e' he'
    rw [List.mem_singleton.mp he']
    refine apart_of_kind ?_ ?_ ?_ ?_ <;> rintro hk <;> simp [hk, EventKind.plain] at kind
  | @episode id' _ _ _ lead _ prop leads episode =>
    have hne : id' ≠ id := fun h => hid (h ▸ prop)
    cases episode with
    | mk opens halts_kind closes =>
      intro e he
      simp only [List.mem_append, List.mem_cons] at he
      rcases he with he | rfl | (he | he) | he
      · exact leads.apart e he
      · exact fun h => absurd (opens.orderId.symm.trans h) hne
      · exact fun h => absurd ((opens.trades.1 e he).2.symm.trans h) hne
      · exact apart_of_kind (by simp [halts_kind e he]) (by simp [halts_kind e he])
          (by simp [halts_kind e he]) (by simp [halts_kind e he])
      · exact fun h => absurd ((closes.kinds e he).2.symm.trans h) hne

/-- A stream of other ids. -/
theorem Stream.apart (h : Stream P es) (hid : ¬ P id) : ∀ e ∈ es, Apart id e := by
  obtain ⟨blocks, rfl, hb⟩ := h
  intro e he
  obtain ⟨b, hmem, he⟩ := List.mem_flatten.mp he
  exact (hb b hmem).apart hid e he

/-- Up to the next acceptance of an id, a stream holds nothing of the id. -/
theorem Stream.silent (h : Stream P es) (id : OrderId) :
    tradesOf id (untilAccepted id es) = [] ∧ closingsOf id (untilAccepted id es) = [] := by
  obtain ⟨blocks, rfl, hb⟩ := h
  induction blocks with
  | nil => exact ⟨rfl, rfl⟩
  | cons b blocks ih =>
    obtain ⟨ht, hc⟩ := ih fun b' hb' => hb b' (List.mem_cons_of_mem _ hb')
    have hapart : (∀ e ∈ b, Apart id e) →
        tradesOf id (untilAccepted id (b :: blocks).flatten) = [] ∧
          closingsOf id (untilAccepted id (b :: blocks).flatten) = [] := fun h => by
      obtain ⟨ht', hc'⟩ := filter_apart h
      rw [List.flatten_cons, untilAccepted_append h, tradesOf, closingsOf, List.filter_append,
        List.filter_append]
      exact ⟨List.append_eq_nil_iff.mpr ⟨ht', ht⟩, List.append_eq_nil_iff.mpr ⟨hc', hc⟩⟩
    cases hb b List.mem_cons_self with
    | note kind => exact hapart ((Block.note (P := fun _ => False) kind).apart not_false)
    | @episode id' _ _ _ lead es prop leads episode =>
      by_cases hne : id' = id
      · subst hne
        cases episode with
        | mk opens halts_kind closes =>
          -- The next acceptance of the id ends the segment here.
          rw [List.flatten_cons, List.append_assoc, untilAccepted_append leads.apart, List.cons_append,
            untilAccepted, List.takeWhile_cons_of_neg (by simp [opens.kind, opens.orderId]),
            List.append_nil]
          exact filter_apart leads.apart
      · exact hapart ((Block.episode (P := fun i => i ≠ id) hne leads episode).apart (by simp))

/-! ## Outcomes -/

/-- A list is cut at the only element with a property in one way. -/
theorem append_cons_inj {α : Type} {p : α → Prop} {l l' r r' : List α} {a a' : α}
    (h : l ++ a :: r = l' ++ a' :: r') (ha : p a) (hl : ∀ x ∈ l', ¬ p x) (hr : ∀ x ∈ r', ¬ p x) :
    l = l' ∧ a = a' ∧ r = r' := by
  rcases List.append_eq_append_iff.mp h with ⟨c, hc, har⟩ | ⟨c, hc, har⟩
  · cases c with
    | nil =>
      obtain ⟨rfl, rfl⟩ := List.cons.inj har
      exact ⟨by simp [hc], rfl, rfl⟩
    | cons x c =>
      obtain ⟨rfl, -⟩ := List.cons.inj har
      exact absurd ha (hl a (by rw [hc]; simp))
  · cases c with
    | nil =>
      obtain ⟨rfl, rfl⟩ := List.cons.inj har
      exact ⟨by simp [hc], rfl, rfl⟩
    | cons x c =>
      obtain ⟨-, rfl⟩ := List.cons.inj har
      exact absurd ha (hr a (by simp))

/-- An acceptance in a block begins the block's episode. -/
theorem Block.accepted {pre post : List EngineEvent} {a : EngineEvent}
    (h : Block P (pre ++ a :: post)) (ha : a.kind = .accepted) :
    ∃ trades unaccepted, Episode a.orderId a.quantity trades unaccepted (a :: post) := by
  generalize hb : pre ++ a :: post = b at h
  cases h with
  | @note e kind =>
    have hmem : a ∈ [e] := hb ▸ List.mem_append_right pre List.mem_cons_self
    rw [← List.mem_singleton.mp hmem, ha] at kind
    cases kind
  | @episode id quantity trades unaccepted lead es prop leads episode =>
    cases episode with
    | @mk accepted ts halts closing remaining opens halts_kind closes =>
      -- A block has one acceptance, that of its episode.
      have hlead : ∀ e ∈ lead, ¬ e.kind = .accepted := fun e he =>
        (leads.apart e he rfl).1
      have htail : ∀ e ∈ ts ++ halts ++ closing, ¬ e.kind = .accepted := by
        intro e he
        simp only [List.mem_append] at he
        rcases he with (he | he) | he
        · simp [(opens.trades.1 e he).1]
        · simp [halts_kind e he]
        · rcases (closes.kinds e he).1 with hk | hk <;> simp [hk]
      obtain ⟨-, rfl, rfl⟩ := append_cons_inj (p := fun e => e.kind = .accepted) hb ha hlead htail
      refine ⟨trades, unaccepted, ?_⟩
      rw [opens.orderId, opens.quantity_eq]
      exact .mk opens halts_kind closes

/-- An acceptance in a stream begins an episode. -/
theorem Stream.accepted {pre post : List EngineEvent} {a : EngineEvent}
    (h : Stream P (pre ++ a :: post)) (ha : a.kind = .accepted) :
    ∃ trades unaccepted ep rest, post = ep ++ rest ∧ Stream P rest ∧
      Episode a.orderId a.quantity trades unaccepted (a :: ep) := by
  obtain ⟨blocks, hflat, hb⟩ := h
  rcases List.flatten_eq_append_iff.mp hflat.symm with
    ⟨bs, bs', rfl, -, hpost⟩ | ⟨bs, l, c, cs, bs', rfl, -, hpost⟩
  · obtain ⟨nils, ep, bs', rfl, -, rfl⟩ := List.flatten_eq_cons_iff.mp hpost.symm
    have hblock : Block P ([] ++ a :: ep) := hb (a :: ep) (by simp)
    obtain ⟨trades, unaccepted, hep⟩ := hblock.accepted ha
    exact ⟨trades, unaccepted, ep, _, rfl, ⟨bs', rfl, fun b hmem => hb b (by simp [hmem])⟩, hep⟩
  · obtain ⟨rfl, rfl⟩ := List.cons.inj hpost
    obtain ⟨trades, unaccepted, hep⟩ := Block.accepted (hb (l ++ a :: cs) (by simp)) ha
    exact ⟨trades, unaccepted, cs, _, rfl, ⟨bs', rfl, fun b hmem => hb b (by simp [hmem])⟩, hep⟩

/-- The events of an episode after its acceptance, by kind. -/
theorem Episode.parts {quantity unaccepted : ℤ} {trades : List Trade} {a : EngineEvent}
    {ep : List EngineEvent} (h : Episode id quantity trades unaccepted (a :: ep)) :
    ∃ ts halts closing remaining, ep = ts ++ halts ++ closing ∧ Opens id quantity trades remaining a ts ∧
      Closes id remaining unaccepted closing ∧ tradesOf id ep = ts ∧ closingsOf id ep = closing ∧
      tradesOf id (ts ++ halts) = ts ∧ ∀ e ∈ ep, e.kind ≠ .accepted := by
  cases h with
  | @mk _ ts halts closing remaining opens halts_kind closes =>
    have hts := opens.trades.1
    have hcl := closes.kinds
    -- The three parts of an episode have events of different kinds.
    have h1 : tradesOf id ts = ts := List.filter_eq_self.mpr fun e he => by simp [hts e he]
    have h2 : tradesOf id halts = [] :=
      List.filter_eq_nil_iff.mpr fun e he => by simp [halts_kind e he]
    have h3 : tradesOf id closing = [] := List.filter_eq_nil_iff.mpr fun e he => by
      rcases (hcl e he).1 with hk | hk <;> simp [hk]
    have h4 : closingsOf id ts = [] := List.filter_eq_nil_iff.mpr fun e he => by simp [hts e he]
    have h5 : closingsOf id halts = [] :=
      List.filter_eq_nil_iff.mpr fun e he => by simp [halts_kind e he]
    have h6 : closingsOf id closing = closing := List.filter_eq_self.mpr fun e he => by
      simpa [(hcl e he).2] using (hcl e he).1
    refine ⟨ts, halts, closing, remaining, rfl, opens, closes, ?_, ?_, ?_, fun e he => ?_⟩
    · rw [tradesOf, List.filter_append, List.filter_append]
      exact (congrArg₂ _ (congrArg₂ _ h1 h2) h3).trans (by simp)
    · rw [closingsOf, List.filter_append, List.filter_append]
      exact (congrArg₂ _ (congrArg₂ _ h4 h5) h6).trans (by simp)
    · rw [tradesOf, List.filter_append]
      exact (congrArg₂ _ h1 h2).trans (by simp)
    · simp only [List.mem_append] at he
      rcases he with (he | he) | he
      · simp [(hts e he).1]
      · simp [halts_kind e he]
      · rcases (hcl e he).1 with hk | hk <;> simp [hk]

/-- **Outcomes.** An acceptance in a stream has its outcome, whatever stream comes later. -/
theorem Stream.outcome {pre post later : List EngineEvent} {a : EngineEvent}
    (h : Stream P (pre ++ a :: post)) (hlater : Stream P later) (ha : a.kind = .accepted) :
    Outcome a post later := by
  obtain ⟨trades, unaccepted, ep, rest, rfl, hrest, hep⟩ := h.accepted ha
  obtain ⟨ts, halts, closing, remaining, hparts, hopens, hcloses, htrades, hclosings, hbefore, hacc⟩ :=
    hep.parts
  obtain ⟨hsilent, hsilent'⟩ := (hrest.append hlater).silent a.orderId
  -- The segment up to the id's next acceptance begins with the whole episode.
  have hsegment : untilAccepted a.orderId (ep ++ rest ++ later) =
      ep ++ untilAccepted a.orderId (rest ++ later) := by
    rw [List.append_assoc]
    exact List.takeWhile_append_of_pos fun e he => by simp [hacc e he]
  have ht : tradesOf a.orderId (untilAccepted a.orderId (ep ++ rest ++ later)) = ts := by
    rw [hsegment, tradesOf, List.filter_append]
    exact (congrArg₂ _ htrades hsilent).trans (List.append_nil _)
  have hc : closingsOf a.orderId (untilAccepted a.orderId (ep ++ rest ++ later)) = closing := by
    rw [hsegment, closingsOf, List.filter_append]
    exact (congrArg₂ _ hclosings hsilent').trans (List.append_nil _)
  have hsum : tradedQuantity a.orderId (untilAccepted a.orderId (ep ++ rest ++ later)) =
      a.quantity - remaining := by
    rw [tradedQuantity, ht]
    exact hopens.trades.2
  refine ⟨?_, fun hlt => ?_, fun heq => ?_⟩
  · rw [hsum]
    cases hcloses <;> omega
  · rw [hsum] at hlt
    rw [hsum, hc, ht]
    -- Something is left, so one event closes the episode.
    have hone : ∃ e, closing = [e] ∧ e.quantity = remaining := by
      cases hcloses with
      | filled => omega
      | rested _ _ quantity _ => exact ⟨_, rfl, quantity⟩
      | expired _ _ quantity _ => exact ⟨_, rfl, quantity⟩
    obtain ⟨e, rfl, hq⟩ := hone
    exact ⟨ts ++ halts, e, rest, by rw [hparts]; simp, rfl, hbefore.symm, by omega⟩
  · rw [hsum] at heq
    rw [hc]
    cases hcloses with
    | filled => rfl
    | rested => omega
    | expired => omega

/-! ## Answers -/

/-- The answer to an `add_order`: one refusal, or one acceptance with the order's own trades and expired
quantity. -/
def Answer (order : Order) (result : OrderResult) (emitted : List EngineEvent) : Prop :=
  ((∃ before rejected, emitted = before ++ [rejected] ∧ (∀ e ∈ before, e.kind = .resumed) ∧
      rejected.kind = .rejected ∧ rejected.orderId = order.id ∧ rejected.quantity = order.quantity) ∧
    result.trades = [] ∧ result.unacceptedQuantity = order.quantity) ∨
  ((∃ before accepted after, emitted = before ++ accepted :: after ∧ (∀ e ∈ before, e.kind = .resumed) ∧
      accepted.kind = .accepted ∧ accepted.orderId = order.id ∧ accepted.quantity = order.quantity) ∧
    (tradesOf order.id emitted).map (fun e => e.numbered 0) = result.trades.map tradeEvent ∧
    (∀ t ∈ result.trades, t.aggressorId = order.id) ∧
    ((∃ e, expiriesOf order.id emitted = [e] ∧ result.unacceptedQuantity = e.quantity) ∨
      expiriesOf order.id emitted = [] ∧ result.unacceptedQuantity = 0))

variable {m : Market} {order : Order} {now : ℤ}

/-- A refused order leaves one event, behind that of a resumption. -/
theorem addOrder_refused (hadm : m.admitted order now = none) :
    ∃ before rejected, (m.addOrder order now).1.events = m.events ++ (before ++ [rejected]) ∧
      (∀ e ∈ before, e.kind = .resumed) ∧ rejected.kind = .rejected ∧ rejected.orderId = order.id ∧
      rejected.quantity = order.quantity ∧ (m.addOrder order now).2.trades = [] ∧
      (m.addOrder order now).2.unacceptedQuantity = order.quantity := by
  obtain ⟨why, -, heq⟩ := enterWith_of_refused triggerStops hadm true
  obtain ⟨before, hbefore, hkind⟩ := (resumes_validateNewOrder m order now).1.events
  obtain ⟨rejected, hevents, hrejected⟩ := events_emitRejected (m.validateNewOrder order now).1
    order.id order.ownerId order.side order.price order.quantity none why now
  rw [addOrder, enter, heq]
  refine ⟨before, rejected, ?_, hkind, hrejected.1, hrejected.2.1, hrejected.2.2, rfl, rfl⟩
  refine hevents.trans ?_
  rw [show (m.validateNewOrder order now).1.events = _ from hbefore, List.append_assoc]

/-- An admitted order leaves its episode, and blocks of other orders. -/
theorem addOrder_admitted {m' : Market} (hwf : m.Wf []) (hfifo : m.fifo = [])
    (hadm : m.admitted order now = some m') :
    ∃ before ep rest, (m.addOrder order now).1.events = m.events ++ (before ++ (ep ++ rest)) ∧
      (∀ e ∈ before, e.kind = .resumed) ∧
      Episode order.id order.quantity (m.addOrder order now).2.trades
        (m.addOrder order now).2.unacceptedQuantity ep ∧
      Stream (fun i => i ≠ order.id) rest := by
  obtain ⟨m₀, hresumes, hid, hhalt, hvalid, rfl⟩ := admitted_eq_some hadm
  have hfifo₀ : m₀.fifo = [] := hresumes.fifo.trans hfifo
  obtain ⟨before, hbefore, hkind⟩ := hresumes.events
  have hwf₀ := hwf.resumes hresumes
  have hstart := hwf₀.act hfifo₀ (Acts.submit hid hhalt hvalid : Acts _ (.addOrder order now) _)
  obtain ⟨ep, hep, hepisode⟩ := walk_episode hstart (walkLog_accept m₀ order now) now
  set r := (m₀.emit (order.event .accepted now)).walk order now with hr
  have hresult : (m.addOrder order now).2 = r.2 := by
    rw [addOrder, enter, enterWith_of_admitted _ hadm, afterWalk]
    cases r.2.trades.getLast? <;> rfl
  -- The stops that the walk wakes are not the order.
  have hstops : ∀ stop ∈ r.1.fifo ++ r.1.stops, stop.id ≠ order.id := by
    obtain ⟨h1, h2⟩ := walk_stops (m₀.emit (order.event .accepted now)) order now
    rw [h1, h2]
    intro stop hs hstop
    refine (notMem_of_idInUse hfifo₀ hid).1 ?_
    rw [← hstop, liveIds]
    exact List.mem_append_right _ (List.mem_map_of_mem hs)
  have hsettled : Logs r.1.events (fun i => i ≠ order.id) (settledStage r) :=
    ⟨(walk_steps now hstart).1.steps.wf hstart, hstops, [], (List.append_nil _).symm, stream_nil⟩
  obtain ⟨rest, hrest, hstream⟩ := (afterWalk_carried (carried_logs now _ _) drainAll drainAllEntries
    hsettled (carries_logs now _ _ _) fun m hm => drainAll_carried (carried_logs now _ _) hm).1.logged
  refine ⟨before, ep, rest, ?_, hkind, hresult ▸ hepisode, hstream⟩
  rw [addOrder, enter, enterWith_of_admitted _ hadm, triggerStops_eq]
  refine hrest.trans ?_
  rw [show r.1.events = _ from hep, hbefore]
  simp only [List.append_assoc]

/-- **Answers.** The answer to an `add_order` agrees with the call's events. -/
theorem addOrder_answer (hwf : m.Wf []) (hfifo : m.fifo = []) (order : Order) (now : ℤ) :
    ∃ emitted, (m.addOrder order now).1.events = m.events ++ emitted ∧
      Answer order (m.addOrder order now).2 emitted := by
  cases hadm : m.admitted order now with
  | none =>
    obtain ⟨before, rejected, hevents, hkind, hk, hid, hq, htrades, hun⟩ :=
      addOrder_refused hadm
    exact ⟨_, hevents, Or.inl ⟨⟨before, rejected, rfl, hkind, hk, hid, hq⟩, htrades, hun⟩⟩
  | some m' =>
    obtain ⟨before, ep, rest, hevents, hkind, hep, hrest⟩ := addOrder_admitted hwf hfifo hadm
    refine ⟨_, hevents, Or.inr ?_⟩
    -- What is emitted before the acceptance is not about the order.
    have hout : ∀ e ∈ before, Apart order.id e := fun e he => by
      refine apart_of_kind ?_ ?_ ?_ ?_ <;> simp [hkind e he]
    obtain ⟨ht, hc⟩ := filter_apart hout
    obtain ⟨ht', hc'⟩ := filter_apart (hrest.apart (not_not.mpr rfl))
    obtain ⟨a, ep, rfl⟩ : ∃ a ep', ep = a :: ep' := by
      cases hep
      exact ⟨_, _, rfl⟩
    obtain ⟨ts, halts, closing, remaining, -, hopens, hcloses, htrades, hclosings, -, -⟩ := hep.parts
    have hts : tradesOf order.id (before ++ (a :: ep ++ rest)) = ts := by
      have ha : tradesOf order.id (a :: ep) = ts := by
        rw [tradesOf, List.filter_cons_of_neg (by simp [hopens.kind])]
        exact htrades
      rw [tradesOf, List.filter_append, List.filter_append]
      exact (congrArg₂ _ ht (congrArg₂ _ ha ht')).trans (by simp)
    have hclosing : closingsOf order.id (before ++ (a :: ep ++ rest)) = closing := by
      have ha : closingsOf order.id (a :: ep) = closing := by
        rw [closingsOf, List.filter_cons_of_neg (by simp [hopens.kind])]
        exact hclosings
      rw [closingsOf, List.filter_append, List.filter_append]
      exact (congrArg₂ _ hc (congrArg₂ _ ha hc')).trans (by simp)
    refine ⟨?_, ?_, fun t ht => (hopens.aggressor t ht).1, ?_⟩
    · exact ⟨before, a, ep ++ rest, rfl, hkind, hopens.kind, hopens.orderId, hopens.quantity_eq⟩
    · rw [hts]
      exact hopens.prints
    · rw [expiriesOf, hclosing]
      generalize (m.addOrder order now).2.unacceptedQuantity = unaccepted at hcloses
      cases hcloses with
      | filled => exact Or.inr ⟨rfl, rfl⟩
      | rested kind _ _ _ => exact Or.inr ⟨by simp [kind], rfl⟩
      | expired kind _ quantity _ => exact Or.inl ⟨_, by simp [kind], quantity.symm⟩

end Market

namespace Book

/-- **Every accepted order has one outcome**, and every `add_order` is answered with its own. -/
theorem accepted_outcome (cfg : Config) (calls later : List Call) (c : Call)
    (hfits : ((Book.make cfg).run (calls ++ c :: later)).Fits) :
    let b := (Book.make cfg).run calls
    (∀ before accepted after, b.emitted c = before ++ accepted :: after → accepted.kind = .accepted →
      Outcome accepted after (((b.call c).run later).events.drop (b.call c).events.length)) ∧
    ∀ order now, c = .addOrder order now →
      Market.Answer order (b.addOrder order now).2 (b.emitted c) := by
  intro b
  rw [run_append] at hfits
  have h' := (run_refines cfg calls ((grows_run _ _).fits hfits)).run (c :: later) hfits
  have hcall := (grows_run _ later).fits hfits
  have h := run_refines cfg calls ((grows_call _ c).fits hcall)
  have hc := h.call c hcall
  have hreach := reachable_run cfg calls
  set m := (Market.make cfg).run calls
  -- What the book emits is what its market appends to the stream.
  have hemitted : b.emitted c = (m.call c).events.drop m.events.length := by
    rw [emitted, h.represents.session, show (b.call c).toSession = _ from hc.represents.session]
  refine ⟨fun before accepted after hsplit hk => ?_, ?_⟩
  · obtain ⟨es, hes, hstream⟩ := Market.call_stream (P := fun _ => True) c hreach.wf h.fifo trivial
      fun _ _ => trivial
    -- An order that rests may end in a later call, so the events of the rest of the run follow.
    obtain ⟨es', hes', hstream'⟩ :=
      Market.run_stream later (hreach.call h.fifo c).wf hc.fifo
    rw [hemitted, hes, List.drop_left] at hsplit
    rw [show ((b.call c).run later).toSession = _ from h'.represents.session,
      show (b.call c).toSession = _ from hc.represents.session]
    rw [show (m.run (c :: later)).events = _ from hes', List.drop_left]
    rw [hsplit] at hstream
    exact hstream.outcome hstream' hk
  · rintro order now rfl
    obtain ⟨es, hes, hanswer⟩ := Market.addOrder_answer hreach.wf h.fifo order now
    rw [hemitted, show (m.call (.addOrder order now)).events = _ from hes, List.drop_left]
    rw [(addOrder_represents h.represents h.drainingStops order now).1]
    exact hanswer

/-- A sell order that trades, rests with what is left, and is cancelled. -/
theorem accepted_outcome_of_rest :
    let b := (Book.make { poolCapacity := 4 }).run
      [.addOrder { id := 1, ownerId := 1, side := .buy, type := .limit, price := some 100,
                   quantity := 2 } 0]
    let c := Call.addOrder
      { id := 2, ownerId := 2, side := .sell, type := .limit, price := some 100, quantity := 5 } 1
    let later := [Call.cancelOrder 2 2 3]
    ∀ before accepted after, b.emitted c = before ++ accepted :: after → accepted.kind = .accepted →
      Outcome accepted after (((b.call c).run later).events.drop (b.call c).events.length) :=
  (accepted_outcome { poolCapacity := 4 } _ [.cancelOrder 2 2 3] _ (fits_run rfl _)).1

end Book

end OrderBookEngine
