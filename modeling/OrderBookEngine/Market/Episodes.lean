import OrderBookEngine.Market.Events

/-!
# Episodes of the event stream

The event stream of a call is a sequence of blocks. A block is one event that stands alone, or the
episode of one walk: the order's `Accepted`, its trades, at most a halt, and the `Rested` or `Expired`
event of the quantity that is left, if any. The `StopTriggered` or `Replaced` event of an order that
enters again comes right before its episode. `call_stream` says so of every call.
-/

namespace OrderBookEngine

/-- The events that stand alone in a stream. -/
def EventKind.plain : EventKind → Bool
  | .rejected | .cancelled | .modified | .resumed | .stopAccepted | .stopCancelled | .stopModified =>
    true
  | _ => false

namespace Market

/-- What closes the episode of an order with a quantity left, and how much of it is unaccepted. -/
inductive Closes (id : OrderId) : ℤ → ℤ → List EngineEvent → Prop where
  /-- Nothing is left of the order. -/
  | filled : Closes id 0 0 []
  /-- What is left rests. -/
  | rested {e : EngineEvent} {r : ℤ} (kind : e.kind = .rested) (orderId : e.orderId = id)
    (quantity : e.quantity = r) (pos : 0 < r) : Closes id r 0 [e]
  /-- What is left expires. -/
  | expired {e : EngineEvent} {r : ℤ} (kind : e.kind = .expired) (orderId : e.orderId = id)
    (quantity : e.quantity = r) (pos : 0 < r) : Closes id r r [e]

/-- An episode up to its closing, with what is left of the order. -/
structure Opens (id : OrderId) (quantity : ℤ) (trades : List Trade) (remaining : ℤ)
    (accepted : EngineEvent) (ts : List EngineEvent) : Prop where
  /-- It is an acceptance. -/
  kind : accepted.kind = .accepted
  /-- It is that of the order. -/
  orderId : accepted.orderId = id
  /-- It has the quantity that the order starts with. -/
  quantity_eq : accepted.quantity = quantity
  /-- The trade events are those of the trades. -/
  prints : ts.map (fun e => e.numbered 0) = trades.map tradeEvent
  /-- The order is the aggressor in each trade. -/
  aggressor : ∀ t ∈ trades, t.aggressorId = id ∧ 0 < t.quantity
  /-- What has traded and what is left make up the quantity. -/
  sum : (trades.map Trade.quantity).sum + remaining = quantity

/-- The episode of a walk. -/
inductive Episode (id : OrderId) (quantity : ℤ) (trades : List Trade) (unaccepted : ℤ) :
    List EngineEvent → Prop where
  /-- An acceptance, the trades, a halt, and the end. -/
  | mk {accepted : EngineEvent} {ts halts closing : List EngineEvent} {remaining : ℤ}
    (opens : Opens id quantity trades remaining accepted ts) (halts_kind : ∀ e ∈ halts, e.kind = .halted)
    (closes : Closes id remaining unaccepted closing) :
    Episode id quantity trades unaccepted (accepted :: (ts ++ halts ++ closing))

/-- What comes right before an episode. -/
def Leads (id : OrderId) (lead : List EngineEvent) : Prop :=
  lead = [] ∨ ∃ e, lead = [e] ∧ (e.kind = .stopTriggered ∨ e.kind = .replaced) ∧ e.orderId = id

/-- A block of the stream, whose order has a property `P`. -/
inductive Block (P : OrderId → Prop) : List EngineEvent → Prop where
  /-- An event that belongs to no episode. -/
  | note {e : EngineEvent} (kind : e.kind.plain = true) : Block P [e]
  /-- The events of a walk, behind what it begins with. -/
  | episode {id : OrderId} {quantity : ℤ} {trades : List Trade} {unaccepted : ℤ}
    {lead es : List EngineEvent} (prop : P id) (leads : Leads id lead)
    (episode : Episode id quantity trades unaccepted es) : Block P (lead ++ es)

/-- A stream of blocks. -/
def Stream (P : OrderId → Prop) (es : List EngineEvent) : Prop :=
  ∃ blocks : List (List EngineEvent), es = blocks.flatten ∧ ∀ b ∈ blocks, Block P b

section Stream

variable {P : OrderId → Prop} {es es' : List EngineEvent}

/-- Nothing is a stream. -/
theorem stream_nil : Stream P [] := ⟨[], rfl, by simp⟩

/-- Two streams in a row. -/
theorem Stream.append (h : Stream P es) (h' : Stream P es') : Stream P (es ++ es') := by
  obtain ⟨bs, rfl, hbs⟩ := h
  obtain ⟨bs', rfl, hbs'⟩ := h'
  exact ⟨bs ++ bs', List.flatten_append.symm, fun b hb =>
    (List.mem_append.mp hb).elim (hbs b) (hbs' b)⟩

/-- A block is a stream. -/
theorem Block.stream {b : List EngineEvent} (h : Block P b) : Stream P b :=
  ⟨[b], by simp, fun b' hb' => List.mem_singleton.mp hb' ▸ h⟩

/-- A stream goes on with an event that belongs to no episode. -/
theorem Stream.note (h : Stream P es) {e : EngineEvent} (hk : e.kind.plain = true) :
    Stream P (es ++ [e]) :=
  h.append (Block.note hk).stream

end Stream

/-! ## One walk -/

variable {m : Market} {order : Order} {now : ℤ} {s s' : Stage} {base : List EngineEvent}

/-- The episode of a walk as far as it has come. -/
def WalkLog (base : List EngineEvent) (order : Order) : Stage → Prop
  | .walking w =>
    ∃ accepted ts, w.market.events = base ++ accepted :: ts ∧ w.incoming.id = order.id ∧
      Opens order.id order.quantity w.trades w.incoming.quantity accepted ts
  | .stopped w =>
    ∃ accepted ts halts, w.market.events = base ++ accepted :: (ts ++ halts) ∧
      w.incoming.id = order.id ∧ (∀ e ∈ halts, e.kind = .halted) ∧
      Opens order.id order.quantity w.trades w.incoming.quantity accepted ts
  | .settled m trades unaccepted =>
    ∃ es, m.events = base ++ es ∧ Episode order.id order.quantity trades unaccepted es
  | .idle _ | .entering _ _ => False

/-- A trade goes on with an episode. -/
theorem Opens.trade {id : OrderId} {quantity remaining : ℤ} {trades : List Trade}
    {accepted : EngineEvent} {ts : List EngineEvent}
    (h : Opens id quantity trades remaining accepted ts) {t : Trade} {n : ℕ}
    (hid : t.aggressorId = id) (hpos : 0 < t.quantity) :
    Opens id quantity (trades ++ [t]) (remaining - t.quantity) accepted
      (ts ++ [(tradeEvent t).numbered n]) := by
  refine ⟨h.kind, h.orderId, h.quantity_eq, ?_, fun t' ht' => ?_, ?_⟩
  · rw [List.map_append, List.map_append, h.prints]
    rfl
  · rcases List.mem_append.mp ht' with ht' | ht'
    · exact h.aggressor t' ht'
    · rw [List.mem_singleton.mp ht']
      exact ⟨hid, hpos⟩
  · have := h.sum
    rw [List.map_append, List.sum_append, List.map_singleton, List.sum_singleton]
    omega

/-- A walk that is not cut short closes its episode. -/
theorem WalkLog.close {w : Walk} {m : Market} {unaccepted : ℤ} {closing : List EngineEvent}
    (h : WalkLog base order (.walking w)) (hevents : m.events = w.market.events ++ closing)
    (hcloses : Closes w.incoming.id w.incoming.quantity unaccepted closing) :
    WalkLog base order (.settled m w.trades unaccepted) := by
  obtain ⟨accepted, ts, hbase, hid, hopens⟩ := h
  rw [hid] at hcloses
  have hhalts : ∀ e ∈ ([] : List EngineEvent), e.kind = .halted := by simp
  refine ⟨_, ?_, .mk hopens hhalts hcloses⟩
  rw [hevents, hbase]
  simp

/-- A walk that is cut short closes its episode. -/
theorem WalkLog.closeStopped {w : Walk} {m : Market} {unaccepted : ℤ} {closing : List EngineEvent}
    (h : WalkLog base order (.stopped w)) (hevents : m.events = w.market.events ++ closing)
    (hcloses : Closes w.incoming.id w.incoming.quantity unaccepted closing) :
    WalkLog base order (.settled m w.trades unaccepted) := by
  obtain ⟨accepted, ts, halts, hbase, hid, hhalts, hopens⟩ := h
  rw [hid] at hcloses
  refine ⟨_, ?_, .mk hopens hhalts hcloses⟩
  rw [hevents, hbase]
  simp

/-- What a step of a walk adds to its episode. -/
theorem WalkLog.step (hwalks : s.Walks) (hstep : Step now s s') (hwf : s.Wf)
    (h : WalkLog base order s) : WalkLog base order s' := by
  cases hstep with
  | reenter => cases hwalks
  | @trade w x xs outside breach meets band =>
    obtain ⟨accepted, ts, hbase, hid, hopens⟩ := h
    -- Both quantities are positive, and so is that of the trade.
    have hx := (hwf.1.side w.incoming.side.opposite).pos x (by
      rw [meets.queue]
      exact List.mem_cons_self)
    refine ⟨accepted, _, ?_, hid,
      hopens.trade (t := w.nextTrade now x) (n := w.market.nextSeq) hid ?_⟩
    · rw [w.events_trade, hbase, List.append_assoc]
      rfl
    · exact lt_min meets.quantity hx.1
  | @halt w x xs meets band =>
    obtain ⟨accepted, ts, hbase, hid, hopens⟩ := h
    obtain ⟨e, hk, hevents⟩ := w.events_halt x now
    refine ⟨accepted, ts, [e], ?_, hid, fun e' he' => List.mem_singleton.mp he' ▸ hk, hopens⟩
    rw [hevents, hbase, List.append_assoc]
    rfl
  | limit meets band =>
    obtain ⟨accepted, ts, hbase, hid, hopens⟩ := h
    exact ⟨accepted, ts, [], by rw [hbase]; simp, hid, by simp, hopens⟩
  | filled quantity =>
    refine h.close (List.append_nil _).symm ?_
    rw [quantity]
    exact .filled
  | rest quantity type runOut room =>
    exact h.close (events_restOrder room) (.rested rfl rfl rfl quantity)
  | expire quantity =>
    exact h.close (events_emit _ _) (.expired rfl rfl rfl quantity)
  | restAtBandEdge type valid room =>
    exact h.closeStopped (events_restOrder room)
      (.rested rfl rfl rfl hwf.2.2.1)
  | expireStopped =>
    exact h.closeStopped (events_emit _ _)
      (.expired rfl rfl rfl hwf.2.2.1)
  | finish => cases hwalks
  | absorb last_eq => cases hwalks
  | fire fifo halted => cases hwalks
  | sendBack halted => cases hwalks

/-- A walk that has just begun. -/
theorem walkLog_accept (m : Market) (order : Order) (now : ℤ) :
    WalkLog m.events order (.walking (m.accept order now)) :=
  ⟨_, [], rfl, rfl, rfl, rfl, rfl, rfl, by simp [accept], by simp [accept]⟩

/-- **The episode of a walk.** -/
theorem walk_episode (hwf : Stage.Wf (.walking { market := m, incoming := order }))
    (h : WalkLog base order (.walking { market := m, incoming := order })) (now : ℤ) :
    WalkLog base order (settledStage (m.walk order now)) :=
  ((walk_steps now hwf).1.invariant (I := fun s => s.Wf ∧ WalkLog base order s)
    (fun hw hstep h => ⟨h.1.step hstep, h.2.step hw hstep h.1⟩) ⟨hwf, h⟩).2

/-! ## A call -/

/-- The stream since `base` as far as it has come, at the stages between two walks. -/
def Logged (base : List EngineEvent) (P : OrderId → Prop) : Stage → Prop
  | .idle m | .settled m _ _ => ∃ es, m.events = base ++ es ∧ Stream P es
  | .entering m order =>
    P order.id ∧ ∃ es lead, m.events = base ++ (es ++ lead) ∧ Stream P es ∧ Leads order.id lead
  | .walking w =>
    P w.incoming.id ∧ ∃ es lead, Stream P es ∧ Leads w.incoming.id lead ∧
      WalkLog (base ++ (es ++ lead)) w.incoming (.walking w)
  | .stopped _ => False

/-- The stream since `base` is logged, and the stops have the property `P` of its blocks. -/
structure Logs (base : List EngineEvent) (P : OrderId → Prop) (s : Stage) : Prop where
  /-- The stage is well-formed. -/
  wf : s.Wf
  /-- The stops that may fire have the property. -/
  stops : ∀ stop ∈ s.market.fifo ++ s.market.stops, P stop.id
  /-- What has been emitted is a stream, up to the walk that has begun. -/
  logged : Logged base P s

variable {P : OrderId → Prop}

/-- Between walks the stream is carried along. -/
theorem carried_logs (now : ℤ) (base : List EngineEvent) (P : OrderId → Prop) :
    Carried now (Logs base P) where
  wf h := h.wf
  reenter h := by
    obtain ⟨hP, es, lead, hevents, hes, hlead⟩ := h.logged
    refine ⟨h.wf.step .reenter, h.stops, hP, es, lead, hes, hlead, ?_⟩
    rw [← hevents]
    exact walkLog_accept _ _ _
  finish h := ⟨h.wf.step (.finish : Step now _ _), h.stops, h.logged⟩
  absorb {m trades _ last} hlast h := by
    obtain ⟨es, hevents, hes⟩ := h.logged
    refine ⟨h.wf.step (.absorb hlast : Step now _ _), fun stop hs => h.stops stop ?_, es, ?_, hes⟩
    · exact mem_stops_absorb.mp hs
    · rw [toSession_absorb]
      exact hevents
  fire {m stop rest} hfifo hhalt h := by
    obtain ⟨es, hevents, hes⟩ := h.logged
    have hsub : ∀ s ∈ stop :: rest ++ m.stops, P s.id := fun s hs => h.stops s (by
      show s ∈ m.fifo ++ m.stops
      rw [hfifo]
      exact hs)
    refine ⟨h.wf.step (.fire hfifo hhalt), fun s hs => hsub s (List.mem_cons_of_mem _ hs), ?_⟩
    rw [Logged, firedOrder_id]
    -- The event of the firing leads the episode of the fired order.
    refine ⟨hsub stop List.mem_cons_self, es, [(stop.event .stopTriggered now).numbered m.nextSeq], ?_,
      hes, Or.inr ⟨_, rfl, Or.inl rfl, rfl⟩⟩
    show m.events ++ [_] = _
    rw [hevents, List.append_assoc]
    rfl
  sendBack hhalt h := ⟨h.wf.step (.sendBack hhalt : Step now _ _), h.stops, h.logged⟩

/-- A walk adds its episode to the stream. -/
theorem carries_logs (now : ℤ) (base : List EngineEvent) (P : OrderId → Prop)
    (entries : List (Entry Market)) : Carries now (Logs base P) entries := by
  rintro ⟨m, order, t⟩ - rfl h
  obtain ⟨hP, es, lead, hes, hlead, hlog⟩ := h.logged
  obtain ⟨ep, hevents, hep⟩ := walk_episode h.wf hlog t
  obtain ⟨hstops, hfifo⟩ := walk_stops m order t
  refine ⟨((walk_steps t h.wf).1.steps).wf h.wf, fun stop hs => h.stops stop ?_, es ++ (lead ++ ep), ?_, ?_⟩
  · show stop ∈ m.fifo ++ m.stops
    rw [← hstops, ← hfifo]
    exact hs
  · rw [hevents]
    simp only [List.append_assoc]
  · exact hes.append (Block.episode hP hlead hep).stream

/-- A call that is over when it has acted, with one event that stands alone. -/
theorem logs_note {m' : Market} {es : List EngineEvent} {e : EngineEvent} (hwf : m'.Wf [])
    (hstops : ∀ stop ∈ m'.fifo ++ m'.stops, P stop.id) (hevents : m'.events = base ++ es ++ [e])
    (hes : Stream P es) (hk : e.kind.plain = true) : Logs base P (.idle m') :=
  ⟨hwf, hstops, es ++ [e], by rw [hevents, List.append_assoc], hes.note hk⟩

/-- The stream when a call has acted. -/
theorem logs_act {c : Call} {es : List EngineEvent} (hact : Acts m c s) (hwf : m.Wf [])
    (hfifo : m.fifo = []) (hid : P c.id) (hstops : ∀ stop ∈ m.stops, P stop.id)
    (hevents : m.events = base ++ es) (hes : Stream P es) : Logs base P s := by
  have hs := hwf.act hfifo hact
  have hpending : ∀ stop ∈ m.fifo ++ m.stops, P stop.id := by
    rw [hfifo]
    exact hstops
  have hnote : ∀ e : EngineEvent, m.events ++ [e] = base ++ es ++ [e] := fun e => by rw [hevents]
  cases hact with
  | refuse kind => exact ⟨hs, hpending, es, hevents, hes⟩
  | reject => exact logs_note hs hpending (hnote _) hes rfl
  | submit fresh halted valid =>
    refine ⟨hs, hpending, hid, es, [], hes, Or.inl rfl, ?_⟩
    rw [List.append_nil, ← hevents]
    exact walkLog_accept _ _ _
  | cancel found => exact logs_note hs hpending (hnote _) hes rfl
  | withdraw found => exact logs_note hs hpending (hnote _) hes rfl
  | reduce found pos le => exact logs_note hs hpending (hnote _) hes rfl
  | @replace id _ order price quantity now halted found change valid =>
    have hoid : order.id = id := by
      obtain ⟨side, x, -, hx, rfl⟩ := mem_of_restingOrder? found
      exact hx
    -- The replacement is the prelude of the episode that follows.
    refine ⟨hs, hpending, hoid ▸ hid, es, [(order.event .replaced now).numbered m.nextSeq], ?_, hes,
      Or.inr ⟨_, rfl, Or.inr rfl, rfl⟩⟩
    exact (hnote _).trans (List.append_assoc _ _ _)
  | rejectStop => exact logs_note hs hpending (hnote _) hes rfl
  | @placeStop stop _ fresh valid ahead =>
    refine logs_note hs (fun s hmem => ?_) (hnote _) hes rfl
    -- The new stop is one that can be woken from now on.
    have hmem : s ∈ m.fifo ++ (m.stops ++ [stop]) := hmem
    rw [← List.append_assoc] at hmem
    rcases List.mem_append.mp hmem with hmem | hmem
    · exact hpending s hmem
    · rw [List.mem_singleton.mp hmem]
      exact hid
  | cancelStop found =>
    refine logs_note hs (fun s hmem => ?_) (hnote _) hes rfl
    rcases List.mem_append.mp hmem with hmem | hmem
    · exact hpending s (List.mem_append_left _ hmem)
    · exact hpending s (List.mem_append_right _ (List.mem_of_mem_filter hmem))
  | @modifyStop id _ old stopPrice limitPrice quantity _ found valid ahead =>
    have holdid : old.id = id := (stop?_spec found).2
    refine logs_note hs (fun s hmem => ?_) (hnote _) hes rfl
    rcases List.mem_append.mp hmem with hmem | hmem
    · exact hpending s (List.mem_append_left _ hmem)
    · rcases mem_replaceStop hmem with rfl | hmem
      · exact holdid ▸ hid
      · exact hstops s hmem

/-- **The stream of a call.** Its blocks are about the call's own order and the dormant stops. -/
theorem call_stream (c : Call) (hwf : m.Wf []) (hfifo : m.fifo = []) (hid : P c.id)
    (hstops : ∀ stop ∈ m.stops, P stop.id) :
    ∃ es, (m.call c).events = m.events ++ es ∧ Stream P es := by
  obtain ⟨m₀, s, hresumes, hact, hchain⟩ := call_chain c hwf hfifo
  have hwf₀ := hwf.resumes hresumes
  have hs : Logs m.events P s := by
    rcases hresumes with rfl | ⟨-, -, rfl⟩
    · exact logs_act hact hwf₀ hfifo hid hstops (List.append_nil _).symm stream_nil
    · exact logs_act hact hwf₀ hfifo hid hstops rfl (stream_nil.note rfl)
  exact (hchain _ (carried_logs c.now m.events P) (carries_logs c.now m.events P _) hs).1.logged

/-- **The stream of a run.** -/
theorem run_stream (calls : List Call) (hwf : m.Wf []) (hfifo : m.fifo = []) :
    ∃ es, (m.run calls).events = m.events ++ es ∧ Stream (fun _ => True) es := by
  induction calls generalizing m with
  | nil => exact ⟨[], (List.append_nil _).symm, stream_nil⟩
  | cons c calls ih =>
    obtain ⟨es, hes, hstream⟩ := call_stream (P := fun _ => True) c hwf hfifo trivial
      fun _ _ => trivial
    obtain ⟨es', hes', hstream'⟩ := ih (wf_call c hwf hfifo) (fifo_call m c hfifo)
    refine ⟨es ++ es', ?_, hstream.append hstream'⟩
    rw [run_cons, hes', hes, List.append_assoc]

end Market

end OrderBookEngine
