import OrderBookEngine.Market.Episodes
import OrderBookEngine.Market.Ledger
import OrderBookEngine.Refine.Run

/-!
# No id is lost or revived

`lifeOf` reads the life of an id off the event stream: dormant as a stop, open with a quantity left,
or ended, filled by the trade that takes what is left or cancelled. The book agrees with the stream,
which the ledger `lives` states. So an accepted id is in exactly one place, and an end is for good.
-/

namespace OrderBookEngine

/-- The life of an id, as the event stream tells it. -/
inductive Life where
  /-- Nothing is known of the id. -/
  | unknown
  /-- It is a stop that waits. -/
  | dormant
  /-- It is an order with this much left. -/
  | open (remaining : ℤ)
  /-- It has come to its end. -/
  | ended (how : FinalState)
deriving DecidableEq, Repr

/-- A trade takes from what is left. -/
def Life.less : Life → ℤ → Life
  | .open remaining, quantity =>
    if remaining = quantity then .ended .filled else .open (remaining - quantity)
  | _, _ => .unknown

/-- What an event does to the life of an id. -/
def Life.after (id : OrderId) (life : Life) (e : EngineEvent) : Life :=
  match e.kind with
  | .trade => if e.orderId = id ∨ e.passiveId = id then life.less e.quantity else life
  | .accepted | .modified => if e.orderId = id then .open e.quantity else life
  | .stopAccepted => if e.orderId = id then .dormant else life
  | .cancelled | .stopCancelled | .expired => if e.orderId = id then .ended .cancelled else life
  | _ => life

/-- The life of an id over a stream. -/
def lifeOf (id : OrderId) (events : List EngineEvent) : Life :=
  events.foldl (Life.after id) .unknown

/-- An event that bears on the life of an id. -/
def Touches (id : OrderId) (e : EngineEvent) : Prop :=
  match e.kind with
  | .trade => e.orderId = id ∨ e.passiveId = id
  | .accepted | .modified | .stopAccepted | .cancelled | .stopCancelled | .expired => e.orderId = id
  | _ => False

section Life

variable {id : OrderId} {e : EngineEvent} {es : List EngineEvent}

/-- One more event moves the life on by one step. -/
theorem lifeOf_append (id : OrderId) (es : List EngineEvent) (e : EngineEvent) :
    lifeOf id (es ++ [e]) = (lifeOf id es).after id e := by
  rw [lifeOf, List.foldl_append]
  rfl

/-- An event that does not touch an id leaves its life as it is. -/
theorem after_of_not_touches (h : ¬ Touches id e) (life : Life) : life.after id e = life := by
  rw [Touches] at h
  rw [Life.after]
  cases hk : e.kind <;> simp only [hk] at h ⊢ <;> exact if_neg h

/-- The last trade of an id took what was left of it, and nothing bore on the id since. -/
def FilledBy (id : OrderId) (events : List EngineEvent) : Prop :=
  ∃ before e after, events = before ++ e :: after ∧ e.kind = .trade ∧
    (e.orderId = id ∨ e.passiveId = id) ∧ lifeOf id before = .open e.quantity ∧
    ∀ e' ∈ after, ¬ Touches id e'

/-- An event after which a life has ended as filled. -/
theorem after_eq_filled {life : Life} (h : life.after id e = .ended .filled) :
    (e.kind = .trade ∧ (e.orderId = id ∨ e.passiveId = id) ∧ life = .open e.quantity) ∨
      (¬ Touches id e ∧ life = .ended .filled) := by
  by_cases ht : Touches id e
  swap
  · exact Or.inr ⟨ht, after_of_not_touches ht life ▸ h⟩
  left
  rw [Touches] at ht
  rw [Life.after] at h
  cases hk : e.kind <;> simp only [hk] at h ht
  case trade =>
    rw [if_pos ht] at h
    refine ⟨rfl, ht, ?_⟩
    cases life with
    | «open» remaining =>
      -- Only a trade of all that is open ends a life as filled.
      rw [Life.less] at h
      split_ifs at h with hq
      rw [hq]
    | unknown => cases h
    | dormant => cases h
    | ended how => cases h
  all_goals
    rw [if_pos ht] at h
    cases h

/-- A life that ended filled ended with the trade that took the rest. -/
theorem lifeOf_eq_filled : lifeOf id es = .ended .filled ↔ FilledBy id es := by
  induction es using List.reverseRecOn with
  | nil =>
    refine ⟨fun h => (by cases h), ?_⟩
    rintro ⟨before, e, after, h, -⟩
    simp at h
  | append_singleton es e ih =>
    rw [lifeOf_append]
    constructor
    · intro h
      rcases after_eq_filled h with ⟨hk, hid, hlife⟩ | ⟨ht, hlife⟩
      · exact ⟨es, e, [], rfl, hk, hid, hlife, by simp⟩
      · obtain ⟨before, e', after, rfl, hk, hid, hopen, hafter⟩ := ih.mp hlife
        refine ⟨before, e', after ++ [e], by simp, hk, hid, hopen, fun x hx => ?_⟩
        rcases List.mem_append.mp hx with hx | hx
        · exact hafter x hx
        · rwa [List.mem_singleton.mp hx]
    · rintro ⟨before, e', after, h, hk, hid, hopen, hafter⟩
      -- The filling trade is the last event, or it came before it.
      rcases List.eq_nil_or_concat after with rfl | ⟨after', x, rfl⟩
      · obtain ⟨rfl, he⟩ := List.append_inj' h rfl
        obtain rfl := List.singleton_inj.mp he
        rw [hopen, Life.after, hk]
        simp [hid, Life.less]
      · rw [List.concat_eq_append, ← List.cons_append, ← List.append_assoc] at h
        obtain ⟨rfl, he⟩ := List.append_inj' h rfl
        obtain rfl := List.singleton_inj.mp he
        rw [after_of_not_touches (hafter e (by simp))]
        exact ih.mpr ⟨before, e', after', rfl, hk, hid, hopen, fun y hy => hafter y (by simp [hy])⟩

end Life

/-- The life of an order with a quantity left to trade. -/
def left (quantity : ℤ) : Life := if quantity = 0 then .ended .filled else .open quantity

/-- An order with something left is open. -/
theorem left_of_pos {quantity : ℤ} (h : 0 < quantity) : left quantity = .open quantity := by
  unfold left
  rw [if_neg (by omega)]

/-- A trade of an open order leaves the rest open. -/
theorem less_open (remaining quantity : ℤ) :
    (Life.open remaining).less quantity = left (remaining - quantity) := by
  rw [Life.less, left]
  by_cases h : remaining = quantity
  · rw [if_pos h, if_pos (by omega)]
  · rw [if_neg h, if_neg (by omega)]

/-- Resting orders are open with their quantity, stops are dormant, and final states are the ends. -/
def lives : Ledger Life where
  init := .unknown
  after := Life.after
  Resting _ x life := life = .open x.quantity
  Dormant _ life := life = .dormant
  Flying _ _ := True
  Walking order life := life = left order.quantity
  Closed how life := life = .ended how

/-- An event that does not name an id does not touch it. -/
theorem not_touches_of_not_names {id : OrderId} {e : EngineEvent} (h : ¬ Names id e) :
    ¬ Touches id e := by
  unfold Names at h
  unfold Touches
  cases hk : e.kind <;> simp only [hk] at h ⊢ <;> first | exact h | exact not_false

/-- A trade takes its quantity from both orders. -/
theorem after_trade {id : OrderId} {t : Trade} {n : ℕ} {quantity : ℤ}
    (hid : t.aggressorId = id ∨ t.passiveId = id) :
    (Life.open quantity).after id ((Market.tradeEvent t).numbered n) = left (quantity - t.quantity) := by
  rw [← less_open]
  exact if_pos hid

/-- Every step of a call keeps the lives. -/
theorem lives_rules : lives.Rules fun _ => True where
  quiet h := after_of_not_touches (not_touches_of_not_names h) _
  submit _ hvalid := (if_pos rfl).trans (left_of_pos (Market.priced_of_valid hvalid).2).symm
  reenter _ hvalid := (if_pos rfl).trans (left_of_pos (Market.priced_of_valid hvalid).2).symm
  aggressor hmeets _ h := by
    rw [show _ = _ from h, left_of_pos hmeets.quantity]
    exact after_trade (Or.inl rfl)
  passive {w x} _ _ _ _ _ hne h hpart := by
    rw [show _ = _ from h]
    refine (after_trade (Or.inr rfl)).trans ?_
    show left (x.quantity - min w.incoming.quantity x.quantity) = _
    unfold left
    rw [if_neg (sub_ne_zero.mpr hpart)]
  exhaust {w x} _ _ _ _ _ hne h hfull := by
    rw [show _ = _ from h]
    refine (after_trade (Or.inr rfl)).trans ?_
    show left (x.quantity - min w.incoming.quantity x.quantity) = _
    unfold left
    rw [if_pos (sub_eq_zero.mpr hfull)]
  filled h hzero := by
    rw [show _ = _ from h, hzero]
    rfl
  expire _ := if_pos rfl
  rest h _ _ hpos := h.trans (left_of_pos hpos)
  restAtBandEdge h _ _ hpos := h.trans (left_of_pos hpos)
  fire _ := trivial
  cancel _ := if_pos rfl
  reduce _ _ _ := if_pos rfl
  replace _ _ := trivial
  placeStop _ := if_pos rfl
  cancelStop _ := if_pos rfl
  modifyStop h _ _ _ _ := h

namespace Market

variable {m m' : Market} {now : ℤ} {s s' : Stage}

/-! ## An end is for good -/

/-- Every id that is finished stays finished, in the same way. -/
def Keeps (s s' : Session) : Prop :=
  ∀ id how, s.finishedOrders id = some how → s'.finishedOrders id = some how

/-- With the same ends, every end is kept. -/
theorem keeps_of_eq {s s' : Session} (h : s'.finishedOrders = s.finishedOrders) : Keeps s s' :=
  fun _ _ hf => h ▸ hf

/-- Finishing one more id keeps the others. -/
theorem keeps_update {s s' : Session} {id : OrderId} {how : FinalState}
    (h : s'.finishedOrders = Function.update s.finishedOrders id (some how))
    (hid : s.finishedOrders id = none) : Keeps s s' := by
  intro i how' hf
  have hne : i ≠ id := by
    rintro rfl
    rw [hid] at hf
    cases hf
  rw [h, Function.update_of_ne hne]
  exact hf

/-- A close keeps the ends of the others. -/
theorem keeps_close {s : Session} {e : EngineEvent}
    (hk : e.kind = .cancelled ∨ e.kind = .stopCancelled ∨ e.kind = .expired)
    (hid : s.finishedOrders e.orderId = none) : Keeps s (s.emit e) :=
  keeps_update (if_pos hk) hid

/-- An order that comes to rest keeps every end. -/
theorem keeps_restOrder {order : Order} (h : m.restOrder order now = some m') :
    Keeps m.toSession m'.toSession := by
  obtain ⟨-, rfl⟩ := restOrder_eq_some h
  exact keeps_of_eq rfl

/-- One step keeps every end. -/
theorem Step.keeps (hstep : Step now s s') (hwf : s.Wf) :
    Keeps s.market.toSession s'.market.toSession := by
  cases hstep with
  | reenter => exact keeps_of_eq rfl
  | @trade w x xs outside breach meets band =>
    have hx : x ∈ w.market.queue w.incoming.side.opposite := by
      rw [meets.queue]
      exact List.mem_cons_self
    show Keeps _ (w.trade now x xs outside breach).market.toSession
    -- A trade marks the passive order when it fills it, which had no final state.
    rw [Walk.toSession_trade]
    simp only
    split_ifs
    · exact keeps_update rfl
        (hwf.1.ids.unfinished _ (List.mem_append_right _ (mem_liveIds_of_queue hx)))
    · exact keeps_of_eq rfl
  | halt meets band => exact keeps_of_eq rfl
  | limit meets band => exact keeps_of_eq rfl
  | filled quantity =>
    exact keeps_update rfl (hwf.1.ids.unfinished _ (List.mem_append_left _ (List.mem_singleton_self _)))
  | rest quantity type runOut room => exact keeps_restOrder room
  | expire quantity =>
    exact keeps_close (Or.inr (Or.inr rfl))
      (hwf.1.ids.unfinished _ (List.mem_append_left _ (List.mem_singleton_self _)))
  | restAtBandEdge type valid room => exact keeps_restOrder room
  | expireStopped =>
    exact keeps_close (Or.inr (Or.inr rfl))
      (hwf.1.ids.unfinished _ (List.mem_append_left _ (List.mem_singleton_self _)))
  | finish => exact keeps_of_eq rfl
  | @absorb m trades _ last last_eq =>
    show Keeps _ (m.absorb trades last).toSession
    rw [toSession_absorb]
    exact keeps_of_eq rfl
  | fire fifo halted => exact keeps_of_eq rfl
  | sendBack halted => exact keeps_of_eq rfl

/-- So does the begin of a call. -/
theorem Acts.keeps {c : Call} (hact : Acts m c s) (hwf : m.Wf []) :
    Keeps m.toSession s.market.toSession := by
  have hclose : ∀ {id order}, m.restingOrder? id = some order →
      m.finishedOrders order.id = none := fun found => by
    obtain ⟨side, x, hx, rfl, rfl⟩ := mem_of_restingOrder? found
    exact hwf.ids.unfinished _ (List.mem_append_right _ (mem_liveIds_of_queue hx))
  cases hact with
  | refuse kind => exact keeps_of_eq rfl
  | reject => exact keeps_of_eq rfl
  | submit fresh halted valid => exact keeps_of_eq rfl
  | cancel found => exact keeps_close (Or.inl rfl) (hclose found)
  | withdraw found => exact keeps_close (Or.inl rfl) (hclose found)
  | reduce found pos le => exact keeps_of_eq rfl
  | replace halted found change valid => exact keeps_of_eq rfl
  | rejectStop => exact keeps_of_eq rfl
  | placeStop fresh valid ahead => exact keeps_of_eq rfl
  | cancelStop found =>
    refine keeps_close (Or.inr (Or.inl rfl)) (hwf.ids.unfinished _ (List.mem_append_right _ ?_))
    exact List.mem_append_right _ (List.mem_map_of_mem (List.mem_append_right _ (stop?_spec found).1))
  | modifyStop found valid ahead => exact keeps_of_eq rfl

/-- What is finished at a stage is finished at every later one. -/
theorem Steps.keeps (hs : Steps now s s') (hwf : s.Wf) :
    Keeps s.market.toSession s'.market.toSession :=
  (hs.invariant (I := fun s' => s'.Wf ∧ Keeps s.market.toSession s'.market.toSession)
    (fun hstep h => ⟨h.1.step hstep, fun id how hf => hstep.keeps h.1 id how (h.2 id how hf)⟩)
    ⟨hwf, keeps_of_eq rfl⟩).2

/-- A call keeps every end. -/
theorem keeps_call (c : Call) (hwf : m.Wf []) (hfifo : m.fifo = []) :
    Keeps m.toSession (m.call c).toSession := by
  obtain ⟨m₀, s, hresumes, hact, hsteps, -⟩ := call_steps c hwf hfifo
  have hwf₀ := hwf.resumes hresumes
  have hfifo₀ := hresumes.fifo.trans hfifo
  have hkeep₀ : Keeps m.toSession m₀.toSession := by
    rcases hresumes with rfl | ⟨-, -, rfl⟩ <;> exact keeps_of_eq rfl
  exact fun id how hf => hsteps.keeps (hwf₀.act hfifo₀ hact) id how
    (hact.keeps hwf₀ id how (hkeep₀ id how hf))

/-- A run keeps every end. -/
theorem keeps_run {cfg : Config} (h : Reachable cfg (.idle m)) (hfifo : m.fifo = [])
    (calls : List Call) : Keeps m.toSession (m.run calls).toSession := by
  induction calls generalizing m with
  | nil => exact keeps_of_eq rfl
  | cons c calls ih =>
    exact fun id how hf => ih (h.call hfifo c) (fifo_call m c hfifo) id how
      (keeps_call c h.wf hfifo id how hf)

/-! ## What re-enters is accepted -/

/-- An event that announces an order's return. -/
def Announces (e : EngineEvent) : Prop := e.kind = .stopTriggered ∨ e.kind = .replaced

/-- Every announcement is followed by its acceptance. -/
def Followed (es : List EngineEvent) : Prop :=
  ∀ before e after, es = before ++ e :: after → Announces e →
    ∃ a after', after = a :: after' ∧ a.kind = .accepted ∧ a.orderId = e.orderId

/-- A stream without announcements is followed. -/
theorem followed_of_none {es : List EngineEvent} (h : ∀ e ∈ es, ¬ Announces e) : Followed es := by
  rintro before e after rfl he
  exact absurd he (h e (by simp))

/-- Two streams that are followed are followed one after another. -/
theorem Followed.append {es es' : List EngineEvent} (h : Followed es) (h' : Followed es') :
    Followed (es ++ es') := by
  intro before e after hsplit he
  rcases List.append_eq_append_iff.mp hsplit with ⟨c, rfl, hes'⟩ | ⟨c, rfl, hafter⟩
  · exact h' c e after hes' he
  · cases c with
    | nil => exact h' [] e after hafter.symm he
    | cons x c =>
      obtain ⟨rfl, rfl⟩ := List.cons.inj hafter
      obtain ⟨a, c', rfl, ha⟩ := h before e c rfl he
      exact ⟨a, c' ++ es', rfl, ha⟩

/-- Nothing in an episode is an announcement. -/
theorem Episode.not_announces {id : OrderId} {quantity unaccepted : ℤ} {trades : List Trade}
    {es : List EngineEvent} (h : Episode id quantity trades unaccepted es) :
    ∀ e ∈ es, ¬ Announces e := by
  cases h with
  | @mk accepted ts halts closing remaining opens halts_kind closes =>
    intro e he
    rw [Announces]
    simp only [List.mem_cons, List.mem_append] at he
    rcases he with rfl | (he | he) | he
    · simp [opens.kind]
    · have hprint : e.numbered 0 ∈ trades.map tradeEvent := opens.prints ▸ List.mem_map_of_mem he
      obtain ⟨t, -, ht⟩ := List.mem_map.mp hprint
      have hk : e.kind = .trade := congrArg EngineEvent.kind ht.symm
      simp [hk]
    · simp [halts_kind e he]
    · cases closes with
      | filled => cases he
      | rested kind => simp [List.mem_singleton.mp he, kind]
      | expired kind => simp [List.mem_singleton.mp he, kind]

/-- In a block every announcement is followed. -/
theorem Block.followed {P : OrderId → Prop} {b : List EngineEvent} (h : Block P b) : Followed b := by
  cases h with
  | @note e kind =>
    refine followed_of_none fun e' he' => ?_
    rw [List.mem_singleton.mp he', Announces]
    rintro (hk | hk) <;> simp [hk, EventKind.plain] at kind
  | @episode id quantity trades unaccepted lead es prop leads episode =>
    have hnone := episode.not_announces
    rcases leads with rfl | ⟨l, rfl, hk, hid⟩
    · exact followed_of_none hnone
    · cases episode with
      | mk opens halts_kind closes =>
        intro before e after hsplit he
        -- The announcement leads the episode, whose first event is the acceptance.
        cases before with
        | nil =>
          obtain ⟨rfl, rfl⟩ := List.cons.inj hsplit
          exact ⟨_, _, rfl, opens.kind, opens.orderId.trans hid.symm⟩
        | cons x before =>
          have htail : _ :: (_ ++ _ ++ _) = before ++ e :: after := (List.cons.inj hsplit).2
          refine absurd he (hnone e ?_)
          rw [htail]
          simp

/-- In the stream of a call every announcement is followed. -/
theorem Stream.followed {P : OrderId → Prop} {es : List EngineEvent} (h : Stream P es) :
    Followed es := by
  obtain ⟨blocks, rfl, hb⟩ := h
  induction blocks with
  | nil => exact followed_of_none (by simp)
  | cons b blocks ih =>
    rw [List.flatten_cons]
    exact (hb b List.mem_cons_self).followed.append
      (ih fun b' hb' => hb b' (List.mem_cons_of_mem _ hb'))

end Market

namespace Book

/-- The number of places in which a book has an id: resting, dormant, finished. -/
def places (b : Book) (id : OrderId) : ℕ :=
  [(b.idIndex id).isSome, (b.stopIndex id).isSome, (b.finalState id).isSome].count true

/-- The stream has accepted an id. -/
def Accepted (b : Book) (id : OrderId) : Prop := ∃ e ∈ b.events, Market.Accepts id e

variable {b : Book} {m : Market}

/-- An id that was accepted is in one place, and any other id in none. -/
theorem Refines.places_eq (h : b.Refines m) (hwf : m.Wf []) (id : OrderId) :
    b.places id = if (m.ownerOf id).isSome then 1 else 0 := by
  have hrest : (b.idIndex id).isSome ↔
      id ∈ m.bids.map RestingOrder.orderId ++ m.asks.map RestingOrder.orderId := by
    rw [← Market.restingOrder?_isSome]
    rcases h.represents.lookup id with ⟨h1, h2⟩ | ⟨p, h1, h2⟩ <;> simp [h1, h2]
  have hstop : (b.stopIndex id).isSome ↔ id ∈ m.stops.map StopOrder.id := by
    rw [h.represents.stopIndex_isSome, Market.stop?_isSome]
  have hfin : b.finalState id = m.finishedOrders id := by
    rw [Session.finalState, h.represents.session]
  have hlive : m.liveIds = m.bids.map RestingOrder.orderId ++ m.asks.map RestingOrder.orderId ++
      m.stops.map StopOrder.id := by
    rw [Market.liveIds, h.fifo, List.nil_append]
  have howned := hwf.ids.owned id
  have hunfinished := hwf.ids.unfinished id
  have hnd := hwf.ids.nodup
  rw [List.nil_append, hlive] at howned hunfinished hnd
  -- A live id is an order's or a stop's, and has no final state.
  have hdisjoint := (List.nodup_append.mp hnd).2.2
  rw [places, hfin]
  by_cases hr : id ∈ m.bids.map RestingOrder.orderId ++ m.asks.map RestingOrder.orderId
  · have hs : id ∉ m.stops.map StopOrder.id := fun hs => hdisjoint _ hr _ hs rfl
    have hf := hunfinished (List.mem_append_left _ hr)
    rw [hrest.mpr hr, Bool.eq_false_iff.mpr (mt hstop.mp hs), hf,
      if_pos (howned.mpr (Or.inl (List.mem_append_left _ hr)))]
    rfl
  · rw [Bool.eq_false_iff.mpr (mt hrest.mp hr)]
    by_cases hs : id ∈ m.stops.map StopOrder.id
    · have hf := hunfinished (List.mem_append_right _ hs)
      rw [hstop.mpr hs, hf, if_pos (howned.mpr (Or.inl (List.mem_append_right _ hs)))]
      rfl
    · rw [Bool.eq_false_iff.mpr (mt hstop.mp hs)]
      -- Neither, so the id has an owner exactly if it has finished.
      have hiff : (m.ownerOf id).isSome ↔ (m.finishedOrders id).isSome := by
        rw [howned]
        refine ⟨fun h => h.resolve_left fun hmem => ?_, Or.inr⟩
        exact (List.mem_append.mp hmem).elim hr hs
      cases hf : m.finishedOrders id with
      | none => rw [if_neg (by rw [hiff, hf]; simp)]; rfl
      | some how => rw [if_pos (by rw [hiff, hf]; rfl)]; rfl

/-- **No id is lost or revived.** An accepted id is in exactly one place, and an end is for good: as
filled, exactly if the id's last trade took what was left of it. What returns is accepted at once. -/
theorem accepted_in_one_place (cfg : Config) (calls : List Call)
    (hfits : ((Book.make cfg).run calls).Fits) :
    let b := (Book.make cfg).run calls
    (∀ id, b.Accepted id → b.places id = 1) ∧
    (∀ id, ¬ b.Accepted id → b.places id = 0) ∧
    (∀ id how, b.finalState id = some how → (how = .filled ↔ FilledBy id b.events)) ∧
    (∀ later, (b.run later).Fits →
      ∀ id how, b.finalState id = some how → (b.run later).finalState id = some how) ∧
    ∀ before e after, b.events = before ++ e :: after → e.kind = .stopTriggered ∨ e.kind = .replaced →
      ∃ a after', after = a :: after' ∧ a.kind = .accepted ∧ a.orderId = e.orderId := by
  intro b
  have h : b.Refines ((Market.make cfg).run calls) := run_refines cfg calls hfits
  have hreach := reachable_run cfg calls
  set m := (Market.make cfg).run calls
  have hevents : b.events = m.events := by rw [h.represents.session]
  -- An id has an owner from the event that first accepted it.
  have haccepted : ∀ id, b.Accepted id ↔ (m.ownerOf id).isSome := fun id => by
    rw [Accepted, hevents]
    exact (hreach.ownerOf id).symm
  have hfinal : ∀ {b : Book} {m : Market}, b.Refines m → ∀ id, b.finalState id = m.finishedOrders id :=
    fun h id => by rw [Session.finalState, h.represents.session]
  refine ⟨fun id hid => ?_, fun id hid => ?_, fun id how hf => ?_, fun later hlater id how hf => ?_, ?_⟩
  · rw [h.places_eq hreach.wf, if_pos ((haccepted id).mp hid)]
  · rw [h.places_eq hreach.wf, if_neg (mt (haccepted id).mpr hid)]
  · rw [hfinal h] at hf
    -- The state of the id is that of its story in the stream.
    have hlife : lifeOf id m.events = .ended how :=
      (lives_rules.run cfg calls fun _ _ => trivial).closed id how hf
    rw [hevents, ← lifeOf_eq_filled, hlife]
    exact ⟨congrArg _, fun heq => (Life.ended.inj heq)⟩
  · rw [hfinal h] at hf
    rw [hfinal (h.run later hlater)]
    exact Market.keeps_run hreach h.fifo later id how hf
  · rw [hevents]
    obtain ⟨es, hes, hstream⟩ := Market.run_stream calls (Market.wf_make cfg) rfl
    rw [show m.events = es from hes]
    exact hstream.followed

/-- A stop that fires and rests, an order that is filled, and one that is cancelled with what is left of it. -/
theorem accepted_in_one_place_four :
    let b := (Book.make { poolCapacity := 4 }).run
      [.addOrder { id := 1, ownerId := 1, side := .buy, type := .limit, price := some 100,
                   quantity := 1 } 0,
       .placeStopOrder { id := 2, ownerId := 2, side := .sell, stopPrice := 100, quantity := 2,
                         limitPrice := some 101 } 1,
       .addOrder { id := 3, ownerId := 3, side := .sell, type := .limit, price := some 100,
                   quantity := 3 } 2,
       .cancelOrder 3 3 3]
    (∀ id, b.Accepted id → b.places id = 1) ∧
    (∀ id, ¬ b.Accepted id → b.places id = 0) ∧
    (∀ id how, b.finalState id = some how → (how = .filled ↔ FilledBy id b.events)) ∧
    (∀ later, (b.run later).Fits →
      ∀ id how, b.finalState id = some how → (b.run later).finalState id = some how) ∧
    ∀ before e after, b.events = before ++ e :: after → e.kind = .stopTriggered ∨ e.kind = .replaced →
      ∃ a after', after = a :: after' ∧ a.kind = .accepted ∧ a.orderId = e.orderId :=
  accepted_in_one_place { poolCapacity := 4 } _ (fits_run rfl _)

end Book

end OrderBookEngine
