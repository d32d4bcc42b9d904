import Mathlib.Algebra.BigOperators.Group.Finset.Basic
import Mathlib.Algebra.Order.BigOperators.Group.Finset
import OrderBookEngine.Server.Registry

/-!
# Requests

What a request to subscribe can do (`Subscribes`): it is refused, or it is told that what it asks for
is too old, or it is registered with a queue that holds its replay. `act_spec` then says what any action
does to a feed.
-/

namespace OrderBookEngine

namespace Publisher

variable {p p' : Publisher} {id : SubscriberId} {gatewayId : GatewayId} {symbols : List SymbolId}
  {fromSeq : FromSeq} {sub : Subscription} {entry : Subscriber}

/-! ## The replay -/

/-- What is replayed of a symbol. -/
def replayOf (p : Publisher) (fromSeq : FromSeq) (symbol : SymbolId) : List FeedItem :=
  match fromSeq.lookup symbol with
  | none => []
  | some wanted => (p.replayed symbol wanted).map .marketEvent

/-- With room in the queue, all events are queued. -/
theorem pushAll_spec (events : List MarketEvent) (sub : Subscription) (hopen : sub.endReason = .none)
    (hroom : sub.items.length + events.length ≤ sub.capacity) :
    pushAll sub events = .ok (sub.enqueue (events.map .marketEvent)) := by
  induction events generalizing sub with
  | nil => rw [pushAll, List.map_nil, Subscription.enqueue_nil]
  | cons event events ih =>
    rw [List.length_cons] at hroom
    have hrest : (sub.enqueue [.marketEvent event]).items.length + events.length ≤ sub.capacity := by
      rw [Subscription.length_enqueue, List.length_singleton]
      omega
    rw [pushAll, Subscription.tryPush_of_room hopen (by omega)]
    show pushAll (sub.enqueue [.marketEvent event]) events = _
    rw [ih (sub.enqueue [.marketEvent event]) hopen hrest, Subscription.enqueue_enqueue]
    rfl

/-- A replay that fits the queue. -/
theorem replay_spec (symbols : List SymbolId) (sub : Subscription) (hopen : sub.endReason = .none)
    (hroom : sub.items.length + (symbols.map fun s => (p.replayOf fromSeq s).length).sum ≤
      sub.capacity) :
    p.replay fromSeq symbols sub =
      .ok (sub.enqueue (symbols.flatMap (p.replayOf fromSeq)),
        symbols.filter fun s => (fromSeq.lookup s).isNone) := by
  induction symbols generalizing sub with
  | nil => rw [replay, List.flatMap_nil, Subscription.enqueue_nil, List.filter_nil]
  | cons symbol symbols ih =>
    rw [List.map_cons, List.sum_cons] at hroom
    rw [replay, List.flatMap_cons]
    cases hwanted : fromSeq.lookup symbol with
    | none =>
      -- A symbol without a number has nothing to replay, and waits for a snapshot.
      have hnothing : p.replayOf fromSeq symbol = [] := by simp [replayOf, hwanted]
      rw [hnothing, List.length_nil, zero_add] at hroom
      rw [hnothing, List.nil_append, List.filter_cons_of_pos (by simp [hwanted])]
      simp only [ih sub hopen hroom, Except.map]
    | some wanted =>
      have hreplayed : p.replayOf fromSeq symbol = (p.replayed symbol wanted).map .marketEvent := by
        simp [replayOf, hwanted]
      rw [hreplayed, List.length_map] at hroom
      rw [hreplayed, List.filter_cons_of_neg (by simp [hwanted])]
      set events := p.replayed symbol wanted
      -- There is room left for the symbols behind.
      have hrest : (sub.enqueue (events.map .marketEvent)).items.length +
          (symbols.map fun s => (p.replayOf fromSeq s).length).sum ≤ sub.capacity := by
        rw [Subscription.length_enqueue, List.length_map]
        omega
      show (pushAll sub events).bind _ = _
      rw [pushAll_spec events sub hopen (by omega)]
      show p.replay fromSeq symbols (sub.enqueue (events.map .marketEvent)) = _
      rw [ih (sub.enqueue (events.map .marketEvent)) hopen hrest, Subscription.enqueue_enqueue]

/-- The queue of a new subscription has room for all that is replayed. -/
theorem replay_fits (p : Publisher) (fromSeq : FromSeq) (hnodup : symbols.Nodup) :
    (symbols.map fun s => (p.replayOf fromSeq s).length).sum ≤
      (fromSeq.entries.map fun entry => (p.replayed entry.1 entry.2).length).sum := by
  have hentries : (fromSeq.entries.map fun entry => (p.replayed entry.1 entry.2).length) =
      fromSeq.keys.map fun s => (p.replayOf fromSeq s).length := by
    unfold AList.keys List.keys
    rw [List.map_map]
    refine List.map_congr_left fun entry hentry => ?_
    have hlookup : fromSeq.lookup entry.1 = some entry.2 := AList.mem_lookup_iff.mpr hentry
    show _ = (p.replayOf fromSeq entry.1).length
    simp [replayOf, hlookup]
  rw [hentries, ← List.sum_toFinset _ hnodup, ← List.sum_toFinset _ fromSeq.keys_nodup]
  -- A symbol that is not asked for from a sequence number counts nothing.
  refine Finset.sum_le_sum_of_ne_zero fun s _ hs => ?_
  rw [List.mem_toFinset, ← AList.mem_keys, ← AList.lookup_isSome]
  by_contra hnone
  rw [Bool.not_eq_true, Option.isSome_eq_false_iff, Option.isNone_iff_eq_none] at hnone
  exact hs (by simp [replayOf, hnone])

/-! ## Registering -/

/-- A new subscription, whose gateway has none of its kind. -/
theorem register_spec (h : p.Wf) (sub : Subscription) (entry : Subscriber) (hid : sub.id = p.nextId)
    (hopen : sub.endReason = .none)
    (hgate : p.byGateway entry.kind sub.gatewayId = none) (hclosed : p.closed = false)
    (hmute : entry.kind = .replies → entry.live = fun _ => none) :
    (p.register sub entry).Wf ∧ (p.register sub entry).feed p.nextId = ⟨some entry, sub⟩ ∧
    (∀ x, x ≠ p.nextId → (p.register sub entry).feed x = p.feed x) ∧
    SameRecord { p with nextId := p.nextId + 1 } (p.register sub entry) := by
  set q := p.register sub entry with hq
  have hsubs : q.subs = Function.update p.subs p.nextId sub := by
    rw [hq, register, hid]
    cases entry.kind <;> rfl
  have hsubscribers : q.subscribers = p.subscribers.insert p.nextId entry := by
    rw [hq, register, hid]
    cases entry.kind <;> rfl
  have hgates : ∀ kind gatewayId, q.byGateway kind gatewayId =
      if kind = entry.kind ∧ gatewayId = sub.gatewayId then some p.nextId
      else p.byGateway kind gatewayId := by
    intro kind gatewayId
    rw [hq, register, hid]
    cases entry.kind <;> cases kind <;> simp [byGateway, Function.update_apply]
  have hrecord : SameRecord { p with nextId := p.nextId + 1 } q := by
    rw [hq, register]
    cases entry.kind <;> exact ⟨rfl, rfl, rfl, rfl, rfl, rfl, rfl⟩
  have hnew : q.feed p.nextId = ⟨some entry, sub⟩ := by
    unfold feed
    rw [hsubs, hsubscribers, AList.lookup_insert, Function.update_self]
  have hold : ∀ x, x ≠ p.nextId → q.feed x = p.feed x := by
    intro x hx
    unfold feed
    rw [hsubs, hsubscribers, AList.lookup_insert_ne hx, Function.update_of_ne hx]
  have hlookup : ∀ x, x ≠ p.nextId → q.subscribers.lookup x = p.subscribers.lookup x :=
    fun x hx => congrArg Feed.entry (hold x hx)
  have hsub : ∀ x, x ≠ p.nextId → q.subs x = p.subs x := fun x hx => congrArg Feed.sub (hold x hx)
  -- The id has not been handed out before.
  have hfresh : p.subscribers.lookup p.nextId = none := h.fresh _ le_rfl
  refine ⟨?_, hnew, hold, hrecord⟩
  constructor
  case id_eq =>
    intro x
    by_cases hx : x = p.nextId
    · rw [hx, hsubs, Function.update_self]
      exact hid
    · rw [hsub x hx]
      exact h.id_eq x
  case fresh =>
    intro x hx
    rw [hrecord.nextId] at hx
    have hlt : p.nextId < x := hx
    rw [hlookup x hlt.ne']
    exact h.fresh x hlt.le
  case registered =>
    intro x entry' hx
    rw [hgates]
    by_cases hxn : x = p.nextId
    · subst hxn
      obtain rfl := Option.some.inj (hx.symm.trans (congrArg Feed.entry hnew))
      have hsame : q.subs p.nextId = sub := congrArg Feed.sub hnew
      rw [hsame, if_pos ⟨rfl, rfl⟩]
      exact ⟨hopen, rfl⟩
    · rw [hlookup x hxn] at hx
      obtain ⟨hopen', hgate'⟩ := h.registered x entry' hx
      rw [hsub x hxn, if_neg ?_]
      · exact ⟨hopen', hgate'⟩
      · rintro ⟨hkind, hsame⟩
        rw [hkind, hsame, hgate] at hgate'
        cases hgate'
  case entry =>
    intro kind gatewayId x hx
    rw [hgates] at hx
    split_ifs at hx with hsame
    · obtain rfl := Option.some.inj hx
      refine ⟨entry, congrArg Feed.entry hnew, hsame.1.symm, ?_⟩
      exact (congrArg (Subscription.gatewayId ∘ Feed.sub) hnew).trans hsame.2.symm
    · obtain ⟨old, hold, hkind, hgateway⟩ := h.entry kind gatewayId x hx
      have hne : x ≠ p.nextId := by
        rintro rfl
        rw [hfresh] at hold
        cases hold
      exact ⟨old, (hlookup x hne).trans hold, hkind, by rw [hsub x hne]; exact hgateway⟩
  case mute =>
    intro x entry' hx
    by_cases hxn : x = p.nextId
    · subst hxn
      obtain rfl := Option.some.inj (hx.symm.trans (congrArg Feed.entry hnew))
      exact hmute
    · rw [hlookup x hxn] at hx
      exact h.mute x entry' hx
  case shut =>
    intro hclosed'
    rw [hrecord.closed] at hclosed'
    exact absurd (hclosed.symm.trans hclosed') (by simp)

/-! ## Requests -/

/-- The checks of a request that do not look at the history. -/
structure Passes (p : Publisher) (gatewayId : GatewayId) (symbols : List SymbolId)
    (fromSeq : FromSeq) : Prop where
  /-- The gateway has a name. -/
  gateway : gatewayId ≠ ""
  /-- The symbols are known. -/
  known : ∀ symbol ∈ p.asked symbols, symbol ∈ p.symbolList
  /-- The numbers are for symbols asked for, from one on. -/
  wanted : ∀ symbol seq, fromSeq.lookup symbol = some seq → symbol ∈ p.asked symbols ∧ 1 ≤ seq
  /-- The publisher is not closed. -/
  open_ : p.closed = false
  /-- The gateway has no other market subscription. -/
  single : p.marketByGateway gatewayId = none

/-- An event that is asked for has been, and is no longer kept. -/
def Gone (p : Publisher) (fromSeq : FromSeq) : Prop :=
  ∃ symbol seq, fromSeq.lookup symbol = some seq ∧ seq ≤ p.last symbol ∧ seq < p.oldest symbol

/-- The subscription that a request makes. -/
def newSub (p : Publisher) (gatewayId : GatewayId) (symbols : List SymbolId) (fromSeq : FromSeq) :
    Subscription where
  id := p.nextId
  gatewayId := gatewayId
  capacity := p.options.queueCapacity +
    (fromSeq.entries.map fun entry => (p.replayed entry.1 entry.2).length).sum
  items := (p.asked symbols).flatMap (p.replayOf fromSeq)

/-- What a request can do. -/
inductive Subscribes (p : Publisher) (gatewayId : GatewayId) (symbols : List SymbolId)
    (fromSeq : FromSeq) : Publisher → SubscribeResult → List SymbolId → Prop
  /-- A check refuses. -/
  | refused {result : SubscribeResult} (fails : ¬ p.Passes gatewayId symbols fromSeq)
      (subscription : result.subscription = none) (error : result.error ≠ .none)
      (other : result.error ≠ .tooOld) : Subscribes p gatewayId symbols fromSeq p result []
  /-- A wanted event is gone. -/
  | tooOld {result : SubscribeResult} (passes : p.Passes gatewayId symbols fromSeq)
      (gone : p.Gone fromSeq) (subscription : result.subscription = none)
      (error : result.error = .tooOld) :
      Subscribes p gatewayId symbols fromSeq
        { p with stats := { p.stats with tooOldRefusals := p.stats.tooOldRefusals + 1 } } result []
  /-- The subscription is registered. -/
  | registered (stats : PublisherStats) (passes : p.Passes gatewayId symbols fromSeq)
      (gone : ¬ p.Gone fromSeq) :
      Subscribes p gatewayId symbols fromSeq
        (register { p with stats } (p.newSub gatewayId symbols fromSeq)
          { live := symbolStates fromSeq (p.asked symbols) })
        { subscription := some p.nextId }
        ((p.asked symbols).filter fun symbol => (fromSeq.lookup symbol).isNone)

/-- The subscription that a request makes is registered. -/
theorem Passes.register_spec (hpasses : p.Passes gatewayId symbols fromSeq) (h : p.Wf)
    (stats : PublisherStats) :
    let p' := register { p with stats } (p.newSub gatewayId symbols fromSeq)
      { live := symbolStates fromSeq (p.asked symbols) }
    p'.Wf ∧
    p'.feed p.nextId = ⟨some { live := symbolStates fromSeq (p.asked symbols) },
      p.newSub gatewayId symbols fromSeq⟩ ∧
    (∀ x, x ≠ p.nextId → p'.feed x = p.feed x) ∧ SameRecord { p with nextId := p.nextId + 1 } p' := by
  have hstats : Wf { p with stats } := h.congr rfl rfl rfl rfl rfl rfl
  obtain ⟨hwf, hfeed, hother, hrecord⟩ := Publisher.register_spec hstats
    (p.newSub gatewayId symbols fromSeq) { live := symbolStates fromSeq (p.asked symbols) } rfl rfl
    hpasses.single hpasses.open_ (fun hkind => by cases hkind)
  exact ⟨hwf, hfeed, hother, hrecord.symbolList, hrecord.options, hrecord.nextId, hrecord.closed,
    hrecord.history, hrecord.lastSeq, hrecord.routed⟩

/-- No symbol is asked for twice. -/
theorem nodup_asked (p : Publisher) (symbols : List SymbolId) : (p.asked symbols).Nodup :=
  List.nodup_dedup _

/-- **Requests.** A request is answered: the replay always fits. -/
theorem subscribe_spec (p : Publisher) (gatewayId : GatewayId) (symbols : List SymbolId)
    (fromSeq : FromSeq) :
    ∃ p' result snapshots, p.subscribe gatewayId symbols fromSeq = .ok (p', result, snapshots) ∧
      Subscribes p gatewayId symbols fromSeq p' result snapshots := by
  unfold subscribe
  simp only
  split_ifs with hgateway hknown hwanted hclosed hsingle
  · exact ⟨_, _, _, rfl, .refused (fun h => h.gateway hgateway) rfl (by simp) (by simp)⟩
  · refine ⟨_, _, _, rfl, .refused (fun h => ?_) rfl (by simp) (by simp)⟩
    obtain ⟨symbol, hmem, hunknown⟩ := List.any_eq_true.mp hknown
    exact of_decide_eq_true hunknown (h.known symbol hmem)
  · refine ⟨_, _, _, rfl, .refused (fun h => ?_) rfl (by simp) (by simp)⟩
    obtain ⟨entry, hmem, hbad⟩ := List.any_eq_true.mp hwanted
    obtain ⟨hasked, hone⟩ := h.wanted entry.1 entry.2 (AList.mem_lookup_iff.mpr hmem)
    simp only [Bool.or_eq_true, decide_eq_true_eq] at hbad
    rcases hbad with hbad | hbad
    · exact hbad hasked
    · exact absurd hone (not_le.mpr hbad)
  · exact ⟨_, _, _, rfl, .refused (fun h => by simp [h.open_] at hclosed) rfl (by simp) (by simp)⟩
  · exact ⟨_, _, _, rfl, .refused (fun h => by simp [h.single] at hsingle) rfl (by simp) (by simp)⟩
  · have hpasses : p.Passes gatewayId symbols fromSeq := by
      constructor
      case gateway => exact hgateway
      case known =>
        intro symbol hmem
        by_contra hunknown
        exact hknown (List.any_eq_true.mpr ⟨symbol, hmem, decide_eq_true hunknown⟩)
      case wanted =>
        intro symbol seq hlookup
        by_contra hbad
        refine hwanted (List.any_eq_true.mpr ⟨⟨symbol, seq⟩, AList.mem_lookup_iff.mp hlookup, ?_⟩)
        simp only [Bool.or_eq_true, decide_eq_true_eq]
        by_cases hasked : symbol ∈ p.asked symbols
        · exact Or.inr (by_contra fun hone => hbad ⟨hasked, not_lt.mp hone⟩)
        · exact Or.inl hasked
      case open_ => simpa using hclosed
      case single => simpa using hsingle
    cases hgone : fromSeq.entries.find? fun entry =>
        entry.2 ≤ p.last entry.1 && entry.2 < p.oldest entry.1 with
    | some entry =>
      have hmem := List.mem_of_find?_eq_some hgone
      have hold := List.find?_some hgone
      simp only [Bool.and_eq_true, decide_eq_true_eq] at hold
      exact ⟨_, _, _, rfl, .tooOld hpasses
        ⟨entry.1, entry.2, AList.mem_lookup_iff.mpr hmem, hold.1, hold.2⟩ rfl rfl⟩
    | none =>
      -- Nothing that is asked for has left the window.
      have hkept : ¬ p.Gone fromSeq := by
        rintro ⟨symbol, seq, hlookup, hlast, holdest⟩
        have hnot := List.find?_eq_none.mp hgone ⟨symbol, seq⟩ (AList.mem_lookup_iff.mp hlookup)
        simp [hlast, holdest] at hnot
      set sub : Subscription := { id := p.nextId, gatewayId, capacity := p.options.queueCapacity +
        (fromSeq.entries.map fun entry => (p.replayed entry.1 entry.2).length).sum }
      have hfits := replay_fits p fromSeq (p.nodup_asked symbols)
      have hreplay : p.replay fromSeq (p.asked symbols) sub = _ :=
        replay_spec (p.asked symbols) sub rfl (by show 0 + _ ≤ p.options.queueCapacity + _; omega)
      rw [hreplay]
      exact ⟨_, _, _, rfl, .registered _ hpasses hkept⟩

/-! ## Requests for replies -/

/-- The checks of a request for replies. -/
structure PassesReplies (p : Publisher) (gatewayId : GatewayId) : Prop where
  /-- The gateway has a name. -/
  gateway : gatewayId ≠ ""
  /-- The publisher is not closed. -/
  open_ : p.closed = false
  /-- The gateway does not listen already. -/
  single : p.repliesByGateway gatewayId = none

/-- The subscription that a request for replies makes. -/
def newRepliesSub (p : Publisher) (gatewayId : GatewayId) : Subscription where
  id := p.nextId
  gatewayId := gatewayId
  capacity := p.options.queueCapacity

/-- A subscription to replies is one more in the table, with nothing queued. -/
theorem PassesReplies.register_spec (hpasses : p.PassesReplies gatewayId) (h : p.Wf) :
    let p' := p.register (p.newRepliesSub gatewayId) { kind := .replies }
    p'.Wf ∧ p'.feed p.nextId = ⟨some { kind := .replies }, p.newRepliesSub gatewayId⟩ ∧
    (∀ x, x ≠ p.nextId → p'.feed x = p.feed x) ∧ SameRecord { p with nextId := p.nextId + 1 } p' :=
  Publisher.register_spec h (p.newRepliesSub gatewayId) { kind := .replies } rfl rfl hpasses.single
    hpasses.open_ (fun _ => rfl)

/-- A request that passes is registered. -/
theorem subscribeReplies_registered (h : p.PassesReplies gatewayId) :
    p.subscribeReplies gatewayId =
      (p.register (p.newRepliesSub gatewayId) { kind := .replies }, { subscription := some p.nextId }) := by
  unfold subscribeReplies
  rw [if_neg h.gateway, h.open_, if_neg Bool.false_ne_true, h.single, if_neg (by simp)]
  rfl

/-- A request that does not pass changes nothing. -/
theorem subscribeReplies_refused (h : ¬ p.PassesReplies gatewayId) :
    (p.subscribeReplies gatewayId).1 = p ∧ (p.subscribeReplies gatewayId).2.subscription = none ∧
      (p.subscribeReplies gatewayId).2.error ≠ .none := by
  unfold subscribeReplies
  split_ifs with hgateway hclosed hsingle
  · exact ⟨rfl, rfl, by simp⟩
  · exact ⟨rfl, rfl, by simp⟩
  · exact ⟨rfl, rfl, by simp⟩
  · exact absurd ⟨hgateway, Bool.not_eq_true _ ▸ hclosed, Option.not_isSome_iff_eq_none.mp hsingle⟩ h

/-! ## Actions -/

/-- The records of a publisher after an action. -/
def noted (p : Publisher) : Action → Publisher
  | .take output => if p.closed then p else p.record output
  | _ => p

/-- **Actions.** Every action is taken, and each subscription that is there sees it by itself. -/
theorem act_spec (h : p.Wf) (a : Action) :
    ∃ p', p.act a = .ok p' ∧ p'.Wf ∧ (∀ x, x < p.nextId → p'.feed x = (p.feed x).act a) ∧
      p.nextId ≤ p'.nextId ∧ SameRecord { p.noted a with nextId := p'.nextId } p' := by
  cases a with
  | take output =>
    obtain ⟨p', htake, hwf, hfeed, hrecord⟩ := take_spec h output
    refine ⟨p', htake, hwf, fun x _ => hfeed x, ?_, ?_⟩
    · rw [hrecord.nextId]
      split_ifs
      · exact le_rfl
      · cases output <;> exact le_rfl
    · exact ⟨hrecord.symbolList, hrecord.options, rfl, hrecord.closed, hrecord.history,
        hrecord.lastSeq, hrecord.routed⟩
  | subscribe gatewayId symbols fromSeq =>
    obtain ⟨p', result, snapshots, hsubscribe, hcases⟩ := p.subscribe_spec gatewayId symbols fromSeq
    have hact : p.act (.subscribe gatewayId symbols fromSeq) = .ok p' := by
      rw [act, hsubscribe]
      rfl
    refine ⟨p', hact, ?_⟩
    cases hcases with
    | refused => exact ⟨h, fun x _ => rfl, le_rfl, SameRecord.refl p⟩
    | tooOld =>
      exact ⟨h.congr rfl rfl rfl rfl rfl rfl, fun x _ => rfl, le_rfl, rfl, rfl, rfl, rfl, rfl, rfl, rfl⟩
    | registered stats passes gone =>
      -- The new subscription has an id of its own, and no other changes.
      obtain ⟨hwf, -, hother, hrecord⟩ := passes.register_spec h stats
      refine ⟨hwf, fun x hx => hother x hx.ne, ?_, ?_⟩
      · rw [hrecord.nextId]
        exact Nat.le_succ _
      · exact ⟨hrecord.symbolList, hrecord.options, rfl, hrecord.closed, hrecord.history,
          hrecord.lastSeq, hrecord.routed⟩
  | subscribeReplies gatewayId =>
    refine ⟨_, rfl, ?_⟩
    by_cases hpasses : p.PassesReplies gatewayId
    · rw [subscribeReplies_registered hpasses]
      obtain ⟨hwf, -, hother, hrecord⟩ := hpasses.register_spec h
      refine ⟨hwf, fun x hx => hother x hx.ne, ?_, ?_⟩
      · rw [hrecord.nextId]
        exact Nat.le_succ _
      · exact ⟨hrecord.symbolList, hrecord.options, rfl, hrecord.closed, hrecord.history,
          hrecord.lastSeq, hrecord.routed⟩
    · rw [(subscribeReplies_refused hpasses).1]
      exact ⟨h, fun x _ => rfl, le_rfl, SameRecord.refl p⟩
  | unsubscribe id =>
    have hrecord := sameRecord_drop p id .unsubscribed
    refine ⟨_, rfl, h.drop id .unsubscribed, fun x _ => ?_, hrecord.nextId.ge, ?_⟩
    · rw [unsubscribe, feed_drop]
      unfold Feed.act
      have hid : (p.feed x).sub.id = x := h.id_eq x
      rw [hid]
      simp only [eq_comm]
    · exact ⟨hrecord.symbolList, hrecord.options, rfl, hrecord.closed, hrecord.history,
        hrecord.lastSeq, hrecord.routed⟩
  | nextFor id =>
    obtain ⟨hid, hgateway, hend, -⟩ := (p.subs id).nextFor_spec
    refine ⟨_, rfl, h.withSub id hid hgateway hend, fun x _ => ?_, le_rfl, rfl, rfl, rfl, rfl, rfl,
      rfl, rfl⟩
    -- Only the queue of the subscription that reads gets shorter.
    unfold Feed.act feed nextFor
    simp only [h.id_eq]
    by_cases hx : x = id
    · rw [hx, Function.update_self, if_pos rfl]
    · rw [Function.update_of_ne hx, if_neg fun he => hx he.symm]

/-! ## New subscriptions -/

/-- What an action does to the ids: it hands out the next one if it registers a subscription. -/
inductive Hands (p : Publisher) : Action → Publisher → Prop
  /-- No id is handed out. -/
  | none {a : Action} {p' : Publisher} (nextId : p'.nextId = p.nextId) : Hands p a p'
  /-- A market subscription gets it. -/
  | market (stats : PublisherStats) (gatewayId : GatewayId) (symbols : List SymbolId)
      (fromSeq : FromSeq) (passes : p.Passes gatewayId symbols fromSeq) :
      Hands p (.subscribe gatewayId symbols fromSeq)
        (register { p with stats } (p.newSub gatewayId symbols fromSeq)
          { live := symbolStates fromSeq (p.asked symbols) })
  /-- A subscription of replies gets it. -/
  | replies (gatewayId : GatewayId) (passes : p.PassesReplies gatewayId) :
      Hands p (.subscribeReplies gatewayId)
        (p.register (p.newRepliesSub gatewayId) { kind := .replies })

/-- Every action hands out one subscription at most. -/
theorem act_hands {a : Action} (h : p.Wf) (hact : p.act a = .ok p') : Hands p a p' := by
  cases a with
  | take output =>
    obtain ⟨_, htake, -, -, hrecord⟩ := take_spec h output
    obtain rfl := Except.ok.inj (hact.symm.trans htake)
    refine .none (hrecord.nextId.trans ?_)
    split_ifs
    · rfl
    · cases output <;> rfl
  | subscribe gatewayId symbols fromSeq =>
    obtain ⟨_, _, _, hsubscribe, hcases⟩ := p.subscribe_spec gatewayId symbols fromSeq
    rw [act, hsubscribe] at hact
    obtain rfl := Except.ok.inj hact
    cases hcases with
    | refused => exact .none rfl
    | tooOld => exact .none rfl
    | registered stats passes => exact .market stats gatewayId symbols fromSeq passes
  | subscribeReplies gatewayId =>
    obtain rfl := Except.ok.inj hact
    -- Only a request that passes gets an id.
    by_cases hpasses : p.PassesReplies gatewayId
    · rw [subscribeReplies_registered hpasses]
      exact .replies gatewayId hpasses
    · exact .none (congrArg Publisher.nextId (subscribeReplies_refused hpasses).1)
  | unsubscribe id =>
    obtain rfl := Except.ok.inj hact
    exact .none (sameRecord_drop p id .unsubscribed).nextId
  | nextFor id =>
    obtain rfl := Except.ok.inj hact
    exact .none rfl

/-- The feed of a subscription that is handed out, and the table around it. -/
theorem Hands.feed {a : Action} (h : p.Wf) (hhands : Hands p a p') :
    p'.nextId = p.nextId ∨ p'.nextId = p.nextId + 1 ∧ ∃ entry sub, p'.feed p.nextId = ⟨some entry, sub⟩ := by
  cases hhands with
  | none nextId => exact Or.inl nextId
  | market stats gatewayId symbols fromSeq passes =>
    obtain ⟨-, hfeed, -, hrecord⟩ := passes.register_spec h stats
    exact Or.inr ⟨hrecord.nextId, _, _, hfeed⟩
  | replies gatewayId passes =>
    obtain ⟨-, hfeed, -, hrecord⟩ := passes.register_spec h
    exact Or.inr ⟨hrecord.nextId, _, _, hfeed⟩

end Publisher

end OrderBookEngine
