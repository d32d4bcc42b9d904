import OrderBookEngine.Properties.Handlers
import OrderBookEngine.Properties.Shutdown

/-!
# The end of the feed server

`EngineFeedServer::stop` comes last and waits for the handlers. When the publisher has closed, no handler
waits for another, and what each has left to do only gets less (`handlers_finish`). A handler that has not
just polled in vain first writes all that its subscription was given (`handlers_drain`). One that has takes
the end of the subscription for the end of its queue, and what was pushed in between is lost.
-/

namespace OrderBookEngine

namespace EngineNode

variable {n n' : EngineNode}

/-- Nobody is waiting to be dropped by a publisher that has closed. -/
def Clear (n : EngineNode) : Prop := n.publisher.closed = true → n.tooSlow = []

/-- A publisher that is closed stays so through a step of the node. -/
theorem closed_step {a : Action} (h : n.publisher.Wf) (hclosed : n.publisher.closed = true)
    (hstep : n.step a = some n') : n'.publisher.Wf ∧ n'.publisher.closed = true := by
  cases does_of_step hstep with
  | queue worker publisher outbox => exact publisher ▸ ⟨h, hclosed⟩
  | work i item w idle run worker publisher outbox => exact publisher ▸ ⟨h, hclosed⟩
  | push i output outputs pending worker publisher outbox => exact publisher ▸ ⟨h, hclosed⟩
  | route output open_ act worker outbox =>
    rw [hclosed] at open_
    cases open_
  | publisher b takes act worker outbox =>
    obtain ⟨_, hact, hwf, -⟩ := Publisher.act_spec h b
    obtain rfl := Except.ok.inj (act.symm.trans hact)
    exact ⟨hwf, by rw [(Publisher.settings_act h act).2, hclosed, Bool.true_or]⟩

/-- A publisher that is closed stays so through a run of the node. -/
theorem closed_run {actions : List Action} (h : n.publisher.Wf) (hclosed : n.publisher.closed = true)
    (hrun : n.run actions = some n') : n'.publisher.Wf ∧ n'.publisher.closed = true := by
  induction actions generalizing n with
  | nil => exact Option.some.inj hrun ▸ ⟨h, hclosed⟩
  | cons a actions ih =>
    obtain ⟨n₁, hstep, hrest⟩ := Option.bind_eq_some_iff.mp hrun
    obtain ⟨h₁, hclosed₁⟩ := closed_step h hclosed hstep
    exact ih h₁ hclosed₁ hrest

/-- A step of the node makes nobody wait there. -/
theorem Clear.step {a : Action} (h : n.Clear) (hstep : n.step a = some n') : n'.Clear := by
  have hsame : n'.publisher.closed = n.publisher.closed → n'.tooSlow = n.tooSlow → n'.Clear :=
    fun hclosed hslow hc => hslow.trans (h (hclosed.symm.trans hc))
  -- Nobody gets the lock while the publisher has slow ones to drop.
  have hlocked : ∀ {f : Publisher → Publisher}, n.locked f = some n' → n'.Clear := by
    intro f hf
    unfold locked at hf
    split_ifs at hf with hfree
    obtain rfl := Option.some.inj hf
    exact fun _ => hfree
  cases a with
  | submit i item =>
    obtain rfl := Option.some.inj hstep
    exact hsame rfl rfl
  | closeOutbox =>
    obtain rfl := Option.some.inj hstep
    exact hsame rfl rfl
  | work i =>
    replace hstep : n.work i = some n' := hstep
    obtain ⟨t, -, rfl⟩ := Option.map_eq_some_iff.mp hstep
    exact hsame rfl rfl
  | push i =>
    replace hstep : n.push i = some n' := hstep
    unfold push at hstep
    simp only at hstep
    split at hstep
    · cases hstep
    · obtain rfl := Option.some.inj hstep
      exact hsame rfl rfl
  | miss id =>
    replace hstep : n.miss id = some n' := hstep
    unfold miss at hstep
    split_ifs at hstep with hclosed
    split at hstep
    · cases hstep
    · split_ifs at hstep
      obtain rfl := Option.some.inj hstep
      exact fun hc => absurd hc hclosed
  | route =>
    replace hstep : n.route = some n' := hstep
    unfold route at hstep
    split_ifs at hstep
    split at hstep
    · cases hstep
    · obtain ⟨p, -, rfl⟩ := Option.map_eq_some_iff.mp hstep
      exact fun _ => rfl
  | subscribe gatewayId symbols fromSeq =>
    replace hstep : n.subscribe gatewayId symbols fromSeq = some n' := hstep
    unfold subscribe at hstep
    split_ifs at hstep with hfree
    obtain ⟨x, -, hn'⟩ := Option.map_eq_some_iff.mp hstep
    simp only at hn'
    split at hn'
    · rw [← hn']
      exact fun _ => hfree
    · rw [← hn']
      exact fun _ => hfree
  | request id =>
    replace hstep : n.request id = some n' := hstep
    unfold request at hstep
    split at hstep
    · cases hstep
    · obtain ⟨i, -, rfl⟩ := Option.map_eq_some_iff.mp hstep
      exact hsame rfl rfl
  | subscribeReplies gatewayId =>
    replace hstep : n.locked (fun p => (p.subscribeReplies gatewayId).1) = some n' := hstep
    exact hlocked hstep
  | unsubscribe id =>
    replace hstep : n.locked (fun p => p.unsubscribe id) = some n' := hstep
    exact hlocked hstep
  | nextFor id =>
    obtain rfl := Option.some.inj hstep
    exact hsame rfl rfl

/-- Neither does a run of the node. -/
theorem Clear.run {actions : List Action} (h : n.Clear) (hrun : n.run actions = some n') : n'.Clear := by
  induction actions generalizing n with
  | nil => exact Option.some.inj hrun ▸ h
  | cons a actions ih =>
    obtain ⟨n₁, hstep, hrest⟩ := Option.bind_eq_some_iff.mp hrun
    exact ih (h.step hstep) hrest

end EngineNode

namespace Process

variable {pb : Protobuf} {p p' : Process} {actions : List Action}

/-- A run of the process runs the node. -/
theorem node_run (hrun : p.run pb actions = some p') : ∃ actions, p.node.run actions = some p'.node := by
  induction actions generalizing p with
  | nil => exact ⟨[], congrArg (Option.map Process.node) hrun⟩
  | cons a actions ih =>
    obtain ⟨p₁, hstep, hrest⟩ := Option.bind_eq_some_iff.mp hrun
    obtain ⟨first, hfirst, -⟩ := node_step hstep
    obtain ⟨rest, hrest⟩ := ih hrest
    refine ⟨first ++ rest, ?_⟩
    unfold EngineNode.run at hfirst hrest ⊢
    rw [List.foldlM_append, hfirst]
    exact hrest

end Process

/-- How far a handler is from its end. -/
def PumpStage.rank : PumpStage → ℕ
  | .subscribing => 4
  | .holding _ => 4
  | .head => 3
  | .empty => 2
  | .returned _ => 1
  | .left _ => 0

namespace FeedServer

variable {pb : Protobuf} {s s' : FeedServer} {id : SubscriberId} {h : Handler}

/-- A server whose publisher has closed. -/
structure Closed (pb : Protobuf) (s : FeedServer) : Prop where
  /-- The server is sound. -/
  sound : s.Sound
  /-- The process is running. -/
  running : s.process.Running pb
  /-- Nobody is waiting to be dropped. -/
  clear : s.process.node.Clear
  /-- The publisher is closed. -/
  closed : s.publisher.closed = true

/-- What the handlers do by themselves, and their clients. -/
inductive Action.OfHandler : SubscriberId → Action → Prop
  /-- A snapshot is requested for it. -/
  | request (id : SubscriberId) : OfHandler id (.request id)
  /-- It starts to pump. -/
  | pump (id : SubscriberId) : OfHandler id (.pump id)
  /-- It sees that the call is cancelled. -/
  | cancelled (id : SubscriberId) : OfHandler id (.cancelled id)
  /-- It takes an item, or finds none. -/
  | poll (id : SubscriberId) : OfHandler id (.poll id)
  /-- It asks whether its subscription has ended. -/
  | check (id : SubscriberId) : OfHandler id (.check id)
  /-- It writes the message that it holds. -/
  | write (id : SubscriberId) (written : Bool) : OfHandler id (.write id written)
  /-- It unsubscribes. -/
  | leave (id : SubscriberId) : OfHandler id (.leave id)

/-- A step that a handler makes, or its client. -/
def Finishes (pb : Protobuf) (s s' : FeedServer) : Prop :=
  ∃ id a, Action.OfHandler id a ∧ s.step pb a = some s'

/-- Every handler has left. -/
def Over (s : FeedServer) : Prop := ∀ id h, s.handlers id = some h → h.stage.isLeft = true

/-- What a handler has left to do. -/
def leftOf (s : FeedServer) (id : SubscriberId) : ℕ :=
  ((s.handlers id).map fun h => h.stage.rank).getD 0 + 2 * (s.publisher.subs id).items.length +
    (s.process.node.requests id).length

/-- The steps that are left to all handlers. -/
def left (s : FeedServer) : ℕ := (Finset.range s.publisher.nextId).sum s.leftOf

/-- Nothing is pushed to a subscription at a closed publisher. -/
theorem Closed.ended (hs : s.Closed pb) (hh : s.handlers id = some h) :
    (s.publisher.feed id).entry = none ∧ (s.publisher.subs id).endReason ≠ .none := by
  have hnone : (s.publisher.feed id).entry = none := hs.sound.publisher.shut hs.closed id
  refine ⟨hnone, fun hopen => ?_⟩
  have hsome := (hs.sound.serves id h hh).channel.open_.mp hopen
  rw [hnone] at hsome
  cases hsome

/-- The server stays closed. -/
theorem Closed.step {a : Action} (hs : s.Closed pb) (hstep : s.step pb a = some s') : s'.Closed pb := by
  obtain ⟨actions, hrun⟩ := process_step hstep
  obtain ⟨nodeActions, hnode⟩ := Process.node_run hrun
  exact ⟨hs.sound.step hstep, hs.running.run hrun, hs.clear.run hnode,
    (EngineNode.closed_run hs.sound.publisher hs.closed hnode).2⟩

/-- A step of one handler: it has less left, and the others have what they had. -/
theorem left_lt (hid : id < s.publisher.nextId) (hnext : s'.publisher.nextId = s.publisher.nextId)
    (hother : ∀ x, x ≠ id → s'.leftOf x = s.leftOf x) (hless : s'.leftOf id < s.leftOf id) :
    s'.left < s.left := by
  unfold left
  rw [hnext]
  refine Finset.sum_lt_sum (fun x _ => ?_) ⟨id, Finset.mem_range.mpr hid, hless⟩
  by_cases hx : x = id
  · exact hx ▸ hless.le
  · exact (hother x hx).le

/-- A handler that goes on to a later stage. -/
theorem left_moves (hid : id < s.publisher.nextId) {h' : Handler} (hh : s.handlers id = some h)
    (hprocess : s'.process = s.process) (hhandlers : s'.handlers = Function.update s.handlers id (some h'))
    (hrank : h'.stage.rank < h.stage.rank) : s'.left < s.left := by
  have hpublisher : s'.publisher = s.publisher := congrArg (fun p => p.node.publisher) hprocess
  refine left_lt hid (by rw [hpublisher]) (fun x hx => ?_) ?_
  · unfold leftOf
    rw [hpublisher, hprocess, hhandlers, Function.update_of_ne hx]
  · unfold leftOf
    rw [hpublisher, hprocess, hhandlers, Function.update_self, hh]
    show h'.stage.rank + _ + _ < h.stage.rank + _ + _
    omega

/-- **One step.** Less is left. -/
theorem left_finishes (hs : s.Closed pb) (hstep : Finishes pb s s') : s'.left < s.left := by
  have hid : ∀ {id h}, s.handlers id = some h → id < s.publisher.nextId := fun hh =>
    ((hs.sound.handled _).mp (Option.isSome_of_eq_some hh)).2
  obtain ⟨id, a, ha, hstep⟩ := hstep
  cases ha with
  | request =>
    obtain ⟨h, hat, honNode⟩ := Option.bind_eq_some_iff.mp hstep
    obtain ⟨hh, -⟩ := handlerAt_spec hat
    obtain ⟨node, hnode, rfl⟩ := onNode_spec honNode
    replace hnode : s.process.node.request id = some node := hnode
    unfold EngineNode.request at hnode
    cases hrequests : s.process.node.requests id with
    | nil =>
      rw [hrequests] at hnode
      cases hnode
    | cons symbol symbols =>
      rw [hrequests] at hnode
      obtain ⟨i, -, rfl⟩ := Option.map_eq_some_iff.mp hnode
      -- One request fewer is before this handler, and the others keep theirs.
      refine left_lt (hid hh) rfl (fun x hx => ?_) ?_
      · show _ + _ + (Function.update s.process.node.requests id symbols x).length = _
        rw [Function.update_of_ne hx]
        rfl
      · show _ + _ + (Function.update s.process.node.requests id symbols id).length < _ + _ + _
        rw [Function.update_self, hrequests]
        exact Nat.lt_succ_self _
  | pump =>
    obtain ⟨h, hat, hstep⟩ := Option.bind_eq_some_iff.mp hstep
    obtain ⟨hh, hstage⟩ := handlerAt_spec hat
    split_ifs at hstep
    obtain rfl := Option.some.inj hstep
    refine left_moves (hid hh) hh rfl rfl ?_
    rw [hstage]
    exact Nat.lt_succ_self 3
  | cancelled =>
    obtain ⟨h, hat, rfl⟩ := Option.map_eq_some_iff.mp hstep
    obtain ⟨hh, hstage⟩ := handlerAt_spec hat
    refine left_moves (hid hh) hh rfl rfl ?_
    rw [hstage]
    exact Nat.lt_add_of_pos_right Nat.two_pos
  | poll =>
    obtain ⟨h, hh, hstage, hprocess, hcases⟩ := hs.sound.poll_cases hstep
    have hpublisher : s'.publisher = s.publisher.nextFor id :=
      congrArg (fun p => p.node.publisher) hprocess
    have hsub : ∀ x, s'.publisher.subs x =
        if x = id then (s.publisher.subs id).nextFor.1 else s.publisher.subs x := fun x => by
      rw [hpublisher]
      exact Function.update_apply ..
    have hother : ∀ h' : Handler, s'.handlers = Function.update s.handlers id (some h') →
        ∀ x, x ≠ id → s'.leftOf x = s.leftOf x := by
      intro h' hhandlers x hx
      unfold leftOf
      rw [hsub, if_neg hx, hprocess, hhandlers, Function.update_of_ne hx]
    -- Without an item the handler goes on to its check; with one it holds a message.
    rcases hcases with ⟨hitems, hhandlers⟩ | ⟨item, items, message, hitems, -, hhandlers⟩
    · refine left_lt (hid hh) (by rw [hpublisher]; rfl) (hother _ hhandlers) ?_
      unfold leftOf
      rw [hsub, if_pos rfl, hprocess, hhandlers, Function.update_self, hh]
      simp [Subscription.nextFor, hitems, hstage, PumpStage.rank]
    · -- The item counts for more than the message that it becomes.
      refine left_lt (hid hh) (by rw [hpublisher]; rfl) (hother _ hhandlers) ?_
      unfold leftOf
      rw [hsub, if_pos rfl, hprocess, hhandlers, Function.update_self, hh]
      simp [Subscription.nextFor, hitems, hstage, PumpStage.rank]
      omega
  | check =>
    obtain ⟨h, hat, hstep⟩ := Option.map_eq_some_iff.mp hstep
    obtain ⟨hh, hstage⟩ := handlerAt_spec hat
    obtain ⟨-, hended⟩ := hs.ended hh
    -- The subscription has ended, so the check does not go back to the queue.
    split at hstep
    · exact absurd ‹_› hended
    · simp only at hstep
      split_ifs at hstep
      all_goals
        subst hstep
        refine left_moves (hid hh) hh rfl rfl ?_
        rw [hstage]
        exact Nat.lt_succ_self 1
  | write written =>
    obtain ⟨h, hh, hstep⟩ := Option.bind_eq_some_iff.mp hstep
    cases hstage : h.stage with
    | holding message =>
      rw [hstage] at hstep
      simp only at hstep
      split_ifs at hstep
      all_goals
        obtain rfl := Option.some.inj hstep
        refine left_moves (hid hh) hh rfl rfl ?_
        rw [hstage]
        simp [PumpStage.rank]
    | _ =>
      rw [hstage] at hstep
      cases hstep
  | leave =>
    obtain ⟨h, status, hh, hstage, hpublisher, hrequests, hhandlers⟩ := Sound.leave_cases hstep
    -- The registration is already gone, so that unsubscribing is late and does nothing.
    have hlate : s.publisher.unsubscribe id = s.publisher :=
      Publisher.unsubscribe_late (AList.lookup_eq_none.mp (hs.ended hh).1)
    rw [hlate] at hpublisher
    refine left_lt (hid hh) (by rw [hpublisher]) (fun x hx => ?_) ?_
    · unfold leftOf
      rw [hpublisher, hrequests, hhandlers, Function.update_of_ne hx]
    · unfold leftOf
      rw [hpublisher, hrequests, hhandlers, Function.update_self, hh]
      simp [hstage, PumpStage.rank]

/-- A handler that has not left can go on. -/
theorem exists_finishes (hs : s.Closed pb) (hnot : ¬ s.Over) : ∃ s', Finishes pb s s' := by
  unfold Over at hnot
  push Not at hnot
  obtain ⟨id, h, hh, hstays⟩ := hnot
  have hat : ∀ stage, h.stage = stage → s.handlerAt id stage = some h := by
    intro stage hstage
    unfold handlerAt
    rw [hh, Option.filter_some, if_pos (decide_eq_true hstage)]
  have hgoes : ∀ {a : Action}, Action.OfHandler id a → (s.step pb a).isSome → ∃ s', Finishes pb s s' := by
    intro a ha hsome
    obtain ⟨s', hs'⟩ := Option.isSome_iff_exists.mp hsome
    exact ⟨s', id, a, ha, hs'⟩
  -- At every stage but the last its handler has a step.
  cases hstage : h.stage with
  | subscribing =>
    by_cases hrequests : s.process.node.requests id = []
    · refine hgoes (.pump id) ?_
      show (s.pump id).isSome
      unfold pump
      rw [hat _ hstage]
      simp [hrequests]
    · refine hgoes (.request id) ?_
      show (s.request id).isSome
      unfold request onNode
      rw [hat _ hstage]
      show ((s.process.node.request id).map _).isSome
      rw [Option.isSome_map, hs.running.isSome_request]
      exact hrequests
  | head => exact hgoes (.poll id) (hs.sound.served.polls id h hh hstage)
  | empty =>
    refine hgoes (.check id) ?_
    show (s.check id).isSome
    unfold check
    rw [hat _ hstage]
    rfl
  | holding message =>
    refine hgoes (.write id true) ?_
    show (s.write id true).isSome
    unfold write
    rw [hh]
    simp [hstage]
  | returned status =>
    refine hgoes (.leave id) ?_
    show (s.leave id).isSome
    unfold leave onNode
    rw [hh]
    simp [hstage, EngineNode.step, EngineNode.locked, hs.clear hs.closed]
  | left status =>
    rw [hstage] at hstays
    exact absurd rfl hstays

/-- A run of the server that has closed the publisher ends in a closed server. -/
theorem closed_of_run {p : Process} {partitions : ℕ} {instruments : List Instrument}
    {options : PublisherOptions} {address : String} {actions : List Action}
    (hmake : Process.make partitions instruments options address = .ok p)
    (hrun : run pb { process := p } actions = some s) (hclosed : s.publisher.closed = true) :
    s.Closed pb := by
  obtain ⟨processActions, hprocess⟩ := process_run hrun
  have hrunning := Process.running_make pb hmake
  obtain ⟨nodeActions, hnode⟩ := Process.node_run hprocess
  obtain ⟨-, -, -, -, -, hopen, -⟩ := EngineNode.setup_of_make (Process.node_make hmake)
  have hclear : p.node.Clear := fun hc => absurd (hopen.symm.trans hc) Bool.false_ne_true
  exact ⟨(sound_start hmake).run hrun, hrunning.run hprocess, hclear.run hnode, hclosed⟩

/-- **The feed server stops.** From every state in which the publisher has closed, whatever the handlers had
come to, their steps come to an end in every order, whether their clients read or go away. Where they end
every handler has left. -/
theorem handlers_finish (pb : Protobuf) (partitions : ℕ) (instruments : List Instrument)
    (options : PublisherOptions) (address : String) (p : Process)
    (hmake : Process.make partitions instruments options address = .ok p) (actions : List Action)
    (s : FeedServer) (hrun : run pb { process := p } actions = some s)
    (hclosed : s.publisher.closed = true) : Settles (Finishes pb) Over s := by
  refine @Settles.of_measure _ _ _ (Closed pb) _ _ _ _ left ?_ ?_ (closed_of_run hmake hrun hclosed)
  · rintro t t' ht hstep
    refine ⟨?_, left_finishes ht hstep⟩
    obtain ⟨id, a, -, hstep⟩ := hstep
    exact ht.step hstep
  · exact fun t ht hnot => exists_finishes ht hnot

/-- The outbox has been closed while the handler still had to find out. -/
theorem handlers_finish_after_close :
    ∃ p s s', Process.make 1 [{ id := 1, partition := 0, cfg := { poolCapacity := 4 } }] {} "sequencer" = .ok p ∧
      run generated { process := p } (listenThenStop.take 24) = some s ∧
      Relation.ReflTransGen (Finishes generated) s s' ∧ s'.Over := by
  have hchain : ((Process.make 1 [{ id := 1, partition := 0, cfg := { poolCapacity := 4 } }] {}
      "sequencer").toOption.bind fun p =>
        (run generated { process := p } (listenThenStop.take 24)).map fun s => s.publisher.closed) =
      some true := by decide +kernel
  obtain ⟨p, hmake, hchain⟩ := Option.bind_eq_some_iff.mp hchain
  obtain ⟨s, hrun, hclosed⟩ := Option.map_eq_some_iff.mp hchain
  have hmake := EngineNode.ok_of_toOption hmake
  obtain ⟨s', hsteps, hover⟩ := (handlers_finish generated _ _ _ _ p hmake _ s hrun hclosed).reaches
  exact ⟨p, s, s', hmake, hrun, hsteps, hover⟩

/-! ## Draining -/

/-- A handler that will have written what it was given, unless its client goes. -/
def Drains (h : Handler) (f : Feed) : Prop :=
  (h.stage.status? = none ∧ h.stage ≠ .empty) ∨ f.sub.items = [] ∨
    h.stage.status? = some wentAway ∨ h.stage.status? = some streamBroken

/-- What has been given to a handler of a closed publisher stays, and so does that it drains. -/
structure Keeps (given : List FeedItem) (id : SubscriberId) (kind : SubscriberKind) (s : FeedServer) : Prop where
  /-- The feed has been given these items. -/
  given : (s.publisher.feed id).given = given
  /-- The handler is there and drains its feed. -/
  drains : ∃ h, s.handlers id = some h ∧ h.kind = kind ∧ Drains h (s.publisher.feed id)

section Keeps

variable {given : List FeedItem} {kind : SubscriberKind} {x : SubscriberId}

/-- Only the feed and its handler matter. -/
theorem Keeps.same (hk : Keeps given id kind s) (hfeed : s'.publisher.feed id = s.publisher.feed id)
    (hhandlers : s'.handlers id = s.handlers id) : Keeps given id kind s' := by
  constructor
  · rw [hfeed]
    exact hk.given
  · rw [hfeed, hhandlers]
    exact hk.drains

/-- A handler goes on by itself. -/
theorem Keeps.moves {h' : Handler} (hk : Keeps given id kind s) (hh : s.handlers x = some h)
    (hpublisher : s'.publisher = s.publisher)
    (hhandlers : s'.handlers = Function.update s.handlers x (some h')) (hkind : h'.kind = h.kind)
    (hdrains : Drains h (s.publisher.feed x) → Drains h' (s.publisher.feed x)) : Keeps given id kind s' := by
  by_cases hx : x = id
  · subst hx
    constructor
    · rw [hpublisher]
      exact hk.given
    · obtain ⟨old, hold, hold', hdrain⟩ := hk.drains
      obtain rfl := Option.some.inj (hh.symm.trans hold)
      refine ⟨h', ?_, hkind.trans hold', hpublisher ▸ hdrains hdrain⟩
      rw [hhandlers, Function.update_self]
  · apply hk.same
    · rw [hpublisher]
    · rw [hhandlers, Function.update_of_ne (Ne.symm hx)]

/-- A step of the server keeps the feed on its way. -/
theorem Keeps.step {a : Action} (hs : s.Closed pb) (hk : Keeps given id kind s) (hstep : s.step pb a = some s') :
    Keeps given id kind s' := by
  have hclosed : s.publisher.closed = true := hs.closed
  cases a with
  | process action =>
    replace hstep : (if action.ofThreads then
      (s.process.step pb action).map fun process => { s with process } else none) = some s' := hstep
    split_ifs at hstep with hthreads
    obtain ⟨process, hprocess, rfl⟩ := Option.map_eq_some_iff.mp hstep
    obtain ⟨actions, hrun, hall⟩ := Process.node_step hprocess
    obtain ⟨h, hh, -, -⟩ := hk.drains
    have hdelivers := EngineNode.delivers_run hs.sound.publisher (hall hthreads) hrun
    obtain ⟨-, hkept⟩ := hdelivers.feeds id _ _ (hs.sound.serves id h hh).channel
    exact hk.same (hkept.gone (hs.ended hh).1) rfl
  | subscribe gatewayId symbols fromSeq =>
    obtain ⟨result, snapshots, hcases, hhandlers⟩ := subscribe_cases hstep
    generalize hafter : s'.publisher = p at hcases
    cases hcases with
    | refused _ subscription =>
      rw [subscription] at hhandlers
      exact hk.same (by rw [hafter]) (congrFun hhandlers id)
    | tooOld passes => exact absurd (hclosed.symm.trans passes.open_) Bool.noConfusion
    | registered stats passes => exact absurd (hclosed.symm.trans passes.open_) Bool.noConfusion
  | subscribeReplies gatewayId =>
    rcases subscribeReplies_cases hstep with ⟨hpasses, -⟩ | ⟨-, hpublisher, hhandlers⟩
    · exact absurd (hclosed.symm.trans hpasses.open_) Bool.noConfusion
    · exact hk.same (by rw [hpublisher]) (congrFun hhandlers id)
  | request x =>
    obtain ⟨hpublisher, hhandlers⟩ := request_cases hstep
    exact hk.same (by rw [hpublisher]) (congrFun hhandlers id)
  | pump x =>
    obtain ⟨h, hat, hstep⟩ := Option.bind_eq_some_iff.mp hstep
    obtain ⟨hh, -⟩ := handlerAt_spec hat
    split_ifs at hstep
    obtain rfl := Option.some.inj hstep
    exact hk.moves hh rfl rfl rfl fun _ => Or.inl ⟨rfl, PumpStage.noConfusion⟩
  | cancelled x =>
    obtain ⟨h, hat, rfl⟩ := Option.map_eq_some_iff.mp hstep
    obtain ⟨hh, -⟩ := handlerAt_spec hat
    exact hk.moves hh rfl rfl rfl fun _ => Or.inr (Or.inr (Or.inl rfl))
  | poll x =>
    obtain ⟨h, hh, -, hprocess, hcases⟩ := hs.sound.poll_cases hstep
    have hpublisher : s'.publisher = s.publisher.nextFor x :=
      congrArg (fun p => p.node.publisher) hprocess
    have hfeed : ∀ y, s'.publisher.feed y =
        if y = x then { s.publisher.feed x with sub := (s.publisher.feed x).sub.nextFor.1 }
        else s.publisher.feed y := fun y => by
      rw [hpublisher]
      unfold Publisher.feed Publisher.nextFor
      simp only [Function.update_apply]
      split_ifs with hy
      · rw [hy]
      · rfl
    by_cases hx : x = id
    · subst hx
      constructor
      · rw [hfeed, if_pos rfl, ← hk.given]
        exact (s.publisher.subs x).nextFor_spec.2.2.2
      · obtain ⟨old, hold, hkind, -⟩ := hk.drains
        obtain rfl := Option.some.inj (hh.symm.trans hold)
        rw [hfeed, if_pos rfl]
        rcases hcases with ⟨hitems, hhandlers⟩ | ⟨item, items, message, -, -, hhandlers⟩
        · refine ⟨{ h with stage := .empty }, ?_, hkind, Or.inr (Or.inl ?_)⟩
          · rw [hhandlers, Function.update_self]
          · show (s.publisher.subs x).nextFor.1.items = []
            simp [Subscription.nextFor, hitems]
        · refine ⟨{ h with stage := .holding message }, ?_, hkind, Or.inl ⟨rfl, PumpStage.noConfusion⟩⟩
          rw [hhandlers, Function.update_self]
    · apply hk.same
      · rw [hfeed, if_neg (Ne.symm hx)]
      · rcases hcases with ⟨-, hhandlers⟩ | ⟨item, items, message, -, -, hhandlers⟩
        all_goals rw [hhandlers, Function.update_of_ne (Ne.symm hx)]
  | check x =>
    obtain ⟨h, hat, hstep⟩ := Option.map_eq_some_iff.mp hstep
    obtain ⟨hh, hstage⟩ := handlerAt_spec hat
    -- It has found its queue empty, and nothing comes any more.
    have hempty : ∀ {h' : Handler}, Drains h (s.publisher.feed x) → Drains h' (s.publisher.feed x) := by
      intro h' hdrains
      unfold Drains at hdrains
      rw [hstage] at hdrains
      rcases hdrains with ⟨-, hne⟩ | hitems | hstatus | hstatus
      · exact absurd rfl hne
      · exact Or.inr (Or.inl hitems)
      · cases hstatus
      · cases hstatus
    split at hstep
    · subst hstep
      exact hk.moves hh rfl rfl rfl hempty
    · simp only at hstep
      split_ifs at hstep
      all_goals
        subst hstep
        exact hk.moves hh rfl rfl rfl hempty
  | write x written =>
    obtain ⟨h, hh, hstep⟩ := Option.bind_eq_some_iff.mp hstep
    split at hstep
    · split_ifs at hstep
      · obtain rfl := Option.some.inj hstep
        exact hk.moves hh rfl rfl rfl fun _ => Or.inl ⟨rfl, PumpStage.noConfusion⟩
      · obtain rfl := Option.some.inj hstep
        exact hk.moves hh rfl rfl rfl fun _ => Or.inr (Or.inr (Or.inr rfl))
    · cases hstep
  | leave x =>
    obtain ⟨h, status, hh, hstage, hpublisher, -, hhandlers⟩ := Sound.leave_cases hstep
    have hlate : s.publisher.unsubscribe x = s.publisher :=
      Publisher.unsubscribe_late (AList.lookup_eq_none.mp (hs.ended hh).1)
    refine hk.moves hh (hpublisher.trans hlate) hhandlers rfl fun hdrains => ?_
    unfold Drains at hdrains ⊢
    rw [hstage] at hdrains
    rcases hdrains with ⟨hnone, -⟩ | hrest
    · cases hnone
    · exact Or.inr hrest

/-- So does a run. -/
theorem Keeps.run {actions : List Action} (hs : s.Closed pb) (hk : Keeps given id kind s)
    (hrun : s.run pb actions = some s') : s'.Closed pb ∧ Keeps given id kind s' := by
  induction actions generalizing s with
  | nil => exact Option.some.inj hrun ▸ ⟨hs, hk⟩
  | cons a actions ih =>
    obtain ⟨s₁, hstep, hrest⟩ := Option.bind_eq_some_iff.mp hrun
    exact ih (hs.step hstep) (hk.step hs hstep) hrest

end Keeps

/-- **The last messages.** The publisher has closed while a handler was in its loop, and had not just polled
in vain. Whatever happens then, when the call ends and the client has not gone, the handler has written all
that its subscription had been given. -/
theorem handlers_drain (pb : Protobuf) (partitions : ℕ) (instruments : List Instrument)
    (options : PublisherOptions) (address : String) (p : Process)
    (hmake : Process.make partitions instruments options address = .ok p) (actions : List Action)
    (s : FeedServer) (hrun : run pb { process := p } actions = some s) (hclosed : s.publisher.closed = true)
    (id : SubscriberId) (h : Handler) (hh : s.handlers id = some h) (hloop : h.stage.status? = none)
    (hstage : h.stage ≠ .empty) (more : List Action) (s' : FeedServer) (hmore : s.run pb more = some s') :
    ∃ h', s'.handlers id = some h' ∧ ∀ status, h'.stage.status? = some status →
      status = wentAway ∨ status = streamBroken ∨ h.kind.Fills (s.publisher.feed id).given h'.written := by
  have hs := closed_of_run hmake hrun hclosed
  -- Nothing is offered any more, so the handler has to write what has been given by now.
  have hk : Keeps (s.publisher.feed id).given id h.kind s := ⟨rfl, h, hh, rfl, Or.inl ⟨hloop, hstage⟩⟩
  obtain ⟨hs', hgiven, h', hh', hkind, hdrains⟩ := hk.run hs hmore
  refine ⟨h', hh', fun status hstatus => ?_⟩
  unfold Drains at hdrains
  rw [hstatus] at hdrains
  rcases hdrains with ⟨hnone, -⟩ | hitems | haway | hbroken
  · cases hnone
  · by_cases hbroken : status = streamBroken
    · exact Or.inr (Or.inl hbroken)
    · -- All has been popped, and nothing is in hand.
      obtain ⟨rest, hrest, hfills⟩ := (hs'.sound.serves id h' hh').writes
      have hnothing : rest = [] := by
        cases hstage' : h'.stage with
        | returned status' | left status' =>
          rw [hstage'] at hrest hstatus
          obtain rfl := Option.some.inj hstatus
          exact List.eq_nil_of_length_eq_zero (hrest.trans (if_neg hbroken))
        | _ =>
          rw [hstage'] at hstatus
          cases hstatus
      rw [hnothing, List.append_nil, hkind] at hfills
      have hpopped : (s'.publisher.feed id).given = (s'.publisher.feed id).sub.popped := by
        unfold Feed.given
        rw [hitems, List.append_nil]
      rw [← hgiven, hpopped]
      exact Or.inr (Or.inr hfills)
  · exact Or.inl (Option.some.inj haway)
  · exact Or.inr (Or.inl (Option.some.inj hbroken))

/-- A node answers a command and stops, and its handler does something in between. -/
def answerThenStop (between : List Action) : List Action :=
  [.subscribeReplies "gateway", .pump 1, .process (.startFeed 0), .process (.openStream 0),
    .process (.read 0 (SequencerFeed.cancelAt 1)), .process (.node (.work 0)), .process (.node (.push 0))] ++
  between ++
  [.process (.node .route), .process .main, .process .main, .process (.endStream 0 ⟨.cancelled, ""⟩),
    .process .main, .process .main, .process .main, .process (.node (.work 0)), .process .main,
    .process .main, .process .main, .process (.node .route)]

/-- The handler comes to its queue after the end. -/
theorem handlers_drain_late :
    ∃ p s s' h h', Process.make 1 [{ id := 1, partition := 0, cfg := { poolCapacity := 4 } }] {} "sequencer" =
        .ok p ∧
      run generated { process := p } (answerThenStop []) = some s ∧ s.handlers 1 = some h ∧
      s.run generated [.poll 1, .write 1 true, .poll 1, .check 1] = some s' ∧ s'.handlers 1 = some h' ∧
      h.kind.Fills (s.publisher.feed 1).given h'.written := by
  -- The whole run is evaluated once, and taken apart from there.
  have hchain : ((Process.make 1 [{ id := 1, partition := 0, cfg := { poolCapacity := 4 } }] {}
      "sequencer").toOption.bind fun p => (run generated { process := p } (answerThenStop [])).bind fun s =>
        (s.handlers 1).bind fun h =>
          (s.run generated [.poll 1, .write 1 true, .poll 1, .check 1]).map fun s' =>
            (s.publisher.closed, h.stage, (s'.handlers 1).map Handler.stage)) =
      some (true, .head, some (.returned ⟨.unavailable, "engine is shutting down"⟩)) := by decide +kernel
  obtain ⟨p, hmake, hchain⟩ := Option.bind_eq_some_iff.mp hchain
  obtain ⟨s, hrun, hchain⟩ := Option.bind_eq_some_iff.mp hchain
  obtain ⟨h, hh, hchain⟩ := Option.bind_eq_some_iff.mp hchain
  obtain ⟨s', hmore, hlast⟩ := Option.map_eq_some_iff.mp hchain
  obtain ⟨hclosed, hstage, hend⟩ : s.publisher.closed = true ∧ h.stage = .head ∧
      (s'.handlers 1).map Handler.stage = some (.returned ⟨.unavailable, "engine is shutting down"⟩) := by
    simpa using hlast
  have hmake := EngineNode.ok_of_toOption hmake
  obtain ⟨h', hh', hdrains⟩ := handlers_drain generated _ _ _ _ p hmake _ s hrun hclosed 1 h hh
    (by rw [hstage]; rfl) (by rw [hstage]; exact PumpStage.noConfusion) _ s' hmore
  rw [hh', Option.map_some, Option.some_inj] at hend
  refine ⟨p, s, s', h, h', hmake, hrun, hh, hmore, hh', ?_⟩
  rcases hdrains _ (by rw [hend]; rfl) with haway | hbroken | hfills
  · exact absurd haway (by decide)
  · exact absurd hbroken (by decide)
  · exact hfills

/-- A reply that comes after a handler has polled in vain, and with it the end, is not written. -/
example : ((Process.make 1 [{ id := 1, partition := 0, cfg := { poolCapacity := 4 } }] {}
    "sequencer").toOption.bind fun p =>
      (run generated { process := p } (answerThenStop [.poll 1] ++ [.check 1, .leave 1])).bind fun s =>
        (s.handlers 1).map fun h => (h.stage, h.written, (s.publisher.feed 1).given.length)) =
    some (.left ⟨.unavailable, "engine is shutting down"⟩, [], 1) := by decide +kernel

end FeedServer

end OrderBookEngine
