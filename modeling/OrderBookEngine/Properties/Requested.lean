import OrderBookEngine.Properties.Handlers
import OrderBookEngine.Properties.Serving
import OrderBookEngine.Properties.Snapshots

/-!
# Snapshots that have been requested

A call registers its subscription under the lock, and requests the snapshots behind it. Each of them is from
then on about to be requested, in the inbox of a worker, still to be pushed, or pushed (`OnItsWay`), so that no
symbol waits when nothing is queued. A subscription that ends when the publisher closes has been given all that
it was due (`kept_whole`).
-/

namespace OrderBookEngine

namespace EngineNode

variable {n n' : EngineNode} {a : Action} {seen : ℕ} {id : SubscriberId} {symbol : SymbolId}

/-- Where the snapshot of a symbol for a subscriber is; when it has been pushed it is behind the outputs that
were seen before. -/
inductive OnItsWay (n : EngineNode) (seen : ℕ) (id : SubscriberId) (symbol : SymbolId) : Prop
  /-- The request has not been submitted. -/
  | asked (mem : symbol ∈ n.requests id)
  /-- The request is in the inbox of a worker. -/
  | queued (i : ℕ) (item : Stamped) (mem : item ∈ (n.threads i).inbox)
      (command : item.command = .takeSnapshot symbol id)
  /-- The snapshot is in the outbox of a worker. -/
  | taken (i : ℕ) (ready : SnapshotReady) (mem : .snapshotReady ready ∈ (n.worker i).outbox)
      (symbol_eq : ready.symbol = symbol) (subscriber : ready.subscriber = id)
  /-- The snapshot has been pushed. -/
  | pushed (ready : SnapshotReady) (mem : .snapshotReady ready ∈ n.pushed.drop seen)
      (symbol_eq : ready.symbol = symbol) (subscriber : ready.subscriber = id)

/-- What is pushed stays, and so do the ids. -/
theorem grows_step (h : n.publisher.Wf) (hstep : n.step a = some n') :
    n.pushed <+: n'.pushed ∧ n.publisher.nextId ≤ n'.publisher.nextId := by
  cases does_of_step hstep with
  | queue worker publisher outbox =>
    unfold EngineNode.pushed
    rw [publisher]
    rcases outbox with outbox | outbox
    · rw [outbox]
      exact ⟨List.prefix_refl _, le_rfl⟩
    · rw [outbox, ← List.append_assoc]
      exact ⟨List.prefix_append _ _, le_rfl⟩
  | work i item w idle run worker publisher outbox =>
    unfold EngineNode.pushed
    rw [publisher, outbox]
    exact ⟨List.prefix_refl _, le_rfl⟩
  | push i output outputs pending worker publisher outbox =>
    unfold EngineNode.pushed
    rw [publisher, outbox, ← List.append_assoc]
    exact ⟨List.prefix_append _ _, le_rfl⟩
  | route output open_ act worker outbox =>
    obtain ⟨-, hdropped, hwf⟩ := Publisher.dropAll_spec (p := n.publisher) n.tooSlow
    obtain ⟨_, hact, -, -, hnext, hrecord⟩ := Publisher.act_spec (hwf h) (.take output)
    obtain rfl := Except.ok.inj (act.symm.trans hact)
    -- What is routed leaves the outbox, so what has been pushed is the same.
    have hrouted : n'.publisher.routed = n.publisher.routed ++ [output] := by
      rw [hrecord.routed, ← hdropped.routed]
      unfold Publisher.noted
      rw [hdropped.closed, open_]
      cases output <;> rfl
    unfold EngineNode.pushed
    rw [hrouted, outbox, List.append_assoc]
    exact ⟨List.prefix_refl _, hdropped.nextId ▸ hnext⟩
  | publisher a takes act worker outbox =>
    obtain ⟨_, hact, -, -, hnext, -⟩ := Publisher.act_spec h a
    obtain rfl := Except.ok.inj (act.symm.trans hact)
    unfold EngineNode.pushed
    rw [h.routed_act act takes, outbox]
    exact ⟨List.prefix_refl _, hnext⟩

/-- A run only gives out ids. -/
theorem grows_run (h : n.Sound) {actions : List Action} (hrun : n.run actions = some n') :
    n.publisher.nextId ≤ n'.publisher.nextId := by
  induction actions generalizing n with
  | nil => exact Option.some.inj hrun ▸ le_rfl
  | cons a actions ih =>
    obtain ⟨n₁, hstep, hrest⟩ := Option.bind_eq_some_iff.mp hrun
    exact (grows_step h.publisher hstep).2.trans (ih (h.step hstep) hrest)

/-- A worker that takes the request pushes the snapshot. -/
theorem Sound.taken (h : n.Sound) {i : ℕ} {item : Stamped} {w : Worker}
    (hrun : (n.worker i).run [item] = some w) (hcommand : item.command = .takeSnapshot symbol id) :
    ∃ ready, .snapshotReady ready ∈ w.outbox ∧ ready.symbol = symbol ∧ ready.subscriber = id := by
  have hsymbol : item.command.symbol? = some symbol := by
    rw [hcommand]
    rfl
  rcases Worker.book_of_run hrun with ⟨hnone, -⟩ | ⟨other, hosted, hother, hbook⟩
  · rw [hsymbol] at hnone
    cases hnone
  · obtain rfl := Option.some.inj (hsymbol.symm.trans hother)
    obtain ⟨b, rfl, -⟩ := h.streams i symbol hosted hbook
    obtain rfl := Option.some.inj (hrun.symm.trans (Worker.run_cons_of_book [] hsymbol hbook))
    refine ⟨{ symbol, subscriber := id, snapshot := b.snapshot }, ?_, rfl, rfl⟩
    show _ ∈ (n.worker i).outbox ++ item.outputs symbol b _
    rw [Stamped.outputs_of_snapshot hcommand]
    exact List.mem_append_right _ (List.mem_singleton_self _)

namespace OnItsWay

/-- Nothing but an inbox changes, and it grows. -/
theorem submit (h : n.OnItsWay seen id symbol) (i : ℕ) (item : Stamped) :
    (n.submit i item).OnItsWay seen id symbol := by
  cases h with
  | asked mem => exact .asked mem
  | queued j other mem command =>
    refine .queued j other ?_ command
    show other ∈ (Function.update n.threads i _ j).inbox
    by_cases hj : j = i
    · rw [hj, Function.update_self]
      exact List.mem_append_left _ (hj ▸ mem)
    · rw [Function.update_of_ne hj]
      exact mem
  | taken j ready mem symbol_eq subscriber =>
    exact .taken j ready (n.worker_submit i item ▸ mem) symbol_eq subscriber
  | pushed ready mem symbol_eq subscriber => exact .pushed ready mem symbol_eq subscriber

/-- One step of the node keeps the snapshot on its way. -/
theorem step (h : n.OnItsWay seen id symbol) (hsound : n.Sound) (hid : id < n.publisher.nextId)
    (hseen : seen ≤ n.pushed.length) (hstep : n.step a = some n') : n'.OnItsWay seen id symbol := by
  have hpushed : ∀ {output : Output}, output ∈ n.pushed.drop seen → output ∈ n'.pushed.drop seen := by
    intro output hmem
    obtain ⟨more, hmore⟩ := (grows_step hsound.publisher hstep).1
    rw [← hmore, List.drop_append_of_le_length hseen]
    exact List.mem_append_left _ hmem
  -- A request goes from the call to the inbox, from there to the outputs of the worker, and is pushed.
  have hmoves : a.internal = true → n'.OnItsWay seen id symbol := by
    intro ha
    cases moves_of_step hsound.publisher ha hstep with
    | work i item inbox w running idle next run eq =>
      cases h with
      | asked mem => exact .asked (eq ▸ mem)
      | queued j other mem command =>
        by_cases hj : j = i
        · rw [hj, next] at mem
          rcases List.mem_cons.mp mem with rfl | mem
          · obtain ⟨ready, hready, hsymbol, hsubscriber⟩ := hsound.taken run command
            refine .taken i ready ?_ hsymbol hsubscriber
            rw [eq, worker_setThread, Function.update_self]
            exact hready
          · refine .queued i other ?_ command
            rw [eq]
            show other ∈ (Function.update n.threads i _ i).inbox
            rw [Function.update_self]
            exact mem
        · refine .queued j other ?_ command
          rw [eq]
          show other ∈ (Function.update n.threads i _ j).inbox
          rw [Function.update_of_ne hj]
          exact mem
      | taken j ready mem symbol_eq subscriber =>
        refine .taken j ready ?_ symbol_eq subscriber
        have hj : j ≠ i := fun hj => by
          rw [hj, idle] at mem
          cases mem
        rw [eq, worker_setThread, Function.update_of_ne hj]
        exact mem
      | pushed ready mem symbol_eq subscriber => exact .pushed ready (hpushed mem) symbol_eq subscriber
    | push i output outputs pending eq =>
      cases h with
      | asked mem => exact .asked (eq ▸ mem)
      | queued j other mem command =>
        refine .queued j other ?_ command
        rw [eq]
        show other ∈ (Function.update n.threads i _ j).inbox
        by_cases hj : j = i
        · rw [hj, Function.update_self]
          exact hj ▸ mem
        · rw [Function.update_of_ne hj]
          exact mem
      | taken j ready mem symbol_eq subscriber =>
        have hworker : n'.worker = Function.update n.worker i { n.worker i with outbox := outputs } := by
          rw [eq]
          exact n.worker_setThread i _
        by_cases hj : j = i
        · rw [hj, pending] at mem
          rcases List.mem_cons.mp mem with rfl | mem
          · refine .pushed ready ?_ symbol_eq subscriber
            have hone : n'.pushed = n.pushed ++ [.snapshotReady ready] := by
              rw [eq]
              exact (List.append_assoc _ _ _).symm
            rw [hone, List.drop_append_of_le_length hseen]
            exact List.mem_append_right _ (List.mem_singleton_self _)
          · refine .taken i ready ?_ symbol_eq subscriber
            rw [hworker, Function.update_self]
            exact mem
        · refine .taken j ready ?_ symbol_eq subscriber
          rw [hworker, Function.update_of_ne hj]
          exact mem
      | pushed ready mem symbol_eq subscriber => exact .pushed ready (hpushed mem) symbol_eq subscriber
    | request other head symbols i next worker eq =>
      subst eq
      by_cases hasked : symbol ∈ n.requests id
      · by_cases hother : id = other
        · subst hother
          rw [next] at hasked
          rcases List.mem_cons.mp hasked with rfl | hrest
          · refine .queued i { command := .takeSnapshot symbol id } ?_ rfl
            show _ ∈ (Function.update n.threads i _ i).inbox
            rw [Function.update_self]
            exact List.mem_append_right _ (List.mem_singleton_self _)
          · refine OnItsWay.submit (.asked ?_) i _
            show symbol ∈ Function.update n.requests id symbols id
            rw [Function.update_self]
            exact hrest
        · refine OnItsWay.submit (.asked ?_) i _
          show symbol ∈ Function.update n.requests other symbols id
          rw [Function.update_of_ne hother]
          exact hasked
      · refine OnItsWay.submit ?_ i _
        cases h with
        | asked mem => exact absurd mem hasked
        | queued j item mem command => exact .queued j item mem command
        | taken j ready mem symbol_eq subscriber => exact .taken j ready mem symbol_eq subscriber
        | pushed ready mem symbol_eq subscriber => exact .pushed ready mem symbol_eq subscriber
    | publishes publishes =>
      cases h with
      | asked mem => exact .asked (publishes.kept id hid ▸ mem)
      | queued j item mem command => exact .queued j item (publishes.threads ▸ mem) command
      | taken j ready mem symbol_eq subscriber =>
        refine .taken j ready ?_ symbol_eq subscriber
        unfold EngineNode.worker at mem ⊢
        rw [publishes.threads]
        exact mem
      | pushed ready mem symbol_eq subscriber => exact .pushed ready (hpushed mem) symbol_eq subscriber
  cases a with
  | submit i item =>
    obtain rfl := Option.some.inj hstep
    exact h.submit i item
  | closeOutbox =>
    obtain rfl := Option.some.inj hstep
    cases h with
    | asked mem => exact .asked mem
    | queued j item mem command => exact .queued j item mem command
    | taken j ready mem symbol_eq subscriber => exact .taken j ready mem symbol_eq subscriber
    | pushed ready mem symbol_eq subscriber => exact .pushed ready (hpushed mem) symbol_eq subscriber
  | _ => exact hmoves rfl

/-- So does a run of the node. -/
theorem run (h : n.OnItsWay seen id symbol) (hsound : n.Sound) (hid : id < n.publisher.nextId)
    (hseen : seen ≤ n.pushed.length) {actions : List Action} (hrun : n.run actions = some n') :
    n'.OnItsWay seen id symbol := by
  induction actions generalizing n with
  | nil => exact Option.some.inj hrun ▸ h
  | cons a actions ih =>
    obtain ⟨n₁, hstep, hrest⟩ := Option.bind_eq_some_iff.mp hrun
    obtain ⟨hgrows, hnext⟩ := grows_step hsound.publisher hstep
    exact ih (h.step hsound hid hseen hstep) (hsound.step hstep) (hid.trans_le hnext)
      (hseen.trans hgrows.length_le) hrest

/-- When nothing is queued, it has been pushed. -/
theorem arrived (h : n.OnItsWay seen id symbol) (hrequests : n.requests id = [])
    (hworkers : ∀ i, (n.threads i).inbox = [] ∧ (n.worker i).outbox = []) :
    ∃ ready, .snapshotReady ready ∈ n.pushed.drop seen ∧ ready.symbol = symbol ∧ ready.subscriber = id := by
  cases h with
  | asked mem =>
    rw [hrequests] at mem
    cases mem
  | queued i item mem command =>
    rw [(hworkers i).1] at mem
    cases mem
  | taken i ready mem symbol_eq subscriber =>
    rw [(hworkers i).2] at mem
    cases mem
  | pushed ready mem symbol_eq subscriber => exact ⟨ready, mem, symbol_eq, subscriber⟩

end OnItsWay

/-- The call behind a new subscription has yet to request its snapshots. -/
theorem requests_subscribe {gatewayId : GatewayId} {asked : List SymbolId} {fromSeq : FromSeq} {p : Publisher}
    {result : SubscribeResult} {snapshots : List SymbolId}
    (hsubscribe : n.publisher.subscribe gatewayId asked fromSeq = .ok (p, result, snapshots))
    (hid : result.subscription = some id) (hstep : n.step (.subscribe gatewayId asked fromSeq) = some n') :
    n'.requests id = (n.publisher.asked asked).filter (fun symbol => (fromSeq.lookup symbol).isNone) := by
  -- A subscription is granted together with the snapshots it waits for.
  have hsnapshots : snapshots =
      (n.publisher.asked asked).filter (fun symbol => (fromSeq.lookup symbol).isNone) := by
    obtain ⟨_, _, _, hsubscribe', hcases⟩ := n.publisher.subscribe_spec gatewayId asked fromSeq
    obtain ⟨-, rfl, rfl⟩ := Prod.mk.injEq .. ▸ Except.ok.inj (hsubscribe.symm.trans hsubscribe')
    cases hcases with
    | refused _ subscription =>
      rw [subscription] at hid
      cases hid
    | tooOld _ _ subscription =>
      rw [subscription] at hid
      cases hid
    | registered stats passes => rfl
  replace hstep : n.subscribe gatewayId asked fromSeq = some n' := hstep
  unfold subscribe at hstep
  rw [hsubscribe] at hstep
  split_ifs at hstep
  obtain rfl := Option.some.inj hstep
  simp only [hid]
  rw [Function.update_self, hsnapshots]

end EngineNode

/-! ## Subscriptions that end with the publisher -/

namespace Feed

variable {f : Feed}

/-- Only the end of the outbox ends an open subscription with a shutdown. -/
theorem open_take (hopen : f.sub.endReason = .none) {output : Output} (houtput : output ≠ .outboxClosed) :
    (f.take output).sub.endReason ≠ .shutdown := by
  have hstays : f.sub.endReason ≠ .shutdown := by
    rw [hopen]
    exact EndReason.noConfusion
  -- An item that does not fit ends the subscription as too slow.
  have hoffer : ∀ (entry : Option Subscriber) (x : FeedItem),
      (Feed.offer ⟨entry, f.sub⟩ x).sub.endReason ≠ .shutdown := by
    intro entry x
    obtain ⟨-, -, hend, -, -⟩ := f.sub.tryPush_spec x
    have hopen' : (f.sub.tryPush x).1.endReason = .none := hend.trans hopen
    unfold Feed.offer
    simp only
    split_ifs
    · rw [hopen']
      exact EndReason.noConfusion
    · rw [Subscription.endWith_of_open hopen']
      exact EndReason.noConfusion
  unfold Feed.take
  cases f.entry with
  | none => exact hstays
  | some entry =>
    cases output with
    | marketEvent event =>
      simp only
      split_ifs
      · exact hoffer _ _
      · exact hstays
    | reply reply =>
      simp only
      split_ifs
      · exact hoffer _ _
      · exact hstays
    | snapshotReady ready =>
      simp only
      split_ifs
      · exact hstays
      · cases entry.live ready.symbol with
        | none => exact hstays
        | some state =>
          simp only
          split_ifs
          · exact hstays
          · exact hoffer _ _
    | outboxClosed => exact absurd rfl houtput

/-- A subscription that has not ended so does not leave so. -/
theorem shutdown_leave (hopen : f.entry ≠ none → f.sub.endReason = .none) {reason : EndReason}
    (hreason : reason ≠ .shutdown) (hended : (f.leave reason).sub.endReason = .shutdown) :
    f.leave reason = f ∧ f.entry = none := by
  unfold Feed.leave at hended ⊢
  cases hentry : f.entry with
  | none => exact ⟨rfl, rfl⟩
  | some entry =>
    rw [hentry] at hended
    simp only at hended
    rw [Subscription.endWith_of_open (hopen (by rw [hentry]; exact Option.some_ne_none _))] at hended
    exact absurd hended hreason

end Feed

/-- A subscription that has ended with the publisher was given all that was due for a symbol until then. -/
def Whole (id : SubscriberId) (symbol : SymbolId) (since : List Output) (f : Feed) : Prop :=
  f.sub.endReason = .shutdown → ∃ before after, since = before ++ .outboxClosed :: after ∧
    itemsOn symbol f.given = (Publisher.due id symbol ⟨{}, []⟩ before).items

/-- A feed that follows a symbol has not ended while it is in the table. -/
theorem Follows.open_ {f : Feed} {symbol : SymbolId} {d : Due} (h : Follows f symbol d) :
    f.entry ≠ none → f.sub.endReason = .none := by
  intro hsome
  obtain ⟨entry, hentry⟩ := Option.ne_none_iff_exists'.mp hsome
  exact (h.registered entry hentry).2.2.1

/-- Whatever the threads do, a feed that has ended with the publisher was given all that was due. -/
theorem kept_whole (id : SubscriberId) (symbol : SymbolId) : EngineNode.Kept id fun since f =>
    Follows f symbol (Publisher.due id symbol ⟨{}, []⟩ since) ∧ Whole id symbol since f where
  take since f output hid h := by
    refine ⟨(EngineNode.kept_follows id symbol).take since f output hid h.1, fun hended => ?_⟩
    obtain ⟨hfollows, hwhole⟩ := h
    cases hentry : f.entry with
    | none =>
      have hstay : f.take output = f := by
        unfold Feed.take
        rw [hentry]
      rw [hstay] at hended ⊢
      obtain ⟨before, after, rfl, hitems⟩ := hwhole hended
      exact ⟨before, after ++ [output], by rw [List.append_assoc, List.cons_append], hitems⟩
    | some entry =>
      obtain ⟨-, -, hopen, hitems⟩ := hfollows.registered entry hentry
      -- Only the end of the outbox ends an open subscription in this way.
      by_cases houtput : output = .outboxClosed
      · subst houtput
        refine ⟨since, [], rfl, ?_⟩
        have hleave : f.take .outboxClosed = ⟨none, { f.sub with endReason := .shutdown }⟩ := by
          unfold Feed.take Feed.leave
          rw [hentry]
          simp only
          rw [Subscription.endWith_of_open hopen]
          rfl
        rw [hleave]
        exact hitems
      · exact absurd hended (Feed.open_take hopen houtput)
  act since f a htakes h := by
    refine ⟨(EngineNode.kept_follows id symbol).act since f a htakes h.1, fun hended => ?_⟩
    obtain ⟨hfollows, hwhole⟩ := h
    cases a with
    | take output => exact absurd rfl (htakes output)
    | subscribe gatewayId symbols fromSeq => exact hwhole hended
    | subscribeReplies gatewayId => exact hwhole hended
    | unsubscribe x =>
      unfold Feed.act at hended ⊢
      simp only at hended ⊢
      split_ifs at hended ⊢
      · -- It had ended before, since this end is for another reason.
        obtain ⟨hstay, -⟩ := Feed.shutdown_leave hfollows.open_ EndReason.noConfusion hended
        rw [hstay] at hended ⊢
        exact hwhole hended
      · exact hwhole hended
    | nextFor x =>
      unfold Feed.act at hended ⊢
      simp only at hended ⊢
      split_ifs at hended ⊢
      · obtain ⟨-, -, hend, hitems⟩ := f.sub.nextFor_spec
        obtain ⟨before, after, hsplit, hgiven⟩ := hwhole (hend ▸ hended)
        refine ⟨before, after, hsplit, ?_⟩
        unfold Feed.given at hgiven ⊢
        rw [hitems]
        exact hgiven
      · exact hwhole hended
  slow since f h := by
    refine ⟨(EngineNode.kept_follows id symbol).slow since f h.1, fun hended => ?_⟩
    obtain ⟨hstay, -⟩ := Feed.shutdown_leave h.1.open_ EndReason.noConfusion hended
    rw [hstay] at hended ⊢
    exact h.2 hended

end OrderBookEngine
