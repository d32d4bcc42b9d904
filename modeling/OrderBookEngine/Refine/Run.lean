import OrderBookEngine.Market.Chain
import OrderBookEngine.Refine.Call

/-!
# Runs of the book are runs of the market

Over a run of calls a book stays the market's representation (`run_refines`), as long as the stop
priorities fit in their arithmetic, and both walk the same orders at the same moments
(`runEntries_represents`). So what the steps of the market keep holds of every book that a run
reaches, and of every moment in between.
-/

namespace OrderBookEngine

namespace Market

variable {cfg : Config}

/-- Every call of a reachable market reaches a market between calls. -/
theorem Reachable.call {m : Market} (h : Reachable cfg (.idle m)) (hfifo : m.fifo = []) (c : Call) :
    Reachable cfg (.idle (m.call c)) := by
  obtain ⟨m₀, s, hresumes, hact, hsteps, -⟩ := call_steps c h.wf hfifo
  obtain ⟨h₀, hfifo₀⟩ := h.resumes hfifo hresumes
  exact (h₀.act hfifo₀ hact).steps hsteps

/-- A run of calls from a reachable market at rest ends in one. -/
theorem Reachable.run {m : Market} (h : Reachable cfg (.idle m)) (hfifo : m.fifo = [])
    (calls : List Call) : Reachable cfg (.idle (m.run calls)) ∧ (m.run calls).fifo = [] := by
  induction calls generalizing m with
  | nil => exact ⟨h, hfifo⟩
  | cons c calls ih => exact ih (h.call hfifo c) (fifo_call m c hfifo)

/-- Every walk of a call begins at a reachable stage. -/
theorem Reachable.callEntries {m : Market} (h : Reachable cfg (.idle m)) (hfifo : m.fifo = [])
    {c : Call} {e : Entry Market} (he : e ∈ m.callEntries c) : Reachable cfg e.start := by
  obtain ⟨m₀, s, hresumes, hact, -, hvisits⟩ := call_steps c h.wf hfifo
  obtain ⟨h₀, hfifo₀⟩ := h.resumes hfifo hresumes
  exact (h₀.act hfifo₀ hact).steps (hvisits e he).2

/-- Every walk of a run begins at a reachable stage. -/
theorem Reachable.runEntries {m : Market} (h : Reachable cfg (.idle m)) (hfifo : m.fifo = [])
    {calls : List Call} {e : Entry Market} (he : e ∈ m.runEntries calls) : Reachable cfg e.start := by
  induction calls generalizing m with
  | nil => simp [Market.runEntries] at he
  | cons c calls ih =>
    rcases List.mem_append.mp he with he | he
    · exact h.callEntries hfifo he
    · exact ih (h.call hfifo c) (fifo_call m c hfifo) he

/-- Every trade of a walk is made at a reachable stage. -/
theorem Reachable.traded {e : Entry Market} (h : Reachable cfg e.start) {w : Walk} {x : RestingOrder}
    (hp : (w, x) ∈ e.traded) : Reachable cfg (.walking w) ∧ ∃ xs, w.Meets x xs := by
  obtain ⟨hsteps, xs, _, _, hmeets, -⟩ := (walk_steps e.now h.wf).2 _ hp
  exact ⟨h.steps hsteps.steps, xs, hmeets⟩

end Market

namespace Book

variable {b : Book} {m : Market} {incoming : Order} {now : ℤ}

/-! ## Runs -/

/-- One call keeps a book and its market in step, provided the counters fit afterwards. -/
theorem Refines.call (h : b.Refines m) (c : Call) (hfits : (b.call c).Fits) :
    (b.call c).Refines (m.call c) :=
  ⟨call_represents h c hfits, Market.fifo_call m c h.fifo,
    (grows_call b c).drainingStops.trans h.drainingStops⟩

/-- So does a run of calls. -/
theorem Refines.run (h : b.Refines m) (calls : List Call) (hfits : (b.run calls).Fits) :
    (b.run calls).Refines (m.run calls) := by
  induction calls generalizing b m with
  | nil => exact h
  | cons c calls ih => exact ih (h.call c ((grows_run _ calls).fits hfits)) hfits

/-- A new book and a new market are in step. -/
theorem refines_make (cfg : Config) : (Book.make cfg).Refines (Market.make cfg) :=
  ⟨represents_make cfg, rfl, rfl⟩

/-- **Runs.** The book of a run represents the market of the same run. -/
theorem run_refines (cfg : Config) (calls : List Call) (hfits : ((Book.make cfg).run calls).Fits) :
    ((Book.make cfg).run calls).Refines ((Market.make cfg).run calls) :=
  (refines_make cfg).run calls hfits

/-- The market after a run of calls is reachable. -/
theorem reachable_run (cfg : Config) (calls : List Call) :
    Market.Reachable cfg (.idle ((Market.make cfg).run calls)) :=
  (Market.Reachable.start.run rfl calls).1

/-- With unbounded priorities every book fits. -/
theorem fits_of_exact (h : b.cfg.priorities = .exact) : b.Fits := Or.inl h

/-- Exact priorities always fit. -/
theorem fits_run {cfg : Config} (h : cfg.priorities = .exact) (calls : List Call) :
    ((Book.make cfg).run calls).Fits :=
  fits_of_exact ((congrArg Config.priorities (grows_run _ calls).cfg).trans h)

/-! ## Entries -/

/-- Two walks begin alike. -/
structure SameEntry (e : Entry Book) (e' : Entry Market) : Prop where
  /-- The book represents the market. -/
  represents : e.state.Represents e'.state
  /-- The order is the same. -/
  order : e.order = e'.order
  /-- The time is the same. -/
  now : e.now = e'.now
  /-- The id rests nowhere. -/
  idIndex : e.state.idIndex e.order.id = none
  /-- The fields are valid. -/
  valid : Session.validateOrderFields e.order = .none

/-- Two walks that begin alike trade alike, and at the same moments. -/
theorem SameEntry.moments {e : Entry Book} {e' : Entry Market} (h : SameEntry e e') :
    ∃ K, List.Forall₂ (Moment K) e.executed e'.traded := by
  obtain ⟨b, incoming, now⟩ := e
  obtain ⟨m, _, _⟩ := e'
  obtain ⟨hrep, rfl, rfl, hid, hvalid⟩ := h
  exact (walk_represents now hrep hid hvalid).2.2

/-- The walks of two entries in step end in step, and with the same result. -/
theorem SameEntry.walk {e : Entry Book} {e' : Entry Market} (h : SameEntry e e') :
    (e.state.walk e.order e.now).1.Represents (e'.state.walk e'.order e'.now).1 ∧
      (e.state.walk e.order e.now).2 = (e'.state.walk e'.order e'.now).2 := by
  obtain ⟨b, incoming, now⟩ := e
  obtain ⟨m, _, _⟩ := e'
  obtain ⟨hrep, rfl, rfl, hid, hvalid⟩ := h
  have := walk_represents now hrep hid hvalid
  exact ⟨this.1, this.2.1⟩

/-- The orders that are walked over triggers that are alike. -/
theorem coreEntries_represents {f : ℤ → ℤ → ℤ → Book → Book}
    {after : ℤ → ℤ → ℤ → Book → List (Entry Book)}
    {after' : ℤ → ℤ → ℤ → Market → List (Entry Market)} (h : b.Represents m)
    (hafter : ∀ low high b' m', b'.Represents m' → b'.drainingStops = b.drainingStops →
      (f low high now b').Fits →
      List.Forall₂ SameEntry (after low high now b') (after' low high now m'))
    (reportReject : Bool) (hfits : (b.addOrderCoreWith f incoming now reportReject).1.Fits) :
    List.Forall₂ SameEntry (b.coreEntries after incoming now) (m.coreEntries after' incoming now) := by
  rw [coreEntries, Market.coreEntries]
  rcases admitted_represents h incoming now with ⟨h1, h2⟩ | ⟨b', m', h1, h2, hrep, hid, hvalid⟩
  · rw [h1, h2]
    exact List.Forall₂.nil
  · rw [addOrderCoreWith_of_admitted f h1, afterWalk] at hfits
    rw [h1, h2]
    -- The order itself is the first entry, the fired stops are the others.
    refine List.Forall₂.cons ⟨hrep, rfl, rfl, hid, hvalid⟩ ?_
    obtain ⟨hwalk, hresult, -⟩ := walk_represents now hrep hid hvalid
    rw [entriesAfter, Market.entriesAfter]
    simp only [← hresult]
    cases hlast : (b'.walk incoming now).2.trades.getLast? with
    | none => exact List.Forall₂.nil
    | some last =>
      simp only [hlast] at hfits
      refine hafter _ _ _ _ ?_ ?_ hfits
      · rw [hwalk.session]
        exact hwalk.withSession _
      · exact (sameStops_walk b' incoming now).drainingStops.trans (grows_admitted h1).drainingStops

/-- The orders that a drain walks. -/
theorem drainEntries_represents (fuel : ℕ) : ∀ {b : Book} {m : Market}, b.Represents m →
    (drainLoop now fuel b).Fits →
    List.Forall₂ SameEntry (drainEntries now fuel b) (Market.drainEntries now fuel m) := by
  induction fuel with
  | zero => exact fun _ _ => List.Forall₂.nil
  | succ fuel ih =>
    intro b m h hfits
    rw [Market.drainEntries, drainEntries]
    rw [drainLoop] at hfits
    cases hfifo : m.fifo with
    | nil =>
      obtain ⟨L, free, K, hrep⟩ := h
      rw [hrep.fifo.trans hfifo]
      exact List.Forall₂.nil
    | cons stop rest =>
      obtain ⟨hstops, hpop⟩ := h.pop hfifo
      simp only [hstops, h.halted] at hfits ⊢
      split_ifs at hfits ⊢ with hhalt
      · exact List.Forall₂.nil
      · have hfire := (grows_drainLoop now fuel _).fits hfits
        refine List.rel_append (coreEntries_represents (hpop.emit _) (fun _ _ _ _ _ _ _ =>
          List.Forall₂.nil) false hfire) ?_
        exact ih (fireStop_represents hpop stop hfire) hfits

/-- The orders that a trigger walks. -/
theorem triggerEntries_represents (h : b.Represents m) (hdrain : b.drainingStops = false)
    (low high : ℤ) (hfits : (checkAndTriggerStops low high now b).Fits) :
    List.Forall₂ SameEntry (triggerEntries low high now b)
      (Market.triggerEntries low high now m) := by
  have hw := wakeStops_represents h low high
  have hwd := (grows_wakeStops low high b).drainingStops.trans hdrain
  rw [Market.triggerEntries, triggerEntries]
  rw [checkAndTriggerStops] at hfits
  simp only [h.halted, hwd, Bool.false_eq_true, if_false] at hfits ⊢
  by_cases hh : m.halted = true
  · have hm : m.wakeStops low high = m := by rw [Market.wakeStops, if_pos hh]
    simp only [hm, hh, if_true]
    exact List.Forall₂.nil
  · have hm : (m.wakeStops low high).halted = m.halted := by
      rw [Market.wakeStops, if_neg hh]
    simp only [hm, if_neg hh] at hfits ⊢
    set b' := b.wakeStops low high
    have hw' := hw.withDraining true
    -- The fuel of the drain is the number of the pending stops, the same on both sides.
    have hpending : ({ b' with drainingStops := true } : Book).pendingStops =
        (m.wakeStops low high).stops.length + (m.wakeStops low high).fifo.length := hw'.pendingStops
    rw [hpending] at hfits ⊢
    exact drainEntries_represents _ hw' hfits

/-- The walks of one call on the book match those of the market, one each. -/
theorem addOrderCoreEntries_represents (h : b.Represents m) (hdrain : b.drainingStops = false)
    (reportReject : Bool) (hfits : (b.addOrderCore incoming now reportReject).1.Fits) :
    List.Forall₂ SameEntry (b.coreEntries triggerEntries incoming now)
      (m.coreEntries Market.triggerEntries incoming now) :=
  coreEntries_represents h (fun low high _ _ hrep hd hfits =>
    triggerEntries_represents hrep (hd.trans hdrain) low high hfits) reportReject hfits

/-- **Entries.** A call walks the same orders. -/
theorem callEntries_represents (h : b.Refines m) (c : Call) (hfits : (b.call c).Fits) :
    List.Forall₂ SameEntry (b.callEntries c) (m.callEntries c) := by
  obtain ⟨h, -, hdrain⟩ := h
  cases c with
  | addOrder order now => exact addOrderCoreEntries_represents h hdrain true hfits
  | modifyOrder id requester price qty now =>
    have howned : b.ownedBy id requester = m.ownedBy id requester := by rw [h.session]
    rw [Book.callEntries, Market.callEntries, howned]
    rw [Book.call, modifyOrder, howned] at hfits
    cases hown : m.ownedBy id requester with
    | false => exact List.Forall₂.nil
    | true =>
      rcases h.lookup id with ⟨h1, h2⟩ | ⟨p, h1, h2⟩
      · rw [h1, h2]
        exact List.Forall₂.nil
      · simp only [h1, h2, hown, Bool.not_true, Bool.false_eq_true, if_false] at hfits ⊢
        set order := (b.node p).order with horder
        -- A change that stays in place, or is refused, enters no order.
        by_cases hstay : Session.validateOrderFields
            { order with price := some price, quantity := qty } ≠ .none ∨
            qty - order.filled ≤ 0 ∨ some price = order.price ∧ qty - order.filled ≤ order.quantity
        · rw [if_pos hstay, if_pos hstay]
          exact List.Forall₂.nil
        rw [if_neg hstay, if_neg hstay]
        obtain ⟨hbad, hnone, hsame⟩ : _ ∧ _ ∧ _ := by simpa only [not_or] using hstay
        rw [if_neg hbad, if_neg hnone, if_neg hsame] at hfits
        set replacement : Order := { order with price := some price, quantity := qty - order.filled }
        have hv := h.withSession (m.validateNewOrder replacement now).1
        rw [h.session] at hfits ⊢
        by_cases hinvalid : (m.validateNewOrder replacement now).2 ≠ RejectReason.none
        · rw [if_pos hinvalid, if_pos hinvalid]
          exact List.Forall₂.nil
        rw [if_neg hinvalid] at hfits
        rw [if_neg hinvalid, if_neg hinvalid]
        have hrep := (hv.emit (order.event .replaced now)).remove (i := id) (p := p) h1
        exact addOrderCoreEntries_represents hrep hdrain false hfits
  | cancelOrder id requester now => exact List.Forall₂.nil
  | placeStopOrder stop now => exact List.Forall₂.nil
  | cancelStopOrder id requester now => exact List.Forall₂.nil
  | modifyStopOrder id requester price limit qty now => exact List.Forall₂.nil

/-- **Entries.** A run walks the same orders. -/
theorem runEntries_represents (h : b.Refines m) (calls : List Call) (hfits : (b.run calls).Fits) :
    List.Forall₂ SameEntry (b.runEntries calls) (m.runEntries calls) := by
  induction calls generalizing b m with
  | nil => exact List.Forall₂.nil
  | cons c calls ih =>
    have hcall := (grows_run _ calls).fits hfits
    exact List.rel_append (callEntries_represents h c hcall) (ih (h.call c hcall) hfits)

/-- A member of the one list has its partner in the other. -/
theorem exists_of_forall₂ {α β : Type} {R : α → β → Prop} {xs : List α} {ys : List β}
    (h : List.Forall₂ R xs ys) {x : α} (hx : x ∈ xs) : ∃ y ∈ ys, R x y := by
  induction h with
  | nil => cases hx
  | @cons a b xs ys hab _ ih =>
    rcases List.mem_cons.mp hx with rfl | hx
    · exact ⟨b, List.mem_cons_self, hab⟩
    · obtain ⟨y, hy, hxy⟩ := ih hx
      exact ⟨y, List.mem_cons_of_mem _ hy, hxy⟩

/-- Every walk of a run begins like one of the market, at a reachable stage. -/
theorem exists_entry (cfg : Config) (calls : List Call) (hfits : ((Book.make cfg).run calls).Fits)
    {e : Entry Book} (he : e ∈ (Book.make cfg).runEntries calls) :
    ∃ e', SameEntry e e' ∧ Market.Reachable cfg e'.start := by
  obtain ⟨e', he', hsame⟩ := exists_of_forall₂
    (runEntries_represents (refines_make cfg) calls hfits) he
  exact ⟨e', hsame, Market.Reachable.start.runEntries rfl he'⟩

end Book

end OrderBookEngine
