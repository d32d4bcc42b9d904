import OrderBookEngine.Engine.Run

/-!
# What a walk leaves alone

A walk does not touch the dormant stops, the queue of woken ones, or the configuration
(`sameStops_walk`). So stop priorities are handed out at three places only, and over a run the two
counters only move apart (`grows_run`): if the counters of a run's last book fit in 64 bits, they fit
throughout.
-/

namespace OrderBookEngine

namespace Book

/-- Two books differ in neither their stops nor their configuration. -/
structure SameStops (b b' : Book) : Prop where
  /-- The dormant stops, their index and the counters. -/
  stopBook : b'.toStopBook = b.toStopBook
  /-- The woken stops. -/
  triggeredStops : b'.triggeredStops = b.triggeredStops
  /-- The flag of the drain. -/
  drainingStops : b'.drainingStops = b.drainingStops
  /-- What the book was made with. -/
  cfg : b'.cfg = b.cfg

/-- A book has its own stops. -/
theorem SameStops.refl (b : Book) : SameStops b b := ⟨rfl, rfl, rfl, rfl⟩

/-- Two changes that leave the stops alone do so together. -/
theorem SameStops.trans {b b' b'' : Book} (h : SameStops b b') (h' : SameStops b' b'') :
    SameStops b b'' :=
  ⟨h'.stopBook.trans h.stopBook, h'.triggeredStops.trans h.triggeredStops,
    h'.drainingStops.trans h.drainingStops, h'.cfg.trans h.cfg⟩

variable {b : Book} {incoming : Order} {now : ℤ}

/-- Validation may lift a halt, and leaves the configuration alone. -/
theorem cfg_validateNewOrder (s : Session) (incoming : Order) (now : ℤ) :
    (s.validateNewOrder incoming now).1.cfg = s.cfg := by
  rw [Session.validateNewOrder]
  split_ifs <;> rfl

/-- An event leaves the stops alone. -/
theorem sameStops_emit (b : Book) (e : EngineEvent) : SameStops b (b.emit e) := ⟨rfl, rfl, rfl, rfl⟩

/-- A fill leaves the stops alone. -/
theorem sameStops_fillStep (now : ℤ) (l : FillLoop) (fill : ProposedFill) :
    SameStops l.book (fillStep now l fill).book := by
  rw [fillStep]
  cases l.book.bandDecision now l.breachLevel fill.fillPrice with
  | halt => exact ⟨rfl, rfl, rfl, rfl⟩
  | limit => exact .refl _
  | print outside breach =>
    simp only
    split_ifs <;> exact ⟨rfl, rfl, rfl, rfl⟩

/-- The fill loop leaves the stops alone, fill by fill. -/
theorem sameStops_fillLoop (now : ℤ) (fills : List ProposedFill) (l : FillLoop) :
    SameStops l.book (fillLoop now fills l).book := by
  induction fills generalizing l with
  | nil => exact .refl _
  | cons fill fills ih =>
    rw [fillLoop]
    split_ifs
    · exact sameStops_fillStep now l fill
    · exact (sameStops_fillStep now l fill).trans (ih _)

/-- An order that comes to rest leaves the stops alone. -/
theorem sameStops_restOrder {b' : Book} (h : b.restOrder incoming now = some b') :
    SameStops b b' := by
  rw [restOrder, Option.map_eq_some_iff] at h
  obtain ⟨st, -, rfl⟩ := h
  exact ⟨rfl, rfl, rfl, rfl⟩

/-- So does one that rests at the edge of the band. -/
theorem sameStops_restAtBandEdge (b : Book) (incoming : Order) (trades : List Trade)
    (why : RejectReason) (now : ℤ) : SameStops b (b.restAtBandEdge incoming trades why now).1 := by
  rw [restAtBandEdge]
  simp only
  split_ifs
  · cases h : b.restOrder (b.atBandEdge incoming) now with
    | none => exact sameStops_emit b _
    | some b' => exact sameStops_restOrder h
  · exact sameStops_emit b _
  · exact sameStops_emit b _
  · exact .refl b

/-- What becomes of a remainder leaves the stops alone. -/
theorem sameStops_settle (l : FillLoop) (plan : MatchPlan) (now : ℤ) :
    SameStops l.book (settle l plan now).1 := by
  rw [settle]
  simp only
  set b := if l.incoming.quantity = 0 then
    { l.book with toSession := l.book.markFilled l.incoming.id } else l.book with hb
  have h : SameStops l.book b := by
    rw [hb]
    split_ifs <;> exact ⟨rfl, rfl, rfl, rfl⟩
  refine h.trans ?_
  split_ifs
  · exact sameStops_restAtBandEdge b _ _ _ _
  · exact sameStops_restAtBandEdge b _ _ _ _
  · exact sameStops_emit b _
  · cases hr : b.restOrder l.incoming now with
    | none => exact sameStops_emit b _
    | some b' => exact sameStops_restOrder hr
  all_goals first
    | exact sameStops_emit b _
    | exact .refl b

/-- A walk leaves the stops alone. -/
theorem sameStops_walk (b : Book) (incoming : Order) (now : ℤ) :
    SameStops b (b.walk incoming now).1 :=
  (sameStops_fillLoop now _ { book := b, incoming }).trans (sameStops_settle _ _ now)

/-! ## Firing inside a drain -/

/-- Entering an order depends on what ends it only for the books that have walked. -/
theorem addOrderCoreWith_congr {f g : ℤ → ℤ → ℤ → Book → Book} (b : Book)
    (h : ∀ low high b', b'.drainingStops = b.drainingStops → f low high now b' = g low high now b')
    (reportReject : Bool) :
    b.addOrderCoreWith f incoming now reportReject =
      b.addOrderCoreWith g incoming now reportReject := by
  have hwalk : ∀ b' : Book, b'.drainingStops = b.drainingStops →
      afterWalk f (b'.walk incoming now) now = afterWalk g (b'.walk incoming now) now := by
    intro b' hb'
    rw [afterWalk, afterWalk]
    cases (b'.walk incoming now).2.trades.getLast? with
    | none => rfl
    | some last =>
      simp only
      rw [h]
      exact (sameStops_walk b' incoming now).drainingStops.trans hb'
  rw [addOrderCoreWith, addOrderCoreWith]
  simp only
  split_ifs
  all_goals first
    | rfl
    | exact hwalk _ rfl

/-- While a drain is under way, `check_and_trigger_stops` only appends to the queue. -/
theorem checkAndTriggerStops_of_draining (h : b.drainingStops = true) (low high now : ℤ) :
    checkAndTriggerStops low high now b = b.wakeStops low high := by
  rw [checkAndTriggerStops, wakeStops]
  split_ifs with hhalt
  · rfl
  · simp [h]

/-- A firing inside the drain is `add_order_core`. -/
theorem fireStop_eq (h : b.drainingStops = true) (stop : StopOrder) :
    b.fireStop stop now =
      ((b.emit (stop.event .stopTriggered now)).addOrderCore stop.firedOrder now false).1 := by
  rw [fireStop, addOrderCore]
  refine congrArg Prod.fst (addOrderCoreWith_congr _ (fun low high b' hb' => ?_) false)
  exact (checkAndTriggerStops_of_draining (hb'.trans h) low high now).symm

/-! ## Handing out priorities -/

/-- The counters have only moved apart. -/
structure Grows (b b' : Book) : Prop where
  /-- What the book was made with. -/
  cfg : b'.cfg = b.cfg
  /-- The back counter has not gone down. -/
  back : b.nextBackPriority ≤ b'.nextBackPriority
  /-- The front counter has not gone up. -/
  front : b'.nextFrontPriority ≤ b.nextFrontPriority
  /-- The flag of the drain is as it was. -/
  drainingStops : b'.drainingStops = b.drainingStops

/-- The counters may stay where they are. -/
theorem Grows.refl (b : Book) : Grows b b := ⟨rfl, le_rfl, le_rfl, rfl⟩

/-- Two changes move the counters further apart. -/
theorem Grows.trans {b b' b'' : Book} (h : Grows b b') (h' : Grows b' b'') : Grows b b'' :=
  ⟨h'.cfg.trans h.cfg, h.back.trans h'.back, h'.front.trans h.front,
    h'.drainingStops.trans h.drainingStops⟩

/-- What leaves the stops alone leaves the counters. -/
theorem SameStops.grows {b b' : Book} (h : SameStops b b') : Grows b b' :=
  ⟨h.cfg, by rw [h.stopBook], by rw [h.stopBook], h.drainingStops⟩

/-- An admission moves no counter. -/
theorem grows_admitted {b' : Book} (h : b.admitted incoming now = some b') : Grows b b' := by
  rw [admitted] at h
  simp only at h
  split_ifs at h
  obtain rfl := Option.some.inj h
  exact ⟨cfg_validateNewOrder _ _ _, le_rfl, le_rfl, rfl⟩

/-- Entering an order moves the counters as the call that ends it does. -/
theorem grows_addOrderCoreWith {f : ℤ → ℤ → ℤ → Book → Book}
    (hf : ∀ low high now b, Grows b (f low high now b)) (b : Book) (incoming : Order) (now : ℤ)
    (reportReject : Bool) : Grows b (b.addOrderCoreWith f incoming now reportReject).1 := by
  cases hadm : b.admitted incoming now with
  | none =>
    obtain ⟨why, -, heq⟩ := addOrderCoreWith_of_refused f hadm reportReject
    rw [heq]
    refine ⟨?_, le_rfl, le_rfl, rfl⟩
    cases reportReject <;> exact cfg_validateNewOrder _ _ _
  | some b' =>
    rw [addOrderCoreWith_of_admitted f hadm, afterWalk]
    have hw := (grows_admitted hadm).trans (sameStops_walk b' incoming now).grows
    simp only
    cases (b'.walk incoming now).2.trades.getLast? with
    | none => exact hw
    | some last =>
      refine hw.trans (Grows.trans ?_ (hf _ _ now _))
      exact ⟨rfl, le_rfl, le_rfl, rfl⟩

/-- Waking stops hands out no priority. -/
theorem grows_wakeStops (low high : ℤ) (b : Book) : Grows b (b.wakeStops low high) := by
  rw [wakeStops]
  split_ifs
  · exact .refl b
  · exact ⟨rfl, le_rfl, le_rfl, rfl⟩

/-- Sending stops back only takes priorities from the front. -/
theorem grows_sendBack (b : Book) : Grows b b.sendBack := by
  have key : ∀ (stops : List StopOrder) (sb : StopBook),
      (stops.foldl (fun sb s => sb.insertFront b.cfg.priorities s) sb).nextBackPriority =
        sb.nextBackPriority ∧
      (stops.foldl (fun sb s => sb.insertFront b.cfg.priorities s) sb).nextFrontPriority ≤
        sb.nextFrontPriority := by
    intro stops
    induction stops with
    | nil => exact fun sb => ⟨rfl, le_rfl⟩
    | cons s stops ih =>
      intro sb
      obtain ⟨h1, h2⟩ := ih (sb.insertFront b.cfg.priorities s)
      have hb : (sb.insertFront b.cfg.priorities s).nextBackPriority = sb.nextBackPriority := by
        cases hs : s.side <;> simp [StopBook.insertFront, StopBook.insertDormantStop,
          StopBook.setStopsFor, hs]
      have hf : (sb.insertFront b.cfg.priorities s).nextFrontPriority = sb.nextFrontPriority - 1 := rfl
      exact ⟨h1.trans hb, by rw [hf] at h2; rw [List.foldl_cons]; omega⟩
  obtain ⟨h1, h2⟩ := key b.triggeredStops.reverse b.toStopBook
  exact ⟨rfl, h1.ge, h2, rfl⟩

/-- Each firing of a drain moves the counters apart, if at all. -/
theorem grows_drainLoop (now : ℤ) (fuel : ℕ) (b : Book) : Grows b (drainLoop now fuel b) := by
  induction fuel generalizing b with
  | zero => exact .refl b
  | succ fuel ih =>
    rw [drainLoop]
    cases b.triggeredStops with
    | nil => exact .refl b
    | cons stop rest =>
      simp only
      split_ifs
      · exact grows_sendBack b
      · refine Grows.trans ?_ (ih _)
        rw [fireStop]
        refine Grows.trans ?_ (grows_addOrderCoreWith (fun low high _ b => grows_wakeStops low high b)
          _ _ _ _)
        exact ⟨rfl, le_rfl, le_rfl, rfl⟩

/-- The firing of stops after a walk moves the counters apart. -/
theorem grows_checkAndTriggerStops (low high now : ℤ) (b : Book) :
    Grows b (checkAndTriggerStops low high now b) := by
  rw [checkAndTriggerStops]
  simp only
  split_ifs with h1 h2
  · exact .refl b
  · exact grows_wakeStops low high b
  · have hw := grows_wakeStops low high b
    set b' : Book := b.wakeStops low high
    have hd := grows_drainLoop now { b' with drainingStops := true }.pendingStops
      { b' with drainingStops := true }
    exact ⟨hd.cfg.trans hw.cfg, hw.back.trans hd.back, hd.front.trans hw.front, by
      simpa [hw.drainingStops] using h2⟩

/-- The counters move apart over a call. -/
theorem grows_call (b : Book) (c : Call) : Grows b (b.call c) := by
  -- The parts that calls are made of: events, the store, the core, and the map of the stops.
  have hemit : ∀ (b : Book) (e : EngineEvent), Grows b (b.emit e) := fun b e =>
    (sameStops_emit b e).grows
  have hstore : ∀ (b : Book) (st : Store), Grows b { b with toStore := st } := fun _ _ =>
    ⟨rfl, le_rfl, le_rfl, rfl⟩
  have hcore : ∀ (b : Book) (o : Order) (now : ℤ) (r : Bool), Grows b (b.addOrderCore o now r).1 :=
    fun b o now r => grows_addOrderCoreWith (fun low high now b =>
      grows_checkAndTriggerStops low high now b) b o now r
  have hinsert : ∀ (b : Book) (stop : StopOrder) (priority : ℤ),
      Grows b { b with toStopBook := b.insertDormantStop stop priority } := fun b stop priority => by
    refine ⟨rfl, ?_, ?_, rfl⟩ <;>
      cases hs : stop.side <;> simp [StopBook.insertDormantStop, StopBook.setStopsFor, hs]
  have herase : ∀ (b : Book) (loc : StopLocation),
      Grows b { b with toStopBook := b.eraseStop loc } := fun b loc => by
    refine ⟨rfl, ?_, ?_, rfl⟩ <;>
      cases hs : loc.side <;> simp [StopBook.eraseStop, StopBook.setStopsFor, hs]
  have hback : ∀ (b : Book) (stop : StopOrder),
      Grows b { b with toStopBook := b.insertBack b.cfg.priorities stop } := fun b stop => by
    refine ⟨rfl, ?_, ?_, rfl⟩ <;>
      cases hs : stop.side <;>
      simp [StopBook.insertBack, StopBook.insertDormantStop, StopBook.setStopsFor, hs]
  cases c with
  | addOrder order now => exact hcore b order now true
  | modifyOrder id requester price qty now =>
    rw [call, modifyOrder]
    cases b.ownedBy id requester with
    | false => exact .refl b
    | true =>
      cases b.idIndex id with
      | none => exact .refl b
      | some p =>
        have hs : ∀ o, Grows b { b with toSession := (b.validateNewOrder o now).1 } := fun o =>
          ⟨cfg_validateNewOrder _ _ _, le_rfl, le_rfl, rfl⟩
        simp only [Bool.not_true, Bool.false_eq_true, if_false]
        split_ifs
        · exact .refl b
        · exact (hemit b _).trans (hstore _ _)
        · exact (hstore b _).trans (hemit _ _)
        · exact hs _
        · -- A change that loses the priority takes the order out and enters it again.
          exact (hs _).trans ((hemit _ _).trans ((hstore _ _).trans (hcore _ _ _ _)))
  | cancelOrder id requester now =>
    rw [call, cancelOrder]
    cases b.ownedBy id requester with
    | false => exact .refl b
    | true =>
      cases b.idIndex id with
      | none => exact .refl b
      | some p => exact (hemit b _).trans (hstore _ _)
  | placeStopOrder stop now =>
    rw [call, placeStopOrder]
    simp only
    split_ifs
    all_goals first
      | exact hemit b _
      | exact (hback b stop).trans ⟨rfl, le_rfl, le_rfl, rfl⟩
  | cancelStopOrder id requester now =>
    rw [call, cancelStopOrder]
    cases b.ownedBy id requester with
    | false => exact .refl b
    | true =>
      cases b.stopIndex id with
      | none => exact .refl b
      | some loc =>
        cases hfind : (b.stopsFor loc.side).find? loc.key with
        | none =>
          simp only [hfind]
          exact .refl b
        | some stop =>
          simp only [hfind]
          exact (herase b loc).trans ⟨rfl, le_rfl, le_rfl, rfl⟩
  | modifyStopOrder id requester price limit qty now =>
    rw [call, modifyStopOrder]
    cases b.ownedBy id requester with
    | false => exact .refl b
    | true =>
      cases b.stopIndex id with
      | none => exact .refl b
      | some loc =>
        cases hfind : (b.stopsFor loc.side).find? loc.key with
        | none =>
          simp only [hfind]
          exact .refl b
        | some stop =>
          simp only [hfind, Bool.not_true, Bool.false_eq_true, if_false]
          split_ifs
          · exact .refl b
          · exact .refl b
          · -- A smaller size alone keeps the place, any other change goes to the back.
            exact (herase b loc).trans ((hinsert _ _ _).trans (hemit _ _))
          · exact (herase b loc).trans ((hback _ _).trans (hemit _ _))

/-- A run moves the counters apart, call by call. -/
theorem grows_run (b : Book) (calls : List Call) : Grows b (b.run calls) := by
  induction calls generalizing b with
  | nil => exact .refl b
  | cons c calls ih => exact (grows_call b c).trans (ih _)

end Book

end OrderBookEngine
