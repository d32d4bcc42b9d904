import OrderBookEngine.Market.Events

/-!
# What the operations answer

What the engine's steps append to the stream (`Steps.appends`), and the cases of `modify_order`
(`modifyOrder_cases`). A resting order that is modified frees its node before it enters again, so its
remainder finds room, at its limit or at a valid band edge: nothing but a self-trade can stop it.
-/

namespace OrderBookEngine

namespace Market

variable {m m' : Market} {order : Order} {now : ℤ} {s s' : Stage}

/-! ## What the engine's steps append -/

/-- A stream goes on with events of the engine's steps. -/
def Appends (events events' : List EngineEvent) : Prop :=
  ∃ es, events' = events ++ es ∧ ∀ e ∈ es, e.kind.ofStep = true

/-- Nothing is appended. -/
theorem appends_refl (events : List EngineEvent) : Appends events events := ⟨[], by simp, by simp⟩

/-- One event is appended. -/
theorem appends_one {events : List EngineEvent} {e : EngineEvent} (h : e.kind.ofStep = true) :
    Appends events (events ++ [e]) :=
  ⟨[e], rfl, fun _ he' => List.mem_singleton.mp he' ▸ h⟩

/-- One stretch is appended behind another. -/
theorem Appends.trans {events₁ events₂ events₃ : List EngineEvent} (h : Appends events₁ events₂)
    (h' : Appends events₂ events₃) : Appends events₁ events₃ := by
  obtain ⟨es, rfl, hes⟩ := h
  obtain ⟨es', rfl, hes'⟩ := h'
  exact ⟨es ++ es', List.append_assoc _ _ _, fun e he => (List.mem_append.mp he).elim (hes e) (hes' e)⟩

/-- A step appends events of the engine. -/
theorem Step.appends (h : Step now s s') : Appends s.market.events s'.market.events := by
  rcases h.appended with hsame | ⟨e, hevents, hk, -⟩
  · rw [hsame]
    exact appends_refl _
  · rw [hevents]
    exact appends_one hk

/-- Steps append events of the engine. -/
theorem Steps.appends (h : Steps now s s') : Appends s.market.events s'.market.events :=
  h.invariant (I := fun s' => Appends s.market.events s'.market.events)
    (fun hstep h => h.trans hstep.appends) (appends_refl _)

/-- An admitted order leaves its acceptance, behind that of a resumption and ahead of the events of the
engine's steps. -/
theorem addOrder_events (hwf : m.Wf []) (hfifo : m.fifo = []) (hadm : m.admitted order now = some m') :
    ∃ before n es, (m.addOrder order now).1.events =
        m.events ++ (before ++ (order.event .accepted now).numbered n :: es) ∧
      (∀ e ∈ before, e.kind = .resumed) ∧ ∀ e ∈ es, e.kind.ofStep = true := by
  obtain ⟨m₀, hresumes, hid, hhalt, hvalid, rfl⟩ := admitted_eq_some hadm
  have hact : Acts m₀ (.addOrder order now) _ := .submit hid hhalt hvalid
  have hstart := (hwf.resumes hresumes).act (hresumes.fifo.trans hfifo) hact
  obtain ⟨hsteps, -⟩ := enter_carried (carried_steps hstart) hadm Relation.ReflTransGen.refl
    (carries_steps hstart _) true
  obtain ⟨before, hbefore, hresumed⟩ := hresumes.events
  obtain ⟨es, hes, hkinds⟩ := hsteps.appends
  refine ⟨before, m₀.nextSeq, es, ?_, hresumed, hkinds⟩
  refine hes.trans ?_
  show (m₀.events ++ [(order.event .accepted now).numbered m₀.nextSeq]) ++ es = _
  rw [hbefore]
  simp

/-! ## The remainder of a replacement -/

/-- The band edge of a limit order is a valid limit. -/
theorem validateOrderFields_atBandEdge (hwf : m.Wf [order.id]) (href : m.hasReferencePrice = true)
    (hpriced : Priced order) (hpos : 0 < order.quantity) :
    Session.validateOrderFields (m.atBandEdge order) = .none := by
  have hp := hwf.reference href
  have hband := m.cfg.bandBps_valid
  -- Rounding down a price that is at least the reference leaves a positive price.
  have hupper : 0 < m.upperBandPrice := by
    have hproduct : 10000 ≤ m.referencePrice * (10000 + m.cfg.bandBps) := by
      calc (10000 : ℤ) ≤ 1 * (10000 + m.cfg.bandBps) := by omega
        _ ≤ m.referencePrice * (10000 + m.cfg.bandBps) :=
          Int.mul_le_mul_of_nonneg_right (by omega) (by omega)
    unfold Session.upperBandPrice Session.upperLimit
    simp only
    rw [Int.tdiv_eq_ediv_of_nonneg (by omega)]
    omega
  unfold Priced at hpriced
  cases htype : order.type with
  | market =>
    simp only [htype] at hpriced
    simp [Session.validateOrderFields, Session.atBandEdge, htype, hpriced, not_le.mpr hpos]
  | limit =>
    simp only [htype] at hpriced
    obtain ⟨p, hprice, hppos⟩ := hpriced
    cases hside : order.side with
    | buy =>
      have hmin : ¬ min p m.upperBandPrice ≤ 0 := by omega
      simp [Session.validateOrderFields, Session.atBandEdge, htype, hprice, hside, not_le.mpr hpos,
        hmin]
    | sell =>
      have hmax : ¬ max p m.lowerBandPrice ≤ 0 := by omega
      simp [Session.validateOrderFields, Session.atBandEdge, htype, hprice, hside, not_le.mpr hpos,
        hmax]

/-- A walk leaves no fewer free nodes, and stops only at a price outside a band. -/
theorem WalkSteps.room {w : Walk} {s' : Stage} (hs : WalkSteps now (.walking w) s') :
    (∀ w', s' = .walking w' → w.market.freeNodes ≤ w'.market.freeNodes) ∧
      ∀ w', s' = .stopped w' →
        w.market.freeNodes ≤ w'.market.freeNodes ∧ w'.market.hasReferencePrice = true := by
  -- Only a reference price makes a band that a price can be outside of.
  have hband : ∀ {w' : Walk} {x : RestingOrder} {d : Session.BandDecision},
      w'.market.bandDecision now w'.breachLevel x.price = d → (∀ o b, d ≠ .print o b) →
        w'.market.hasReferencePrice = true := by
    intro w' x d hd hprint
    by_contra hnone
    rw [Bool.not_eq_true] at hnone
    have hin : w'.market.withinBand x.price = true := by
      simp [Session.withinBand, hnone]
    rw [Session.bandDecision, hin] at hd
    exact hprint _ _ hd.symm
  refine hs.invariant (I := fun s' =>
    (∀ w', s' = .walking w' → w.market.freeNodes ≤ w'.market.freeNodes) ∧
      ∀ w', s' = .stopped w' →
        w.market.freeNodes ≤ w'.market.freeNodes ∧ w'.market.hasReferencePrice = true)
    (fun {s s'} hw hstep h => ?_) ⟨fun w' h => (by cases h; exact le_rfl), fun w' h => (by cases h)⟩
  cases hstep with
  | @trade w₁ x xs outside breach meets band =>
    refine ⟨fun w' h' => ?_, fun w' h' => (by cases h')⟩
    cases h'
    refine (h.1 _ rfl).trans ?_
    rw [Walk.market_trade]
    simp only
    split_ifs
    · exact Nat.le_succ _
    · exact le_rfl
  | halt meets band =>
    refine ⟨fun w' h' => (by cases h'), fun w' h' => ?_⟩
    cases h'
    exact ⟨(h.1 _ rfl :), hband band (by simp)⟩
  | limit meets band =>
    refine ⟨fun w' h' => (by cases h'), fun w' h' => ?_⟩
    cases h'
    exact ⟨h.1 _ rfl, hband band (by simp)⟩
  | reenter => cases hw
  | fire fifo halted => cases hw
  | sendBack halted => cases hw
  | _ => exact ⟨fun w' h' => (by cases h'), fun w' h' => (by cases h')⟩

/-- With room in the pool, an order comes to rest. -/
theorem restOrder_isSome (h : m.freeNodes ≠ 0) : ∃ m', m.restOrder order now = some m' := by
  rw [restOrder, if_neg h]
  exact ⟨_, rfl⟩

/-- With room on the book, the remainder of a limit order rests or meets a self-trade. -/
theorem settle_rejectReason {w₀ w : Walk} {ending : WalkEnd} (hwf : Stage.Wf (.walking w₀))
    (hend : ending.Reached now (.walking w₀) w) (htype : w.incoming.type = .limit)
    (hroom : w₀.market.freeNodes ≠ 0) :
    (settle w ending now).2.rejectReason = .none ∨
      (settle w ending now).2.rejectReason = .selfTrade := by
  have hedge : WalkSteps now (.walking w₀) (.stopped w) → ∀ why,
      ((w.market.markIfFilled w.incoming).restAtBandEdge w.incoming w.trades why now).2.rejectReason =
        .none := by
    intro hs why
    obtain ⟨hfree, href⟩ := hs.room.2 w rfl
    obtain ⟨hwf', hpriced, hpos, -⟩ := hs.steps.wf hwf
    have hne : w.market.freeNodes ≠ 0 := by omega
    obtain ⟨m', hm'⟩ : ∃ m', w.market.restOrder (w.market.atBandEdge w.incoming) now = some m' :=
      restOrder_isSome hne
    rw [markIfFilled_of_pos hpos, restAtBandEdge, if_pos htype]
    simp only [validateOrderFields_atBandEdge hwf' href hpriced hpos, if_true, hm']
  cases ending with
  | halted => exact Or.inl (hedge hend _)
  | bandLimited => exact Or.inl (hedge hend _)
  | selfTrade => exact Or.inr rfl
  | collar =>
    -- Only market orders have a collar.
    have hmarket : w.incoming.type = .market := hend.2.2
    rw [htype] at hmarket
    cases hmarket
  | exhausted =>
    have hfree := hend.1.room.1 w rfl
    have hne : (w.market.markIfFilled w.incoming).freeNodes ≠ 0 := by
      rw [markIfFilled]
      split_ifs <;> show w.market.freeNodes ≠ 0 <;> omega
    obtain ⟨m', hm'⟩ : ∃ m', (w.market.markIfFilled w.incoming).restOrder w.incoming now = some m' :=
      restOrder_isSome hne
    left
    simp only [settle, runOut, htype, hm', and_true, reduceCtorEq, false_and, if_false]
    split_ifs <;> rfl

/-- With room on the book, nothing but a self-trade stops a limit order. -/
theorem walk_rejectReason (hwf : Stage.Wf (.walking { market := m, incoming := order }))
    (htype : order.type = .limit) (hroom : m.freeNodes ≠ 0) (now : ℤ) :
    (m.walk order now).2.rejectReason = .none ∨ (m.walk order now).2.rejectReason = .selfTrade := by
  obtain ⟨hend, -⟩ := walkLoop_steps now (m.queue order.side.opposite) hwf Relation.ReflTransGen.refl
    (Or.inr rfl)
  obtain ⟨quantity, filled, hincoming⟩ :=
    walkLoop_incoming now (m.queue order.side.opposite) { market := m, incoming := order }
  refine settle_rejectReason hwf hend ?_ hroom
  rw [hincoming]
  exact htype

/-! ## Modifying an order -/

/-- The cases of `modify_order`: what it answers, and what it does. -/
inductive Modified (m : Market) (id : OrderId) (requester : OwnerId) (price quantity now : ℤ) :
    Market × OrderResult → Prop where
  /-- The requester does not own the id. -/
  | unowned (owned : m.ownedBy id requester = false) :
    Modified m id requester price quantity now
      (m, { trades := [], unacceptedQuantity := quantity, rejectReason := .unknownOrder })
  /-- The id does not rest any more, or is a stop. -/
  | notResting (owned : m.ownedBy id requester = true) (found : m.restingOrder? id = none) :
    Modified m id requester price quantity now
      (m, { trades := [], unacceptedQuantity := quantity
            rejectReason := if (m.finishedOrders id).isSome then .tooLate else .unknownOrder })
  /-- The new price or quantity is not valid. -/
  | invalid {order : Order} {why : RejectReason} (owned : m.ownedBy id requester = true)
    (found : m.restingOrder? id = some order)
    (fields : Session.validateOrderFields { order with price := some price, quantity } = why)
    (bad : why = .invalidPrice ∨ why = .invalidQuantity) :
    Modified m id requester price quantity now
      (m, { trades := [], unacceptedQuantity := quantity, rejectReason := why })
  /-- A halt that has not run out. -/
  | halted {order : Order} (owned : m.ownedBy id requester = true)
    (found : m.restingOrder? id = some order) (pos : 0 < quantity - order.filled)
    (change : ¬(some price = order.price ∧ quantity - order.filled ≤ order.quantity))
    (halted : m.halted = true) (early : now < m.haltUntil) :
    Modified m id requester price quantity now
      (m, { trades := [], unacceptedQuantity := quantity, rejectReason := .symbolHalted })
  /-- The new quantity has been filled, so the order is withdrawn. -/
  | withdraw {order : Order} (owned : m.ownedBy id requester = true)
    (found : m.restingOrder? id = some order) (le : quantity - order.filled ≤ 0) :
    Modified m id requester price quantity now
      ((m.emit (order.event .cancelled now)).remove order.id,
        { trades := [], unacceptedQuantity := 0, rejectReason := .none })
  /-- The order keeps its place with less. -/
  | reduce {order : Order} (owned : m.ownedBy id requester = true)
    (found : m.restingOrder? id = some order) (pos : 0 < quantity - order.filled)
    (place : some price = order.price ∧ quantity - order.filled ≤ order.quantity) :
    Modified m id requester price quantity now
      ((m.reduce order.id (order.quantity - (quantity - order.filled))).emit
          ({ order with quantity := quantity - order.filled }.event .modified now),
        { trades := [], unacceptedQuantity := 0, rejectReason := .none })
  /-- The order goes behind the others, at its new price, as a new one would. -/
  | replace {order : Order} {m₀ : Market} {r : Market × OrderResult}
    (owned : m.ownedBy id requester = true) (found : m.restingOrder? id = some order)
    (pos : 0 < quantity - order.filled)
    (change : ¬(some price = order.price ∧ quantity - order.filled ≤ order.quantity))
    (valid : Session.validateOrderFields
      { order with price := some price, quantity := quantity - order.filled } = .none)
    (resumes : Resumes now m m₀) (halted : m₀.halted = false)
    (enter : ((m₀.emit (order.event .replaced now)).remove order.id).enter
      { order with price := some price, quantity := quantity - order.filled } now false = r)
    (why : r.2.rejectReason = .none ∨ r.2.rejectReason = .selfTrade) :
    Modified m id requester price quantity now r

/-- The fields of an order are valid, or its price or its quantity is not. -/
theorem bad_of_validateOrderFields (order : Order) :
    Session.validateOrderFields order = .none ∨
      Session.validateOrderFields order = .invalidPrice ∨
        Session.validateOrderFields order = .invalidQuantity := by
  unfold Session.validateOrderFields
  split_ifs <;> simp

/-- **The cases of `modify_order`.** -/
theorem modifyOrder_cases (hwf : m.Wf []) (hfifo : m.fifo = []) (id : OrderId) (requester : OwnerId)
    (price quantity now : ℤ) :
    Modified m id requester price quantity now (m.modifyOrder id requester price quantity now) := by
  rw [modifyOrder]
  simp only
  by_cases howned : m.ownedBy id requester
  swap
  · rw [Bool.not_eq_true] at howned
    simpa [howned] using Modified.unowned howned
  cases hfound : m.restingOrder? id with
  | none => simpa [howned] using Modified.notResting howned hfound
  | some order =>
    simp only [howned, Bool.not_true, Bool.false_eq_true, if_false]
    rcases bad_of_validateOrderFields { order with price := some price, quantity } with hok | hbad
    swap
    · have hne : Session.validateOrderFields { order with price := some price, quantity } ≠ .none := by
        rcases hbad with hbad | hbad <;> simp [hbad]
      rw [if_pos hne]
      exact .invalid howned hfound rfl hbad
    simp only [hok, ne_eq, not_true_eq_false, if_false]
    by_cases hrem : quantity - order.filled ≤ 0
    · rw [if_pos hrem]
      exact .withdraw howned hfound hrem
    have hpos : 0 < quantity - order.filled := by omega
    rw [if_neg hrem]
    by_cases hplace : some price = order.price ∧ quantity - order.filled ≤ order.quantity
    · rw [if_pos hplace]
      exact .reduce howned hfound hpos hplace
    rw [if_neg hplace]
    set replacement : Order := { order with price := some price, quantity := quantity - order.filled }
      with hreplacement
    obtain ⟨hresumes, hvalid⟩ := resumes_validateNewOrder m replacement now
    by_cases hinvalid : (m.validateNewOrder replacement now).2 = .none
    swap
    · -- The fields of the replacement are those that have passed, with a smaller quantity.
      have hfields : Session.validateOrderFields replacement = .none := by
        unfold Session.validateOrderFields at hok ⊢
        split_ifs at hok with h1 h2 h3
        rw [if_neg h1, if_neg h2, if_neg hrem]
      simp only [hinvalid, not_false_eq_true, if_true]
      rw [Session.validateNewOrder] at hinvalid ⊢
      split_ifs at hinvalid ⊢ with hhalt hearly
      · exact .halted howned hfound hpos hplace hhalt hearly
      · exact absurd hfields hinvalid
      · exact absurd hfields hinvalid
    simp only [hinvalid, not_true_eq_false, if_false]
    obtain ⟨hhalt, hfields⟩ := hvalid hinvalid
    set m₀ : Market := { m with toSession := (m.validateNewOrder replacement now).1 } with hm₀
    refine .replace howned hfound hpos hplace hfields hresumes hhalt rfl ?_
    have hfound₀ : m₀.restingOrder? id = some order := hfound
    have hact : Acts m₀ (.modifyOrder id requester price quantity now) _ :=
      .replace hhalt hfound₀ hplace hfields
    have hwf₀ := hwf.resumes hresumes
    have hentering := hwf₀.act hfifo hact
    obtain ⟨side, x, hx, rfl, rfl⟩ := mem_of_restingOrder? hfound₀
    rw [enter, enterWith_of_admitted _ (admitted_of_entering hentering), afterWalk]
    have hwalking : Stage.Wf (.walking (accept _ replacement now)) :=
      hentering.step (Step.reenter : Step now _ _)
    -- The node of the order is free again.
    have hroom := walk_rejectReason hwalking rfl (by simp [emit, remove]) now
    cases (walk _ replacement now).2.trades.getLast? with
    | none => exact hroom
    | some last => exact hroom

end Market

end OrderBookEngine
