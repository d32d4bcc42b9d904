import OrderBookEngine.Market.Chain
import Mathlib.Algebra.Order.BigOperators.Group.List

/-!
# How far the band lets a walk get

While an order walks, the band stays where it was; only the grace clock and the breach level move
(`Session.bandStep`). So how far a walk gets is a property of the queue that it walks down: it trades
with every order that it reaches, as long as the band lets it print all the prices up to there
(`exists_of_traded`, `traded_of_reaches`), and it stops at the first price that the band refuses
(`walkLoop_stopped`).

A side of the band is near when the order meets it first. Prices on it come before the band itself,
so a walk that stops there leaves better prices behind it than the edge that its remainder rests at.
-/

namespace OrderBookEngine

namespace Session

variable {s s' : Session} {now : ℤ} {side : Side} {p : ℤ} {g g' : Option ℤ × Option ℤ}

/-- A price out of the band, on the side of it that an order of a side meets first. -/
def nearSide (s : Session) (side : Side) (p : ℤ) : Bool :=
  s.hasReferencePrice &&
    match side with
    | .buy => p < s.lowerBandPrice
    | .sell => s.upperBandPrice < p

/-- A price out of the band, on the side of it that an order of a side meets last. -/
def farSide (s : Session) (side : Side) (p : ℤ) : Bool :=
  s.hasReferencePrice &&
    match side with
    | .buy => s.upperBandPrice < p
    | .sell => p < s.lowerBandPrice

/-- A price outside the band is on its near or on its far side. -/
theorem near_or_far (side : Side) (h : s.withinBand p = false) :
    s.nearSide side p = true ∨ s.farSide side p = true := by
  unfold withinBand at h
  unfold nearSide farSide
  cases href : s.hasReferencePrice with
  | false => simp [href] at h
  | true =>
    cases side <;> simp [href] at h ⊢ <;> omega

/-- The near side is outside the band. -/
theorem withinBand_of_near (h : s.nearSide side p = true) : s.withinBand p = false := by
  unfold nearSide at h
  unfold withinBand
  cases side <;> simp at h ⊢ <;> exact ⟨h.1, fun _ => by omega⟩

/-- The far side is outside the band. -/
theorem withinBand_of_far (h : s.farSide side p = true) : s.withinBand p = false := by
  unfold farSide at h
  unfold withinBand
  cases side <;> simp at h ⊢ <;> exact ⟨h.1, fun _ => by omega⟩

/-- What an order meets before a price on the near side is on the near side. -/
theorem near_of_near {q : ℤ} (hle : ¬ side.opposite.Better q p) (h : s.nearSide side q = true) :
    s.nearSide side p = true := by
  unfold nearSide at h ⊢
  cases side <;> simp [Side.opposite, Side.Better] at hle h ⊢ <;> exact ⟨h.1, by omega⟩

/-- What an order meets after a price on the far side is on the far side. -/
theorem far_of_far {q : ℤ} (hle : ¬ side.opposite.Better q p) (h : s.farSide side p = true) :
    s.farSide side q = true := by
  unfold farSide at h ⊢
  cases side <;> simp [Side.opposite, Side.Better] at hle h ⊢ <;> exact ⟨h.1, by omega⟩

/-! ## The grace clock and the breach level -/

/-- The grace clock and the breach level after a print, or `none` for a price that stops the walk. -/
def bandStep (s : Session) (now : ℤ) (g : Option ℤ × Option ℤ) (p : ℤ) :
    Option (Option ℤ × Option ℤ) :=
  match { s with outsideBandSince := g.1 }.bandDecision now g.2 p with
  | .print since level => some (since, level)
  | .halt => none
  | .limit => none

/-- The grace clock and the breach level after prints at a list of prices. -/
def sweep (s : Session) (now : ℤ) (ps : List ℤ) (g : Option ℤ × Option ℤ) :
    Option (Option ℤ × Option ℤ) :=
  ps.foldlM (s.bandStep now) g

/-- A sweep over two lists of prices, one after the other. -/
theorem sweep_append (ps qs : List ℤ) :
    s.sweep now (ps ++ qs) g = (s.sweep now ps g).bind (s.sweep now qs) := by
  unfold sweep
  rw [List.foldlM_append]
  rfl

/-- A sweep begins with its first price. -/
theorem sweep_cons (ps : List ℤ) :
    s.sweep now (p :: ps) g = (s.bandStep now g p).bind (s.sweep now ps) := rfl

/-- A sweep over one price. -/
theorem sweep_singleton : s.sweep now [p] g = s.bandStep now g p := by
  rw [sweep_cons]
  cases s.bandStep now g p <;> rfl

/-- A price in the band resets the clock, and not the breach level. -/
theorem bandStep_within (now : ℤ) (g : Option ℤ × Option ℤ) (h : s.withinBand p = true) :
    s.bandStep now g p = some (none, g.2) := by
  have hin : ({ s with outsideBandSince := g.1 } : Session).withinBand p = true := h
  rw [bandStep, bandDecision, hin]
  rfl

/-- A price out of the band is printed unless the grace period has run out or another level has been
printed since the clock started. -/
theorem bandStep_outside (now : ℤ) (g : Option ℤ × Option ℤ) (h : s.withinBand p = false) :
    (s.bandStep now g p = none ∧ ∃ since, g.1 = some since ∧
      (s.cfg.gracePeriodMs ≤ now - since ∨ ∃ level, g.2 = some level ∧ p ≠ level)) ∨
    s.bandStep now g p = some (some (g.1.getD now), some p) ∧
      (∀ since, g.1 = some since → now - since < s.cfg.gracePeriodMs) ∧
      ∀ since level, g = (some since, some level) → p = level := by
  have hout : ({ s with outsideBandSince := g.1 } : Session).withinBand p = false := h
  obtain ⟨since, level⟩ := g
  unfold bandStep bandDecision
  rw [hout]
  cases since with
  | none => exact Or.inr ⟨rfl, by simp, by simp⟩
  | some since =>
    by_cases hgrace : s.cfg.gracePeriodMs ≤ now - since
    · exact Or.inl ⟨by simp [hgrace], since, rfl, Or.inl hgrace⟩
    · cases level with
      | none => exact Or.inr ⟨by simp [hgrace], by simpa using hgrace, by simp⟩
      | some level =>
        by_cases hp : p = level
        · exact Or.inr ⟨by simp [hgrace, hp], by simpa using hgrace, by simp [hp]⟩
        · exact Or.inl ⟨by simp [hgrace, hp], since, rfl, Or.inr ⟨level, rfl, hp⟩⟩

/-- After a print out of the band, only that price is printed until the next print in the band. -/
theorem sweep_outside {since level : ℤ} {ps : List ℤ} (hps : ∀ p ∈ ps, s.withinBand p = false)
    (h : s.sweep now ps (some since, some level) = some g') :
    (∀ p ∈ ps, p = level) ∧ (ps ≠ [] → now - since < s.cfg.gracePeriodMs) ∧
      g' = (some since, some level) := by
  induction ps with
  | nil => exact ⟨by simp, fun hne => absurd rfl hne, (Option.some.inj h).symm⟩
  | cons p ps ih =>
    rw [sweep_cons] at h
    rcases bandStep_outside now (some since, some level) (hps p List.mem_cons_self) with
      ⟨hnone, -⟩ | ⟨hsome, hgrace, hlevel⟩
    · rw [hnone] at h
      cases h
    · obtain rfl := hlevel since level rfl
      rw [hsome] at h
      obtain ⟨hsame, -, hg⟩ := ih (fun q hq => hps q (List.mem_cons_of_mem _ hq)) h
      exact ⟨List.forall_mem_cons.mpr ⟨rfl, hsame⟩, fun _ => hgrace since rfl, hg⟩

/-- Why the band refuses a price `p` after prints at `ps`, all out of the band: the grace period has
run out, or was over at once, or `p` is a second level. -/
def Refuses (s : Session) (now : ℤ) (ps : List ℤ) (p : ℤ) : Prop :=
  (∃ since, s.outsideBandSince = some since ∧ s.cfg.gracePeriodMs ≤ now - since) ∨
    (s.outsideBandSince = none ∧ ps ≠ [] ∧ s.cfg.gracePeriodMs ≤ 0) ∨ ∃ q ∈ ps, p ≠ q

/-- A price out of the band, as all before it, is refused for one of these reasons. -/
theorem refuses_of_bandStep {ps : List ℤ} (hps : ∀ q ∈ ps, s.withinBand q = false)
    (hp : s.withinBand p = false) (h : s.sweep now ps (s.outsideBandSince, none) = some g)
    (hnone : s.bandStep now g p = none) : s.Refuses now ps p := by
  have hwhy : ∃ since, g.1 = some since ∧
      (s.cfg.gracePeriodMs ≤ now - since ∨ ∃ level, g.2 = some level ∧ p ≠ level) := by
    rcases bandStep_outside now g hp with ⟨-, hwhy⟩ | ⟨hsome, -⟩
    · exact hwhy
    · rw [hnone] at hsome
      cases hsome
  obtain ⟨since, hsince, hwhy⟩ := hwhy
  cases ps with
  | nil =>
    obtain rfl := Option.some.inj h
    rcases hwhy with hgrace | ⟨level, hlevel, -⟩
    · exact Or.inl ⟨since, hsince, hgrace⟩
    · cases hlevel
  | cons q qs =>
    rw [sweep_cons] at h
    rcases bandStep_outside now (s.outsideBandSince, none) (hps q List.mem_cons_self) with
      ⟨hstop, -⟩ | ⟨hsome, -⟩
    · rw [hstop] at h
      cases h
    · -- The prints so far are all at `q`, and the clock runs since the first of them at the latest.
      rw [hsome] at h
      obtain ⟨-, -, rfl⟩ := sweep_outside (fun r hr => hps r (List.mem_cons_of_mem _ hr)) h
      obtain rfl := Option.some.inj hsince
      rcases hwhy with hgrace | ⟨level, hlevel, hne⟩
      · cases hclock : s.outsideBandSince with
        | none =>
          rw [hclock] at hgrace
          exact Or.inr (Or.inl ⟨hclock, by simp, by simpa using hgrace⟩)
        | some since =>
          rw [hclock] at hgrace
          exact Or.inl ⟨since, hclock, hgrace⟩
      · obtain rfl := Option.some.inj hlevel
        exact Or.inr (Or.inr ⟨q, List.mem_cons_self, hne⟩)

/-- For each of these reasons the walk does not get past the price. -/
theorem sweep_of_refuses {ps : List ℤ} (hps : ∀ q ∈ ps ++ [p], s.withinBand q = false)
    (h : s.Refuses now ps p) : s.sweep now (ps ++ [p]) (s.outsideBandSince, none) = none := by
  -- A sweep that prints all stays at one price, within the grace period.
  by_contra hprinted
  obtain ⟨g, hprinted⟩ := Option.ne_none_iff_exists'.mp hprinted
  obtain ⟨q, qs, hq⟩ : ∃ q qs, ps ++ [p] = q :: qs := by
    cases ps with
    | nil => exact ⟨p, [], rfl⟩
    | cons q ps => exact ⟨q, ps ++ [p], rfl⟩
  rw [hq] at hps hprinted
  rw [sweep_cons] at hprinted
  rcases bandStep_outside now (s.outsideBandSince, none) (hps q List.mem_cons_self) with
    ⟨hstop, -⟩ | ⟨hsome, hgrace, -⟩
  · rw [hstop] at hprinted
    cases hprinted
  · rw [hsome] at hprinted
    obtain ⟨hsame, hclock, -⟩ := sweep_outside (fun r hr => hps r (List.mem_cons_of_mem _ hr)) hprinted
    have hall : ∀ r ∈ ps ++ [p], r = q := by
      rw [hq]
      exact List.forall_mem_cons.mpr ⟨rfl, hsame⟩
    rcases h with ⟨since, hsince, hle⟩ | ⟨hnone, hne, hle⟩ | ⟨r, hr, hpr⟩
    · exact absurd (hgrace since hsince) (not_lt.mpr hle)
    · have hqs : qs ≠ [] := by
        rintro rfl
        have hlength := congrArg List.length hq
        simp at hlength
        exact hne hlength
      have := hclock hqs
      rw [hnone] at this
      simp at this
      omega
    · rw [hall r (List.mem_append_left _ hr), hall p (List.mem_append_right _ (List.mem_singleton_self p))]
        at hpr
      exact hpr rfl

/-- Two prices out of the band with none in the band between them are one. -/
theorem eq_of_sweep {ps : List ℤ} {q : ℤ} (hq : s.withinBand q = false)
    (hps : ∀ r ∈ ps, s.withinBand r = false) (hp : s.withinBand p = false)
    (h : s.sweep now (q :: ps ++ [p]) g ≠ none) : p = q := by
  obtain ⟨g', h⟩ := Option.ne_none_iff_exists'.mp h
  rw [List.cons_append, sweep_cons] at h
  rcases bandStep_outside now g hq with ⟨hstop, -⟩ | ⟨hsome, -⟩
  · rw [hstop] at h
    cases h
  · rw [hsome] at h
    refine (sweep_outside (fun r hr => ?_) h).1 p (List.mem_append_right _ (List.mem_singleton_self p))
    rcases List.mem_append.mp hr with hr | hr
    · exact hps r hr
    · exact List.mem_singleton.mp hr ▸ hp

/-- Prices in the band leave the clock reset. -/
theorem sweep_within {ps : List ℤ} (hps : ∀ q ∈ ps, s.withinBand q = true) (hne : ps ≠ []) :
    s.sweep now ps g = some (none, g.2) := by
  induction ps generalizing g with
  | nil => exact absurd rfl hne
  | cons p ps ih =>
    rw [sweep_cons, bandStep_within now g (hps p List.mem_cons_self)]
    cases ps with
    | nil => rfl
    | cons q ps => exact ih (fun r hr => hps r (List.mem_cons_of_mem _ hr)) (by simp)

/-- What a walk prints before an order is printed whatever comes after. -/
theorem sweep_of_isPrefix {ps qs : List ℤ} (hpre : ps <+: qs) (h : s.sweep now qs g ≠ none) :
    s.sweep now ps g ≠ none := by
  obtain ⟨rs, rfl⟩ := hpre
  rw [sweep_append] at h
  intro hnone
  rw [hnone] at h
  exact h rfl

/-- The band and the collar are the same. -/
structure SameBand (s s' : Session) : Prop where
  /-- The configuration. -/
  cfg : s'.cfg = s.cfg
  /-- The price that the band is around. -/
  referencePrice : s'.referencePrice = s.referencePrice
  /-- Whether there is one. -/
  hasReferencePrice : s'.hasReferencePrice = s.hasReferencePrice

/-- The collar depends on the configuration and the reference. -/
theorem SameBand.insideCollar (h : SameBand s s') (order : Order) (p : ℤ) :
    s'.insideCollar order p = s.insideCollar order p := by
  unfold Session.insideCollar upperLimit lowerLimit
  rw [h.cfg, h.referencePrice, h.hasReferencePrice]

/-- The decision at a price depends on these and on the grace clock. -/
theorem SameBand.bandDecision (h : SameBand s s') (level : Option ℤ) (p : ℤ) :
    s'.bandDecision now level p =
      { s with outsideBandSince := s'.outsideBandSince }.bandDecision now level p := by
  have hwithin : s'.withinBand p = s.withinBand p := by
    unfold withinBand lowerBandPrice upperBandPrice lowerLimit upperLimit
    rw [h.cfg, h.referencePrice, h.hasReferencePrice]
  have hwithin' : ({ s with outsideBandSince := s'.outsideBandSince } : Session).withinBand p =
      s.withinBand p := rfl
  unfold Session.bandDecision
  rw [hwithin, hwithin', h.cfg]

end Session

/-- Quantities add up to no less than nothing. -/
theorem sum_quantity_nonneg {xs : List RestingOrder} (h : ∀ x ∈ xs, 0 < x.quantity) :
    0 ≤ (xs.map RestingOrder.quantity).sum := by
  refine List.sum_nonneg fun q hq => ?_
  obtain ⟨x, hx, rfl⟩ := List.mem_map.mp hq
  exact (h x hx).le

/-- An order that walks down a queue is not filled before `x`, which is behind `pre`, and nothing but
the band keeps it from trading with these. -/
structure Order.Reaches (order : Order) (s : Session) (pre : List RestingOrder) (x : RestingOrder) :
    Prop where
  /-- The orders before `x` do not use it up. -/
  quantity : (pre.map RestingOrder.quantity).sum < order.quantity
  /-- It reaches their prices and that of `x`, within its collar, and owns none of them. -/
  meets : ∀ y ∈ pre ++ [x], order.crosses y.price = true ∧ s.insideCollar order y.price = true ∧
    y.ownerId ≠ order.ownerId

/-- An order reaches what is before an order that it reaches. -/
theorem Order.Reaches.of_split {order : Order} {s : Session} {pre pre' rest : List RestingOrder}
    {x x' : RestingOrder} (h : order.Reaches s pre x) (hsplit : pre ++ [x] = pre' ++ x' :: rest)
    (hpos : ∀ y ∈ pre, 0 < y.quantity) : order.Reaches s pre' x' := by
  have hmeets : ∀ y ∈ pre' ++ [x'], y ∈ pre ++ [x] := fun y hy => by
    rw [hsplit, List.append_cons]
    exact List.mem_append_left _ hy
  refine ⟨?_, fun y hy => h.meets y (hmeets y hy)⟩
  have hquantity := h.quantity
  rcases List.eq_nil_or_concat rest with rfl | ⟨rest, y, rfl⟩
  · obtain ⟨rfl, -⟩ := List.append_inj' hsplit rfl
    exact hquantity
  · rw [List.concat_eq_append, ← List.cons_append, ← List.append_assoc] at hsplit
    obtain ⟨rfl, -⟩ := List.append_inj' hsplit rfl
    have hsum := sum_quantity_nonneg fun z hz => hpos z (List.mem_append_right _ hz)
    rw [List.map_append, List.sum_append] at hquantity
    omega

/-- The band stops a walk at a price on the near side. -/
def StopsOnNearSide (s : Session) (order : Order) (now : ℤ) (xs : List RestingOrder) : Prop :=
  ∃ pre x post, xs = pre ++ x :: post ∧ order.Reaches s pre x ∧
    s.nearSide order.side x.price = true ∧ s.Refuses now (pre.map RestingOrder.price) x.price

namespace Market

variable {s : Session} {now : ℤ} {w : Walk} {x : RestingOrder} {xs pre post : List RestingOrder}

/-- The grace clock and the breach level of a walk. -/
def Walk.grace (w : Walk) : Option ℤ × Option ℤ := (w.market.outsideBandSince, w.breachLevel)

/-- A trade leaves the clock and the breach level that the band has decided on. -/
theorem Walk.grace_trade (outside breach : Option ℤ) :
    (w.trade now x xs outside breach).grace = (outside, breach) := by
  have hclock : (w.trade now x xs outside breach).market.outsideBandSince = outside := by
    rw [Walk.toSession_trade]
    simp only
    split_ifs <;> rfl
  unfold Walk.grace
  rw [hclock]
  rfl

/-- A trade leaves the band where it is. -/
theorem Walk.sameBand_trade (h : s.SameBand w.market.toSession) (outside breach : Option ℤ) :
    s.SameBand (w.trade now x xs outside breach).market.toSession := by
  rw [Walk.toSession_trade]
  simp only
  split_ifs <;> exact ⟨h.cfg, h.referencePrice, h.hasReferencePrice⟩

/-- A print moves the grace clock and the breach level. -/
theorem Walk.bandStep_eq (h : s.SameBand w.market.toSession) (now p : ℤ) :
    s.bandStep now w.grace p =
      match w.market.bandDecision now w.breachLevel p with
      | .print outside breach => some (outside, breach)
      | .halt => none
      | .limit => none := by
  rw [Session.bandStep, h.bandDecision]
  rfl

/-- What a walk trades with it reaches, and the band lets it print all the prices up to there. -/
theorem exists_of_traded (hband : s.SameBand w.market.toSession) (hpos : ∀ y ∈ xs, 0 < y.quantity)
    {w' : Walk} (hp : (w', x) ∈ traded now xs w) :
    ∃ pre post, xs = pre ++ x :: post ∧ w.incoming.Reaches s pre x ∧
      s.sweep now ((pre ++ [x]).map RestingOrder.price) w.grace ≠ none := by
  induction xs generalizing w with
  | nil => cases hp
  | cons y xs ih =>
    rw [traded] at hp
    split_ifs at hp with hquantity hcrosses hcollar howner
    · cases hp
    · cases hp
    · cases hp
    · cases hp
    have hmeets : w.incoming.crosses y.price = true ∧ s.insideCollar w.incoming y.price = true ∧
        y.ownerId ≠ w.incoming.ownerId := by
      rw [hband.insideCollar] at hcollar
      exact ⟨by simpa using hcrosses, by simpa using hcollar, howner⟩
    have hstep := w.bandStep_eq hband now y.price
    cases hdecision : w.market.bandDecision now w.breachLevel y.price with
    | halt => simp [hdecision] at hp
    | limit => simp [hdecision] at hp
    | print outside breach =>
      simp only [hdecision] at hp hstep
      -- The trade is with the first order, or with one behind it.
      rcases List.mem_cons.mp hp with heq | hp
      · obtain ⟨-, rfl⟩ := Prod.mk.inj heq
        refine ⟨[], xs, rfl, ⟨by simpa using hquantity, by simpa using hmeets⟩, ?_⟩
        show s.sweep now [x.price] w.grace ≠ none
        rw [Session.sweep_singleton, hstep]
        simp
      · obtain ⟨pre, post, rfl, hreaches, hsweep⟩ := ih (w.sameBand_trade hband outside breach)
          (fun z hz => hpos z (List.mem_cons_of_mem _ hz)) hp
        have hsum := sum_quantity_nonneg fun z hz =>
          hpos z (List.mem_cons_of_mem _ (List.mem_append_left _ hz))
        have hless : (pre.map RestingOrder.quantity).sum <
            w.incoming.quantity - min w.incoming.quantity y.quantity := hreaches.quantity
        refine ⟨y :: pre, post, rfl, ⟨?_, List.forall_mem_cons.mpr ⟨hmeets, hreaches.meets⟩⟩, ?_⟩
        · -- The order is not filled by `y`, so `y` is filled by the order.
          rw [List.map_cons, List.sum_cons]
          omega
        · rw [Walk.grace_trade] at hsweep
          show s.sweep now (y.price :: (pre ++ [x]).map RestingOrder.price) w.grace ≠ none
          rw [Session.sweep_cons, hstep]
          exact hsweep

/-- A walk trades with every order that it reaches as long as the band lets it. -/
theorem traded_of_reaches (hband : s.SameBand w.market.toSession)
    (hpos : ∀ y ∈ pre ++ [x], 0 < y.quantity) (hreaches : w.incoming.Reaches s pre x)
    (hsweep : s.sweep now ((pre ++ [x]).map RestingOrder.price) w.grace ≠ none) :
    ∀ y ∈ pre ++ [x], ∃ w', (w', y) ∈ traded now (pre ++ x :: post) w := by
  -- An order in reach whose price the band allows is traded against.
  have hhead : ∀ {y : RestingOrder} {ys : List RestingOrder} {w : Walk},
      s.SameBand w.market.toSession → 0 < w.incoming.quantity →
      (w.incoming.crosses y.price = true ∧ s.insideCollar w.incoming y.price = true ∧
        y.ownerId ≠ w.incoming.ownerId) → ∀ {g}, s.bandStep now w.grace y.price = some g →
      traded now (y :: ys) w = (w, y) :: traded now ys (w.trade now y ys g.1 g.2) := by
    intro y ys w hband hquantity ⟨hcrosses, hcollar, howner⟩ g hg
    rw [← hband.insideCollar] at hcollar
    rw [w.bandStep_eq hband] at hg
    rw [traded, if_neg (by omega), if_neg (by simp [hcrosses]), if_neg (by simp [hcollar]),
      if_neg howner]
    cases hdecision : w.market.bandDecision now w.breachLevel y.price with
    | halt => simp [hdecision] at hg
    | limit => simp [hdecision] at hg
    | print outside breach =>
      rw [hdecision] at hg
      obtain rfl := Option.some.inj hg
      rfl
  induction pre generalizing w with
  | nil =>
    obtain ⟨g, hg⟩ := Option.ne_none_iff_exists'.mp hsweep
    have hg : s.bandStep now w.grace x.price = some g := Session.sweep_singleton.symm.trans hg
    have hquantity : 0 < w.incoming.quantity := by simpa using hreaches.quantity
    intro y hy
    rw [List.nil_append, hhead hband hquantity (hreaches.meets x (by simp)) hg]
    obtain rfl : y = x := by simpa using hy
    exact ⟨w, List.mem_cons_self⟩
  | cons y pre ih =>
    have hquantity := hreaches.quantity
    rw [List.map_cons, List.sum_cons] at hquantity
    have hy := hpos y List.mem_cons_self
    have hsum := sum_quantity_nonneg fun z hz =>
      hpos z (List.mem_cons_of_mem _ (List.mem_append_left _ hz))
    rw [List.cons_append, List.map_cons, Session.sweep_cons] at hsweep
    cases hg : s.bandStep now w.grace y.price with
    | none =>
      rw [hg] at hsweep
      exact absurd rfl hsweep
    | some g =>
      rw [hg] at hsweep
      intro z hz
      rw [List.cons_append, hhead hband (by omega) (hreaches.meets y List.mem_cons_self) hg]
      rcases List.mem_cons.mp hz with rfl | hz
      · exact ⟨w, List.mem_cons_self⟩
      · have hreaches' : (w.trade now y (pre ++ x :: post) g.1 g.2).incoming.Reaches s pre x := by
          refine ⟨?_, fun z hz => hreaches.meets z (List.mem_cons_of_mem _ hz)⟩
          show _ < w.incoming.quantity - min w.incoming.quantity y.quantity
          omega
        obtain ⟨w', hw'⟩ := ih (w.sameBand_trade hband g.1 g.2)
          (fun z hz => hpos z (List.mem_cons_of_mem _ hz)) hreaches'
          (by rw [Walk.grace_trade]; exact hsweep) z hz
        exact ⟨w', List.mem_cons_of_mem _ hw'⟩

/-- Where and why a walk stops that the band cuts short. -/
theorem walkLoop_stopped (hband : s.SameBand w.market.toSession)
    (hpos : ∀ y ∈ xs, 0 < y.quantity)
    (hqueue : w.incoming.quantity = 0 ∨ w.market.queue w.incoming.side.opposite = xs)
    (hend : (walkLoop now xs w).2 = .halted ∨ (walkLoop now xs w).2 = .bandLimited) :
    ∃ pre x post g, xs = pre ++ x :: post ∧ w.incoming.Reaches s pre x ∧
      s.sweep now (pre.map RestingOrder.price) w.grace = some g ∧ s.bandStep now g x.price = none ∧
      (walkLoop now xs w).1.market.queue w.incoming.side.opposite = x :: post := by
  induction xs generalizing w with
  | nil => simp [walkLoop] at hend
  | cons y xs ih =>
    rw [walkLoop] at hend ⊢
    split_ifs at hend ⊢ with hquantity hcrosses hcollar howner
    · simp at hend
    · simp at hend
    · simp at hend
    · simp at hend
    have hmeets : w.incoming.crosses y.price = true ∧ s.insideCollar w.incoming y.price = true ∧
        y.ownerId ≠ w.incoming.ownerId := by
      rw [hband.insideCollar] at hcollar
      exact ⟨by simpa using hcrosses, by simpa using hcollar, howner⟩
    have hxs := hqueue.resolve_left (by omega)
    have hstep := w.bandStep_eq hband now y.price
    have hhere : w.incoming.Reaches s [] y := ⟨by simpa using hquantity, by simpa using hmeets⟩
    -- The walk stops at this order, or it trades and stops later.
    cases hdecision : w.market.bandDecision now w.breachLevel y.price with
    | halt =>
      rw [hdecision] at hstep
      exact ⟨[], y, xs, w.grace, rfl, hhere, rfl, hstep, (queue_withSession ..).trans hxs⟩
    | limit =>
      rw [hdecision] at hstep
      exact ⟨[], y, xs, w.grace, rfl, hhere, rfl, hstep, hxs⟩
    | print outside breach =>
      simp only [hdecision] at hend hstep ⊢
      obtain ⟨pre, x, post, g, rfl, hreaches, hsweep, hstop, hrest⟩ :=
        ih (w.sameBand_trade hband outside breach) (fun z hz => hpos z (List.mem_cons_of_mem _ hz))
          (w.queue_trade now y _ outside breach) hend
      have hsum := sum_quantity_nonneg fun z hz =>
        hpos z (List.mem_cons_of_mem _ (List.mem_append_left _ hz))
      have hless : (pre.map RestingOrder.quantity).sum <
          w.incoming.quantity - min w.incoming.quantity y.quantity := hreaches.quantity
      refine ⟨y :: pre, x, post, g, rfl, ⟨?_, List.forall_mem_cons.mpr ⟨hmeets, hreaches.meets⟩⟩, ?_,
        hstop, hrest⟩
      · rw [List.map_cons, List.sum_cons]
        omega
      · rw [Walk.grace_trade] at hsweep
        rw [List.map_cons, Session.sweep_cons, hstep]
        exact hsweep

/-! ## The near side -/

variable {order : Order}

/-- Where no price is on the near side, no walk stops there. -/
theorem not_stopsOnNearSide (h : ∀ x ∈ xs, s.nearSide order.side x.price = false) :
    ¬ StopsOnNearSide s order now xs := by
  rintro ⟨pre, x, post, rfl, -, hnear, -⟩
  rw [h x (List.mem_append_right _ List.mem_cons_self)] at hnear
  cases hnear

/-- All that comes before an order on the near side is on the near side. -/
theorem near_of_sorted (hsorted : xs.Pairwise fun x y => ¬ order.side.opposite.Better y.price x.price)
    (hxs : xs = pre ++ x :: post) (hx : s.nearSide order.side x.price = true) :
    ∀ y ∈ pre ++ [x], s.nearSide order.side y.price = true := by
  subst hxs
  intro y hy
  rcases List.mem_append.mp hy with hy | hy
  · exact Session.near_of_near ((List.pairwise_append.mp hsorted).2.2 y hy x List.mem_cons_self) hx
  · exact List.mem_singleton.mp hy ▸ hx

/-- The prices of orders on the near side are out of the band. -/
theorem outside_of_near {ys : List RestingOrder}
    (h : ∀ y ∈ ys, s.nearSide order.side y.price = true) :
    ∀ p ∈ ys.map RestingOrder.price, s.withinBand p = false := by
  intro p hp
  obtain ⟨y, hy, rfl⟩ := List.mem_map.mp hp
  exact Session.withinBand_of_near (h y hy)

/-- A walk that the band does not stop on the near side prints at all prices there. -/
theorem sweep_near (hstops : ¬ StopsOnNearSide s order now xs) (hxs : xs = pre ++ post)
    (hnear : ∀ y ∈ pre, s.nearSide order.side y.price = true)
    (hreaches : ∀ pre' x' rest, pre = pre' ++ x' :: rest → order.Reaches s pre' x') :
    s.sweep now (pre.map RestingOrder.price) (s.outsideBandSince, none) ≠ none := by
  induction pre using List.reverseRecOn generalizing post with
  | nil => exact Option.some_ne_none _
  | append_singleton pre x ih =>
    have hsweep := ih (hxs.trans (List.append_cons pre x post).symm)
      (fun y hy => hnear y (List.mem_append_left _ hy))
      (fun pre' x' rest hsplit => hreaches pre' x' (rest ++ [x]) (by rw [hsplit]; simp))
    obtain ⟨g, hg⟩ := Option.ne_none_iff_exists'.mp hsweep
    have hx := hnear x (List.mem_append_right _ (List.mem_singleton_self x))
    rw [List.map_append, Session.sweep_append, hg]
    show s.sweep now [x.price] g ≠ none
    rw [Session.sweep_singleton]
    intro hnone
    refine hstops ⟨pre, x, post, hxs.trans (List.append_cons pre x post).symm,
      hreaches pre x [] rfl, hx, ?_⟩
    exact Session.refuses_of_bandStep
      (outside_of_near fun y hy => hnear y (List.mem_append_left _ hy))
      (Session.withinBand_of_near hx) hg hnone

end Market

end OrderBookEngine
