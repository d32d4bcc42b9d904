import OrderBookEngine.Market.Sweep
import OrderBookEngine.Refine.Run

/-!
# One breach level per sweep

The fill loop lets a call print at one level out of the band. It forgets the level's clock at a price
in the band, and then takes the next price out of the band for the first of a new grace period. So a
walk that gets through the near side of the band, trades in it, and reaches the far side prints at a
second level there (`oneBreachLevel_iff`).
-/

namespace OrderBookEngine

/-- The trades out of a band are at one price. -/
def OneBreachLevel (s : Session) (trades : List Trade) : Prop :=
  ∀ t ∈ trades, ∀ t' ∈ trades, s.withinBand t.price = false → s.withinBand t'.price = false →
    t.price = t'.price

/-- The trades are compared two by two. -/
instance (s : Session) (trades : List Trade) : Decidable (OneBreachLevel s trades) :=
  inferInstanceAs (Decidable (∀ t ∈ trades, ∀ t' ∈ trades, _ → _ → _))

/-- A walk gets through the near side of the band, and reaches the far side with orders of the near
side and of the band behind it. -/
structure SweepsAcross (s : Session) (order : Order) (now : ℤ) (xs : List RestingOrder) : Prop where
  /-- It is not stopped on the near side. -/
  through : ¬ StopsOnNearSide s order now xs
  /-- It reaches an order of the far side, and passes one of the near side and one of the band. -/
  across : ∃ pre x post, xs = pre ++ x :: post ∧ order.Reaches s pre x ∧
    s.farSide order.side x.price = true ∧ (∃ y ∈ pre, s.nearSide order.side y.price = true) ∧
    ∃ y ∈ pre, s.withinBand y.price = true

namespace Market

variable {m : Market} {s : Session} {order : Order} {now : ℤ} {w : Walk} {x : RestingOrder}
  {xs pre post : List RestingOrder}

/-! ## The trades of a walk -/

/-- The trades of a walk are those of the orders that it traded with. -/
theorem trades_walkLoop (now : ℤ) (xs : List RestingOrder) (w : Walk) :
    (walkLoop now xs w).1.trades =
      w.trades ++ (traded now xs w).map fun p => p.1.nextTrade now p.2 := by
  induction xs generalizing w with
  | nil => simp [walkLoop, traded]
  | cons x xs ih =>
    rw [walkLoop, traded]
    split_ifs
    · simp
    · simp
    · simp
    · simp
    · cases w.market.bandDecision now w.breachLevel x.price with
      | halt => simp
      | limit => simp
      | print outside breach =>
        rw [ih (w.trade now x xs outside breach), List.map_cons]
        exact List.append_assoc _ _ _

/-- What follows a walk makes no trade. -/
theorem trades_settle (w : Walk) (ending : WalkEnd) (now : ℤ) :
    (settle w ending now).2.trades = w.trades := by
  -- Wherever the rest goes, the result has the trades of the walk.
  have hedge : ∀ (m : Market) (why : RejectReason),
      (m.restAtBandEdge w.incoming w.trades why now).2.trades = w.trades := by
    intro m why
    unfold restAtBandEdge
    simp only
    split_ifs
    · cases m.restOrder (m.atBandEdge w.incoming) now <;> rfl
    all_goals rfl
  have hrunOut : ∀ (m : Market) (why : RejectReason),
      (m.runOut w.incoming w.trades why now).2.trades = w.trades := by
    intro m why
    unfold runOut
    split_ifs
    · cases m.restOrder w.incoming now <;> rfl
    all_goals rfl
  unfold settle
  cases ending with
  | halted => exact hedge _ _
  | bandLimited => exact hedge _ _
  | selfTrade => rfl
  | collar => exact hrunOut _ _
  | exhausted => exact hrunOut _ _

/-- The prices of a walk's trades. -/
theorem exists_trade_iff (m : Market) (order : Order) (now p : ℤ) :
    (∃ t ∈ (m.walk order now).2.trades, t.price = p) ↔
      ∃ w x, (w, x) ∈ traded now (m.queue order.side.opposite) { market := m, incoming := order } ∧
        x.price = p := by
  have htrades : (m.walk order now).2.trades =
      (traded now (m.queue order.side.opposite) { market := m, incoming := order }).map
        fun q => q.1.nextTrade now q.2 := by
    unfold walk
    simp only
    rw [trades_settle, trades_walkLoop, List.nil_append]
  rw [htrades]
  constructor
  · rintro ⟨t, ht, rfl⟩
    obtain ⟨⟨w, x⟩, hp, rfl⟩ := List.mem_map.mp ht
    exact ⟨w, x, hp, rfl⟩
  · rintro ⟨w, x, hp, rfl⟩
    exact ⟨_, List.mem_map_of_mem hp, rfl⟩

/-! ## At most one level, unless the walk gets across -/

/-- A price in the band stands between two levels that a walk prints out of it. -/
theorem exists_within_between {g : Option ℤ × Option ℤ} {a b : RestingOrder}
    {mid : List RestingOrder} (ha : s.withinBand a.price = false) (hb : s.withinBand b.price = false)
    (hne : b.price ≠ a.price)
    (hsweep : s.sweep now ((pre ++ a :: mid ++ [b]).map RestingOrder.price) g ≠ none) :
    ∃ z ∈ mid, s.withinBand z.price = true := by
  by_contra hnone
  refine hne ?_
  have hmid : ∀ p ∈ mid.map RestingOrder.price, s.withinBand p = false := by
    intro p hp
    obtain ⟨z, hz, rfl⟩ := List.mem_map.mp hp
    exact Bool.eq_false_iff.mpr fun hw => hnone ⟨z, hz, hw⟩
  rw [List.append_assoc, List.map_append, Session.sweep_append] at hsweep
  cases hg : s.sweep now (pre.map RestingOrder.price) g with
  | none =>
    rw [hg] at hsweep
    exact absurd rfl hsweep
  | some g' =>
    rw [hg] at hsweep
    have hrest : s.sweep now (a.price :: mid.map RestingOrder.price ++ [b.price]) g' ≠ none := by
      simpa using hsweep
    exact Session.eq_of_sweep ha hmid hb hrest

/-- A walk that is stopped on the near side prints no price in the band. -/
theorem not_within_of_stopsOnNearSide
    (hsorted : xs.Pairwise fun x y => ¬ order.side.opposite.Better y.price x.price)
    (hxs : xs = pre ++ post)
    (hsweep : s.sweep now (pre.map RestingOrder.price) (s.outsideBandSince, none) ≠ none)
    (hstops : StopsOnNearSide s order now xs) : ∀ z ∈ pre, s.withinBand z.price = false := by
  obtain ⟨pre', x', post', hxs', -, hnear, hrefuses⟩ := hstops
  have hall := near_of_sorted hsorted hxs' hnear
  have hnone : s.sweep now ((pre' ++ [x']).map RestingOrder.price) (s.outsideBandSince, none) = none := by
    rw [List.map_append]
    refine Session.sweep_of_refuses ?_ hrefuses
    rw [← List.map_singleton, ← List.map_append]
    exact outside_of_near hall
  have hleads : pre' ++ [x'] <+: xs := ⟨post', by rw [hxs']; simp⟩
  rcases List.prefix_or_prefix_of_prefix hleads ⟨post, hxs.symm⟩ with hle | hle
  · exact absurd hnone (Session.sweep_of_isPrefix (hle.map _) hsweep)
  · exact fun z hz => Session.withinBand_of_near (hall z (hle.subset hz))

/-- Two levels out of the band mean that the walk has got across. -/
theorem sweepsAcross_of_levels
    (hsorted : xs.Pairwise fun x y => ¬ order.side.opposite.Better y.price x.price)
    {a b : RestingOrder} {mid : List RestingOrder} (hxs : xs = pre ++ a :: mid ++ b :: post)
    (ha : s.withinBand a.price = false) (hb : s.withinBand b.price = false) (hne : b.price ≠ a.price)
    (hreaches : order.Reaches s (pre ++ a :: mid) b)
    (hsweep : s.sweep now ((pre ++ a :: mid ++ [b]).map RestingOrder.price) (s.outsideBandSince, none) ≠
      none) : SweepsAcross s order now xs := by
  obtain ⟨z, hz, hwithin⟩ := exists_within_between ha hb hne hsweep
  have hzpre : z ∈ pre ++ a :: mid := List.mem_append_right _ (List.mem_cons_of_mem _ hz)
  refine ⟨fun hstops => ?_, pre ++ a :: mid, b, post, hxs, hreaches, ?_, ⟨a, by simp, ?_⟩, z, hzpre,
    hwithin⟩
  · have hout := not_within_of_stopsOnNearSide hsorted
      (hxs.trans (List.append_cons _ b post)) hsweep hstops z (List.mem_append_left _ hzpre)
    simp [hwithin] at hout
  · -- `b` comes after a price in the band, so it is not on the near side.
    refine (Session.near_or_far order.side hb).resolve_left fun hnear => ?_
    have hznear := near_of_sorted hsorted hxs hnear z (List.mem_append_left _ hzpre)
    simp [Session.withinBand_of_near hznear] at hwithin
  · refine (Session.near_or_far order.side ha).resolve_right fun hfar => ?_
    rw [hxs, List.append_assoc] at hsorted
    have haz := (List.pairwise_cons.mp (List.pairwise_append.mp hsorted).2.1).1 z
      (List.mem_append_left _ hz)
    simp [Session.withinBand_of_far (Session.far_of_far haz hfar)] at hwithin

/-! ## Two levels, when it does -/

/-- The first entry of a list with a property. -/
theorem exists_first {α : Type} {p : α → Bool} {ys : List α} (h : ∃ y ∈ ys, p y = true) :
    ∃ before y after, ys = before ++ y :: after ∧ p y = true ∧ ∀ z ∈ before, p z = false := by
  obtain ⟨y, hy⟩ := Option.isSome_iff_exists.mp (List.find?_isSome.mpr h)
  obtain ⟨hpy, before, after, hsplit, hbefore⟩ := List.find?_eq_some_iff_append.mp hy
  exact ⟨before, y, after, hsplit, hpy, by simpa using hbefore⟩

/-- A walk prints at the near side, in the band, and at the first price on the far side. -/
theorem sweep_first_far (hsorted : xs.Pairwise fun x y => ¬ order.side.opposite.Better y.price x.price)
    (hpos : ∀ y ∈ xs, 0 < y.quantity) (hthrough : ¬ StopsOnNearSide s order now xs)
    (hxs : xs = pre ++ x :: post) (hreaches : order.Reaches s pre x)
    (hfirst : ∀ y ∈ pre, s.farSide order.side y.price = false)
    (hwithin : ∃ z ∈ pre, s.withinBand z.price = true) (hfar : s.farSide order.side x.price = true) :
    s.sweep now ((pre ++ [x]).map RestingOrder.price) (s.outsideBandSince, none) ≠ none := by
  obtain ⟨near, z, rest, rfl, hz, hnear⟩ := exists_first hwithin
  have hnear : ∀ y ∈ near, s.nearSide order.side y.price = true := fun y hy =>
    (Session.near_or_far order.side (hnear y hy)).resolve_right fun hf => by
      rw [hfirst y (List.mem_append_left _ hy)] at hf
      cases hf
  -- From `z` on, the prices before `x` are in the band.
  have hband : ∀ y ∈ z :: rest, s.withinBand y.price = true := by
    intro y hy
    by_contra hout
    rcases Session.near_or_far order.side (Bool.eq_false_iff.mpr hout) with hn | hf
    · rcases List.mem_cons.mp hy with rfl | hy
      · exact hout hz
      · have hzy : ¬ order.side.opposite.Better y.price z.price := by
          rw [hxs, List.append_assoc, List.cons_append] at hsorted
          exact (List.pairwise_cons.mp (List.pairwise_append.mp hsorted).2.1).1 y
            (List.mem_append_left _ hy)
        rw [Session.withinBand_of_near (Session.near_of_near hzy hn)] at hz
        cases hz
    · rw [hfirst y (List.mem_append_right _ hy)] at hf
      cases hf
  have hxs' : xs = near ++ (z :: rest ++ x :: post) := by
    rw [hxs, List.append_assoc]
  have hsweep := sweep_near hthrough hxs' hnear fun pre' x' rest' hsplit => by
    have hsplit' : near ++ z :: rest ++ [x] = pre' ++ x' :: (rest' ++ z :: rest ++ [x]) := by
      rw [hsplit]
      simp
    refine hreaches.of_split hsplit' fun y hy => hpos y ?_
    rw [hxs]
    exact List.mem_append_left _ hy
  obtain ⟨g, hg⟩ := Option.ne_none_iff_exists'.mp hsweep
  have hbanded : s.sweep now ((z :: rest).map RestingOrder.price) g = some (none, g.2) := by
    refine Session.sweep_within (fun p hp => ?_) (by simp)
    obtain ⟨y, hy, rfl⟩ := List.mem_map.mp hp
    exact hband y hy
  rw [List.append_assoc, List.map_append, List.map_append, Session.sweep_append, hg]
  show s.sweep now ((z :: rest).map RestingOrder.price ++ [x.price]) g ≠ none
  rw [Session.sweep_append, hbanded]
  show s.sweep now [x.price] (none, g.2) ≠ none
  rw [Session.sweep_singleton]
  -- The clock has been reset, so the band allows one more level.
  rcases Session.bandStep_outside now (none, g.2) (Session.withinBand_of_far hfar) with
    ⟨-, since, hsince, -⟩ | ⟨hsome, -⟩
  · cases hsince
  · rw [hsome]
    exact Option.some_ne_none _

/-- A walk that gets across prints on both sides of the band. -/
theorem sweep_across (hsorted : xs.Pairwise fun x y => ¬ order.side.opposite.Better y.price x.price)
    (hpos : ∀ y ∈ xs, 0 < y.quantity) (h : SweepsAcross s order now xs) :
    ∃ pre x post, xs = pre ++ x :: post ∧ order.Reaches s pre x ∧
      s.withinBand x.price = false ∧ (∃ y ∈ pre, s.withinBand y.price = false ∧ y.price ≠ x.price) ∧
      s.sweep now ((pre ++ [x]).map RestingOrder.price) (s.outsideBandSince, none) ≠ none := by
  obtain ⟨hthrough, pre, x, post, hxs, hreaches, hfar, ⟨y, hy, hynear⟩, z, hz, hzwithin⟩ := h
  have hexists : ∃ y ∈ pre ++ [x], s.farSide order.side y.price = true := ⟨x, by simp, hfar⟩
  obtain ⟨before, x₁, after, hsplit, hfar₁, hbefore⟩ := exists_first hexists
  have hxs₁ : xs = before ++ x₁ :: (after ++ post) := by
    rw [hxs, List.append_cons, hsplit]
    simp
  have hafter : ∀ a ∈ x₁ :: after, s.farSide order.side a.price = true := by
    intro a ha
    rcases List.mem_cons.mp ha with rfl | ha
    · exact hfar₁
    · rw [hxs₁] at hsorted
      exact Session.far_of_far ((List.pairwise_cons.mp (List.pairwise_append.mp hsorted).2.1).1 a
        (List.mem_append_left _ ha)) hfar₁
  have hz₁ : z ∈ before := by
    have hmem : z ∈ before ++ x₁ :: after := hsplit ▸ List.mem_append_left _ hz
    refine (List.mem_append.mp hmem).resolve_right fun hzafter => ?_
    rw [Session.withinBand_of_far (hafter z hzafter)] at hzwithin
    cases hzwithin
  have hy₁ : y ∈ before := by
    have hmem : y ∈ before ++ x₁ :: after := hsplit ▸ List.mem_append_left _ hy
    refine (List.mem_append.mp hmem).resolve_right fun hyafter => ?_
    -- `z` would come before `y`, and be on the near side with it.
    have hzy : ¬ order.side.opposite.Better y.price z.price := by
      rw [hxs₁, ← List.cons_append] at hsorted
      exact (List.pairwise_append.mp hsorted).2.2 z hz₁ y (List.mem_append_left _ hyafter)
    rw [Session.withinBand_of_near (Session.near_of_near hzy hynear)] at hzwithin
    cases hzwithin
  have hreaches₁ := hreaches.of_split hsplit fun a ha => hpos a (by
    rw [hxs]
    exact List.mem_append_left _ ha)
  refine ⟨before, x₁, after ++ post, hxs₁, hreaches₁, Session.withinBand_of_far hfar₁,
    ⟨y, hy₁, Session.withinBand_of_near hynear, fun hprice => ?_⟩,
    sweep_first_far hsorted hpos hthrough hxs₁ hreaches₁ hbefore ⟨z, hz₁, hzwithin⟩ hfar₁⟩
  have hclose := hbefore y hy₁
  simp [hprice, hfar₁] at hclose

/-- **One level, or across the band.** -/
theorem oneBreachLevel_iff (hwf : m.Wf [order.id]) (now : ℤ) :
    OneBreachLevel m.toSession (m.walk order now).2.trades ↔
      ¬ SweepsAcross m.toSession order now (m.queue order.side.opposite) := by
  have hside := hwf.side order.side.opposite
  have hpos : ∀ y ∈ m.queue order.side.opposite, 0 < y.quantity := fun y hy => (hside.pos y hy).1
  have hsame : m.toSession.SameBand m.toSession := ⟨rfl, rfl, rfl⟩
  constructor
  · intro hone hacross
    obtain ⟨pre, x, post, hxs, hreaches, hx, ⟨y, hy, hyout, hne⟩, hsweep⟩ :=
      sweep_across hside.sorted hpos hacross
    have htraded : ∀ y ∈ pre ++ [x], ∃ w, (w, y) ∈ traded now (m.queue order.side.opposite)
        { market := m, incoming := order } := by
      rw [hxs]
      refine traded_of_reaches hsame (fun z hz => hpos z ?_) hreaches hsweep
      rw [hxs, List.append_cons]
      exact List.mem_append_left _ hz
    obtain ⟨wy, hwy⟩ := htraded y (List.mem_append_left _ hy)
    obtain ⟨wx, hwx⟩ := htraded x (List.mem_append_right _ (List.mem_singleton_self x))
    obtain ⟨t, ht, htp⟩ := (exists_trade_iff m order now y.price).mpr ⟨wy, y, hwy, rfl⟩
    obtain ⟨t', ht', htp'⟩ := (exists_trade_iff m order now x.price).mpr ⟨wx, x, hwx, rfl⟩
    have heq := hone t ht t' ht' (by rw [htp]; exact hyout) (by rw [htp']; exact hx)
    exact hne (htp.symm.trans (heq.trans htp'))
  · intro hacross t ht t' ht' hout hout'
    by_contra hne
    obtain ⟨w, a, ha, hap⟩ := (exists_trade_iff m order now t.price).mp ⟨t, ht, rfl⟩
    obtain ⟨w', b, hb, hbp⟩ := (exists_trade_iff m order now t'.price).mp ⟨t', ht', rfl⟩
    obtain ⟨prea, posta, hxsa, hreachesa, hsweepa⟩ := exists_of_traded hsame hpos ha
    obtain ⟨preb, postb, hxsb, hreachesb, hsweepb⟩ := exists_of_traded hsame hpos hb
    rw [← hap] at hne hout
    rw [← hbp] at hne hout'
    -- One of the two comes first.
    rcases List.append_eq_append_iff.mp (hxsa.symm.trans hxsb) with ⟨mid, hpre, hmid⟩ | ⟨mid, hpre, hmid⟩
    · cases mid with
      | nil => exact hne (congrArg RestingOrder.price (List.cons.inj hmid).1)
      | cons c mid =>
        obtain ⟨rfl, -⟩ := List.cons.inj hmid
        rw [hpre] at hxsb hreachesb hsweepb
        exact hacross (sweepsAcross_of_levels hside.sorted hxsb hout hout' (Ne.symm hne) hreachesb hsweepb)
    · cases mid with
      | nil => exact hne (congrArg RestingOrder.price (List.cons.inj hmid).1.symm)
      | cons c mid =>
        obtain ⟨rfl, -⟩ := List.cons.inj hmid
        rw [hpre] at hxsa hreachesa hsweepa
        exact hacross (sweepsAcross_of_levels hside.sorted hxsa hout' hout hne hreachesa hsweepa)

end Market

namespace Book

/-- **One breach level per sweep, unless the walk gets across the band.** The trades of an order's own
walk are at no more than one price out of the band, exactly when the walk does not reach the far side of
the band through orders on the near side and in the band. -/
theorem one_breach_level_iff (cfg : Config) (calls : List Call)
    (hfits : ((Book.make cfg).run calls).Fits) :
    ∀ e ∈ (Book.make cfg).runEntries calls,
      OneBreachLevel e.state.toSession (e.state.walk e.order e.now).2.trades ↔
        ¬ SweepsAcross e.state.toSession e.order e.now (e.state.collect e.order.side.opposite) := by
  intro e he
  obtain ⟨e', hsame, hreach⟩ := exists_entry cfg calls hfits he
  rw [hsame.represents.session, hsame.walk.2, hsame.represents.collect_eq, hsame.order, hsame.now]
  exact Market.oneBreachLevel_iff hreach.wf.1 e'.now

/-- The reference is 100, so the band is from 90 to 110. -/
theorem one_breach_level_iff_of_three :
    let b := Book.make { poolCapacity := 4 }
    ∀ e ∈ b.runEntries
        [.addOrder { id := 1, ownerId := 1, side := .sell, type := .limit, price := some 100,
                     quantity := 1 } 0,
         .addOrder { id := 2, ownerId := 2, side := .buy, type := .limit, price := some 100,
                     quantity := 1 } 0,
         .addOrder { id := 3, ownerId := 1, side := .sell, type := .limit, price := some 150,
                     quantity := 1 } 0,
         .addOrder { id := 4, ownerId := 2, side := .buy, type := .limit, price := some 160,
                     quantity := 10 } 0],
      OneBreachLevel e.state.toSession (e.state.walk e.order e.now).2.trades ↔
        ¬ SweepsAcross e.state.toSession e.order e.now (e.state.collect e.order.side.opposite) :=
  one_breach_level_iff { poolCapacity := 4 } _ (fits_run rfl _)

/-- With asks at 50, 100 and 150 and the band from 90 to 110, a bid of 160 prints at 50 and at 150. -/
theorem two_breach_levels :
    ∃ e ∈ (Book.make { poolCapacity := 4 }).runEntries
        [.addOrder { id := 1, ownerId := 1, side := .sell, type := .limit, price := some 100,
                     quantity := 1 } 0,
         .addOrder { id := 2, ownerId := 2, side := .buy, type := .limit, price := some 100,
                     quantity := 1 } 0,
         .addOrder { id := 3, ownerId := 1, side := .sell, type := .limit, price := some 50,
                     quantity := 1 } 0,
         .addOrder { id := 4, ownerId := 1, side := .sell, type := .limit, price := some 100,
                     quantity := 1 } 0,
         .addOrder { id := 5, ownerId := 1, side := .sell, type := .limit, price := some 150,
                     quantity := 1 } 0,
         .addOrder { id := 6, ownerId := 2, side := .buy, type := .limit, price := some 160,
                     quantity := 10 } 0],
      (e.state.walk e.order e.now).2.trades.map Trade.price = [50, 100, 150] ∧
        ¬ OneBreachLevel e.state.toSession (e.state.walk e.order e.now).2.trades := by
  decide

end Book

end OrderBookEngine
