import OrderBookEngine.Market.Events
import OrderBookEngine.Market.Sweep
import OrderBookEngine.Refine.Run

/-!
# When the book is crossed

A limit order whose walk the band cuts short rests at the edge of the band, on the assumption that all
that is left on the other side is past the edge. That is so when the walk was stopped on the far side
of the band. An order on the near side is inside the edge, so a walk that is stopped there leaves a
crossed book. `run_uncrossed` proves that this is the only way to cross it.
-/

namespace OrderBookEngine

/-- A limit order that the band stops on the near side, with its remainder to rest. -/
def RestsInside (s : Session) (order : Order) (now : ℤ) (xs : List RestingOrder) : Prop :=
  order.type = .limit ∧ StopsOnNearSide s order now xs

namespace Session

variable {s s' : Session}

/-- The same band has the same edge. -/
theorem SameBand.atBandEdge (h : s.SameBand s') (order : Order) :
    s'.atBandEdge order = s.atBandEdge order := by
  unfold Session.atBandEdge upperBandPrice lowerBandPrice upperLimit lowerLimit
  rw [h.cfg, h.referencePrice]

/-- The edge of the band is better than a price on the far side. -/
theorem better_atBandEdge {order : Order} {p limit : ℤ} (hprice : order.price = some limit)
    (h : s.farSide order.side p = true) :
    order.side.opposite.Better (s.atBandEdge order).resting.price p := by
  unfold farSide at h
  cases hside : order.side with
  | buy =>
    have hedge : (s.atBandEdge order).resting.price = min limit s.upperBandPrice := by
      simp [Session.atBandEdge, Order.resting, hprice, hside]
    rw [hedge]
    simp [hside] at h
    exact lt_of_le_of_lt (min_le_right _ _) h.2
  | sell =>
    have hedge : (s.atBandEdge order).resting.price = max limit s.lowerBandPrice := by
      simp [Session.atBandEdge, Order.resting, hprice, hside]
    rw [hedge]
    simp [hside] at h
    exact lt_of_lt_of_le h.2 (le_max_right _ _)

end Session

namespace Market

variable {m m' : Market} {order : Order} {now : ℤ} {w : Walk} {xs : List RestingOrder}

/-- Every bid is below every ask. -/
def Uncrossed (m : Market) : Prop := ∀ x ∈ m.bids, ∀ y ∈ m.asks, x.price < y.price

/-- Seen from one side: the other side is worse than all its prices. -/
theorem uncrossed_iff (side : Side) : m.Uncrossed ↔
    ∀ x ∈ m.queue side, ∀ y ∈ m.queue side.opposite, side.opposite.Better x.price y.price := by
  cases side with
  | buy => exact Iff.rfl
  | sell => exact ⟨fun h x hx y hy => h y hy x hx, fun h x hx y hy => h y hy x hx⟩

/-- Orders leave their queues, or change in place. -/
theorem Uncrossed.keep (h : m.Uncrossed) (hqueue : ∀ side,
    ((m'.queue side).map RestingOrder.place).Sublist ((m.queue side).map RestingOrder.place)) :
    m'.Uncrossed := by
  have hold : ∀ side, ∀ x ∈ m'.queue side, ∃ y ∈ m.queue side, y.price = x.price := by
    intro side x hx
    obtain ⟨y, hy, hxy⟩ := List.mem_map.mp ((hqueue side).subset (List.mem_map_of_mem hx))
    exact ⟨y, hy, congrArg Prod.snd hxy⟩
  intro x hx y hy
  obtain ⟨x', hx', hxp⟩ := hold .buy x hx
  obtain ⟨y', hy', hyp⟩ := hold .sell y hy
  rw [← hxp, ← hyp]
  exact h x' hx' y' hy'

/-- Only the two queues matter. -/
theorem Uncrossed.same (h : m.Uncrossed) (hqueue : ∀ side, m'.queue side = m.queue side) :
    m'.Uncrossed :=
  h.keep fun side => by rw [hqueue side]

/-- An order comes to rest short of the other side. -/
theorem Uncrossed.rest (h : m.Uncrossed) (hr : m.restOrder order now = some m')
    (hshort : ∀ y ∈ m.queue order.side.opposite,
      order.side.opposite.Better order.resting.price y.price) : m'.Uncrossed := by
  have hopposite : ∀ y ∈ m'.queue order.side.opposite, y ∈ m.queue order.side.opposite := by
    intro y hy
    rcases mem_queue_restOrder hr hy with hy | ⟨hside, -⟩
    · exact hy
    · cases hs : order.side <;> simp [hs, Side.opposite] at hside
  refine (uncrossed_iff order.side).mpr fun x hx y hy => ?_
  rcases mem_queue_restOrder hr hx with hx | ⟨-, rfl⟩
  · exact (uncrossed_iff order.side).mp h x hx y (hopposite y hy)
  · exact hshort y (hopposite y hy)

/-! ## Walks -/

/-- A walk only removes places from the queues, and moves none. -/
theorem walkLoop_places (now : ℤ) (xs : List RestingOrder)
    (hqueue : w.incoming.quantity = 0 ∨ w.market.queue w.incoming.side.opposite = xs) (side : Side) :
    (((walkLoop now xs w).1.market.queue side).map RestingOrder.place).Sublist
      ((w.market.queue side).map RestingOrder.place) := by
  induction xs generalizing w with
  | nil => exact List.Sublist.refl _
  | cons x xs ih =>
    rw [walkLoop]
    split_ifs with hquantity
    · exact List.Sublist.refl _
    · exact List.Sublist.refl _
    · exact List.Sublist.refl _
    · exact List.Sublist.refl _
    · -- Something is left, so the walk is at the front of the queue.
      have hxs := hqueue.resolve_left (by omega)
      cases w.market.bandDecision now w.breachLevel x.price with
      | halt =>
        show (((w.halt x now).market.queue side).map _).Sublist _
        rw [show (w.halt x now).market.queue side = w.market.queue side from queue_withSession ..]
      | limit => exact List.Sublist.refl _
      | print outside breach =>
        exact (ih (w.queue_trade now x xs outside breach)).trans
          (w.places_trade now outside breach hxs side)

/-- A walk keeps the band. -/
theorem sameBand_walkLoop {s : Session} (now : ℤ) (xs : List RestingOrder)
    (h : s.SameBand w.market.toSession) :
    s.SameBand (walkLoop now xs w).1.market.toSession := by
  induction xs generalizing w with
  | nil => exact h
  | cons x xs ih =>
    rw [walkLoop]
    split_ifs
    · exact h
    · exact h
    · exact h
    · exact h
    · cases w.market.bandDecision now w.breachLevel x.price with
      | halt => exact ⟨h.cfg, h.referencePrice, h.hasReferencePrice⟩
      | limit => exact h
      | print outside breach => exact ih (w.sameBand_trade h outside breach)

/-- A limit order that does not reach a price is short of it. -/
theorem short_of_crosses {p : ℤ} (htype : order.type = .limit) (hpriced : Priced order)
    (h : order.crosses p = false) : order.side.opposite.Better order.resting.price p := by
  unfold Priced at hpriced
  rw [htype] at hpriced
  obtain ⟨limit, hprice, -⟩ := hpriced
  have hresting : order.resting.price = limit := by
    unfold Order.resting
    rw [hprice]
    rfl
  unfold Order.crosses at h
  rw [hresting]
  cases hside : order.side <;> simpa [htype, hside, hprice, Side.opposite, Side.Better] using h

/-- The end of a walk that has run out crosses nothing, if its remainder stays short of the other side. -/
theorem runOut_uncrossed {trades : List Trade} {why : RejectReason} (h : m.Uncrossed)
    (hshort : order.quantity > 0 ∧ order.type = .limit → ∀ y ∈ m.queue order.side.opposite,
      order.side.opposite.Better order.resting.price y.price) :
    (m.runOut order trades why now).1.Uncrossed := by
  unfold runOut
  split_ifs with hrests
  · cases hr : m.restOrder order now with
    | none => exact h.same fun side => queue_emit ..
    | some m' => exact h.rest hr (hshort hrests)
  · exact h.same fun side => queue_emit ..
  · exact h

/-- A remainder at the band edge crosses nothing, if the edge is short of the other side. -/
theorem restAtBandEdge_uncrossed {trades : List Trade} {why : RejectReason} (h : m.Uncrossed)
    (hshort : order.type = .limit → ∀ y ∈ m.queue order.side.opposite,
      order.side.opposite.Better (m.atBandEdge order).resting.price y.price) :
    (m.restAtBandEdge order trades why now).1.Uncrossed := by
  unfold restAtBandEdge
  simp only
  split_ifs with htype
  · cases hr : m.restOrder (m.atBandEdge order) now with
    | none => exact h.same fun side => queue_emit ..
    | some m' =>
      have hrest := h.rest hr (hshort htype)
      exact hrest
  · exact h.same fun side => queue_emit ..
  · exact h.same fun side => queue_emit ..
  · exact h

/-- What is left on the other side of a walk that the band cuts short is past the edge. -/
theorem short_of_stopped {price : ℤ} (hwf : m.Wf [order.id]) (hprice : order.price = some price)
    (hinside : ¬ StopsOnNearSide m.toSession order now (m.queue order.side.opposite)) {r : Walk × WalkEnd}
    (hr : walkLoop now (m.queue order.side.opposite) { market := m, incoming := order } = r)
    (hend : r.2 = .halted ∨ r.2 = .bandLimited) :
    ∀ y ∈ r.1.market.queue order.side.opposite,
      order.side.opposite.Better (r.1.market.atBandEdge r.1.incoming).resting.price y.price := by
  subst hr
  have hside := hwf.side order.side.opposite
  have hsorted := hside.sorted
  have hsame : m.toSession.SameBand m.toSession := ⟨rfl, rfl, rfl⟩
  obtain ⟨quantity, filled, hincoming⟩ :=
    walkLoop_incoming now (m.queue order.side.opposite) { market := m, incoming := order }
  obtain ⟨pre, x, post, g, hxs, hreaches, hsweep, hstop, hrest⟩ :=
    walkLoop_stopped (w := { market := m, incoming := order }) hsame (fun y hy => (hside.pos y hy).1)
      (Or.inr rfl) hend
  have hout : m.withinBand x.price = false := by
    by_contra hwithin
    rw [Bool.not_eq_false] at hwithin
    rw [Session.bandStep_within now g hwithin] at hstop
    cases hstop
  -- The walk was not stopped on the near side, so what is left is on the far side.
  have hfar : m.farSide order.side x.price = true := by
    refine (Session.near_or_far order.side hout).resolve_left fun hnear => hinside ?_
    have hnears := near_of_sorted hsorted hxs hnear
    refine ⟨pre, x, post, hxs, hreaches, hnear, Session.refuses_of_bandStep ?_ hout hsweep hstop⟩
    exact outside_of_near fun y hy => hnears y (List.mem_append_left _ hy)
  intro y hy
  have hy : y ∈ x :: post := hrest ▸ hy
  have hyfar : m.farSide order.side y.price = true := by
    rcases List.mem_cons.mp hy with rfl | hy
    · exact hfar
    · rw [hxs] at hsorted
      exact Session.far_of_far
        ((List.pairwise_cons.mp (List.pairwise_append.mp hsorted).2.1).1 y hy) hfar
  rw [(sameBand_walkLoop (w := { market := m, incoming := order }) now _ hsame).atBandEdge, hincoming]
  have hprice : ({ order with quantity, filled } : Order).price = some price := hprice
  exact Session.better_atBandEdge hprice hyfar

/-- **Walks.** A walk that does not rest its order inside the other side's orders keeps the book
uncrossed. -/
theorem walk_uncrossed (hwf : Stage.Wf (.walking { market := m, incoming := order }))
    (h : m.Uncrossed)
    (hinside : ¬ RestsInside m.toSession order now (m.queue order.side.opposite)) :
    (m.walk order now).1.Uncrossed := by
  have hplaces := walkLoop_places (w := { market := m, incoming := order }) now
    (m.queue order.side.opposite) (Or.inr rfl)
  obtain ⟨hreached, -⟩ := walkLoop_steps now (m.queue order.side.opposite) hwf
    Relation.ReflTransGen.refl (Or.inr rfl)
  obtain ⟨quantity, filled, hincoming⟩ :=
    walkLoop_incoming now (m.queue order.side.opposite) { market := m, incoming := order }
  generalize hr : walkLoop now (m.queue order.side.opposite) { market := m, incoming := order } = r
    at hplaces hreached hincoming
  have hside : r.1.incoming.side = order.side := by rw [hincoming]
  have htype : r.1.incoming.type = order.type := by rw [hincoming]
  set m₁ := r.1.market.markIfFilled r.1.incoming with hm₁
  have hqueue : ∀ side, m₁.queue side = r.1.market.queue side := fun side => by
    rw [hm₁, markIfFilled]
    split_ifs
    · exact queue_withSession ..
    · rfl
  have hedge : m₁.atBandEdge r.1.incoming = r.1.market.atBandEdge r.1.incoming := by
    rw [hm₁, markIfFilled]
    split_ifs <;> rfl
  -- The walk only takes from the queues.
  have hloop : m₁.Uncrossed := (h.keep hplaces).same hqueue
  -- An order stopped at the edge rests short of the other side, as it does not rest inside.
  have hstopped : r.2 = .halted ∨ r.2 = .bandLimited → r.1.incoming.type = .limit →
      ∀ y ∈ m₁.queue r.1.incoming.side.opposite, r.1.incoming.side.opposite.Better
        (m₁.atBandEdge r.1.incoming).resting.price y.price := by
    intro hend hlimit
    have hpriced := hwf.2.2.1
    unfold Priced at hpriced
    rw [← htype, hlimit] at hpriced
    obtain ⟨price, hprice, -⟩ := hpriced
    rw [hqueue, hside, hedge]
    exact short_of_stopped hwf.1 hprice (fun hstops => hinside ⟨htype ▸ hlimit, hstops⟩) hr hend
  unfold walk
  simp only
  rw [hr]
  unfold settle
  simp only
  cases hend : r.2 with
  | halted => exact restAtBandEdge_uncrossed hloop (hstopped (Or.inl hend))
  | bandLimited => exact restAtBandEdge_uncrossed hloop (hstopped (Or.inr hend))
  | selfTrade => exact hloop.same fun side => queue_emit ..
  | collar =>
    rw [hend] at hreached
    -- A limit order is never stopped by the collar.
    refine runOut_uncrossed hloop fun hrests => ?_
    have hmarket := hreached.2.2
    rw [hrests.2] at hmarket
    cases hmarket
  | exhausted =>
    rw [hend] at hreached
    obtain ⟨hsteps, hdone⟩ := hreached
    refine runOut_uncrossed hloop fun hrests y hy => ?_
    rw [hqueue] at hy
    -- Either nothing is left to rest, or no order of the queue crosses.
    rcases hdone with hzero | ⟨-, hcrosses⟩
    · exact absurd hrests.1 (by omega)
    · exact short_of_crosses hrests.2 (hsteps.steps.wf hwf).2.2.1 (hcrosses y hy)

/-! ## Runs -/

/-- No entry rests its order inside the other side's orders. -/
def NoneRestsInside (entries : List (Entry Market)) : Prop :=
  ∀ e ∈ entries, ¬ RestsInside e.state.toSession e.order e.now (e.state.queue e.order.side.opposite)

/-- Every step outside a walk keeps the book uncrossed. -/
theorem carried_uncrossed (now : ℤ) : Carried now fun s => s.Wf ∧ s.market.Uncrossed where
  wf h := h.1
  reenter h := ⟨h.1.step (Step.reenter : Step now _ _), h.2.same fun side => queue_emit ..⟩
  finish h := ⟨h.1.step (Step.finish : Step now _ _), h.2⟩
  absorb hlast h :=
    ⟨h.1.step (Step.absorb hlast : Step now _ _), Uncrossed.same h.2 fun side => queue_absorb ..⟩
  fire hfifo hhalt h :=
    ⟨h.1.step (Step.fire hfifo hhalt : Step now _ _),
      Uncrossed.same h.2 fun side => by cases side <;> rfl⟩
  sendBack hhalt h :=
    ⟨h.1.step (Step.sendBack hhalt : Step now _ _),
      Uncrossed.same h.2 fun side => by cases side <;> rfl⟩

/-- So does every walk whose remainder does not rest inside. -/
theorem carries_uncrossed (now : ℤ) {entries : List (Entry Market)} (h : NoneRestsInside entries) :
    Carries now (fun s => s.Wf ∧ s.market.Uncrossed) entries := by
  rintro ⟨m, order, now⟩ he rfl ⟨hwf, huncrossed⟩
  exact ⟨(walk_steps now hwf).1.steps.wf hwf, walk_uncrossed hwf huncrossed (h _ he)⟩

/-- What a call does before the engine's steps adds nothing to a queue. -/
theorem Acts.uncrossed {c : Call} {s : Stage} (hact : Acts m c s) (h : m.Uncrossed) :
    s.market.Uncrossed := by
  cases hact with
  | refuse kind => exact h
  | submit fresh halted valid => exact h.same fun side => queue_emit ..
  | cancel found => exact h.keep (places_remove m _ _)
  | withdraw found => exact h.keep (places_remove m _ _)
  | reduce found pos le =>
    refine h.keep fun side => ?_
    show (((Market.emit _ _).queue side).map RestingOrder.place).Sublist _
    rw [queue_emit, places_reduce]
  | replace halted found change valid => exact h.keep (places_remove m _ _)
  | _ => exact h.same fun side => by cases side <;> rfl

/-- One call keeps the book uncrossed, if none of its remainders rests inside. -/
theorem call_uncrossed (c : Call) (hwf : m.Wf []) (hfifo : m.fifo = [])
    (hinside : NoneRestsInside (m.callEntries c)) (h : m.Uncrossed) : (m.call c).Uncrossed := by
  obtain ⟨m₀, s, hresumes, hact, hchain⟩ := call_chain c hwf hfifo
  have h₀ : m₀.Uncrossed := by
    rcases hresumes with rfl | ⟨-, -, rfl⟩
    · exact h
    · exact h.same fun side => by cases side <;> rfl
  have hs := (hwf.resumes hresumes).act (hresumes.fifo.trans hfifo) hact
  exact (hchain _ (carried_uncrossed c.now) (carries_uncrossed c.now hinside)
    ⟨hs, hact.uncrossed h₀⟩).1.2

/-- So does a run, up to each of its calls. -/
theorem run_uncrossed (calls : List Call) (hwf : m.Wf []) (hfifo : m.fifo = [])
    (hinside : NoneRestsInside (m.runEntries calls)) (h : m.Uncrossed) :
    ∀ before after, calls = before ++ after → (m.run before).Uncrossed := by
  induction calls generalizing m with
  | nil =>
    intro before after hsplit
    rw [(List.append_eq_nil_iff.mp hsplit.symm).1]
    exact h
  | cons c calls ih =>
    intro before after hsplit
    cases before with
    | nil => exact h
    | cons c' before =>
      obtain ⟨rfl, hrest⟩ := List.cons.inj hsplit
      refine ih (wf_call c hwf hfifo) (fifo_call m c hfifo)
        (fun e he => hinside e (List.mem_append_right _ he)) ?_ before after hrest
      exact call_uncrossed c hwf hfifo (fun e he => hinside e (List.mem_append_left _ he)) h

end Market

namespace Book

/-- The best bid is below the best ask, if there are both. -/
def Uncrossed (b : Book) : Prop :=
  ∀ bid ask, b.bestBid = some bid → b.bestAsk = some ask → bid < ask

/-- The book of an uncrossed market is uncrossed. -/
theorem Represents.uncrossed {b : Book} {m : Market} (h : b.Represents m) (hm : m.Uncrossed) :
    b.Uncrossed := by
  have hbest : ∀ side p, b.best side = some p → ∃ x ∈ m.queue side, x.price = p := by
    intro side p hp
    have hcollect := h.collect_eq side
    obtain ⟨L, free, K, h⟩ := h
    rw [h.queues.shape.best_eq, hcollect] at hp
    obtain ⟨x, hx, rfl⟩ := Option.map_eq_some_iff.mp hp
    exact ⟨x, List.mem_of_mem_head? hx, rfl⟩
  intro bid ask hbid hask
  obtain ⟨x, hx, rfl⟩ := hbest .buy bid hbid
  obtain ⟨y, hy, rfl⟩ := hbest .sell ask hask
  exact hm x hx y hy

/-- **Never crossed, unless an order rests inside the other side.** When no walk of a limit order is
stopped by the band on the near side of it, the best bid is below the best ask after every call. -/
theorem never_crossed (cfg : Config) (calls : List Call) (hfits : ((Book.make cfg).run calls).Fits)
    (hinside : ∀ e ∈ (Book.make cfg).runEntries calls,
      ¬ RestsInside e.state.toSession e.order e.now (e.state.collect e.order.side.opposite)) :
    ∀ before after, calls = before ++ after → ((Book.make cfg).run before).Uncrossed := by
  rintro before after rfl
  have hbefore : ((Book.make cfg).run before).Fits := by
    rw [run_append] at hfits
    exact (grows_run _ after).fits hfits
  have hentries := runEntries_represents (refines_make cfg) _ hfits
  have hmarket : Market.NoneRestsInside ((Market.make cfg).runEntries (before ++ after)) := by
    intro e' he'
    obtain ⟨e, he, hsame⟩ := exists_of_forall₂ hentries.flip he'
    rw [← hsame.represents.session, ← hsame.represents.collect_eq, ← hsame.order, ← hsame.now]
    exact hinside e he
  refine (run_refines cfg before hbefore).represents.uncrossed ?_
  exact Market.run_uncrossed _ (Market.wf_make cfg) rfl hmarket (by simp [Market.Uncrossed, Market.make])
    before after rfl

/-- With the band from 90 to 110, a bid of 140 prints at 120, is stopped at 130, and rests at 110. -/
theorem never_crossed_at_110 :
    let calls : List Call :=
      [.addOrder { id := 1, ownerId := 1, side := .sell, type := .limit, price := some 100,
                   quantity := 1 } 0,
       .addOrder { id := 2, ownerId := 2, side := .buy, type := .limit, price := some 100,
                   quantity := 1 } 0,
       .addOrder { id := 3, ownerId := 1, side := .sell, type := .limit, price := some 120,
                   quantity := 1 } 0,
       .addOrder { id := 4, ownerId := 1, side := .sell, type := .limit, price := some 130,
                   quantity := 1 } 0,
       .addOrder { id := 5, ownerId := 2, side := .buy, type := .limit, price := some 140,
                   quantity := 3 } 0]
    ∀ before after, calls = before ++ after → ((Book.make { poolCapacity := 4 }).run before).Uncrossed := by
  intro calls
  have hclear : ∀ e ∈ (Book.make { poolCapacity := 4 }).runEntries calls,
      ∀ x ∈ e.state.collect e.order.side.opposite, e.state.nearSide e.order.side x.price = false := by
    decide
  exact never_crossed { poolCapacity := 4 } calls (fits_run rfl _)
    fun e he hrests => Market.not_stopsOnNearSide (hclear e he) hrests.2

/-- With the band from 90 to 110 and asks at 40 and 50, a bid of 60 prints at 40, is stopped at 50, and
rests at 60, above the ask that is left. -/
theorem crossed_at_60 :
    let b := (Book.make { poolCapacity := 4 }).run
      [.addOrder { id := 1, ownerId := 1, side := .sell, type := .limit, price := some 100,
                   quantity := 1 } 0,
       .addOrder { id := 2, ownerId := 2, side := .buy, type := .limit, price := some 100,
                   quantity := 1 } 0,
       .addOrder { id := 3, ownerId := 1, side := .sell, type := .limit, price := some 50,
                   quantity := 1 } 0,
       .addOrder { id := 4, ownerId := 1, side := .sell, type := .limit, price := some 40,
                   quantity := 1 } 0,
       .addOrder { id := 5, ownerId := 2, side := .buy, type := .limit, price := some 60,
                   quantity := 10 } 0]
    b.bestBid = some 60 ∧ b.bestAsk = some 50 ∧ ¬ b.Uncrossed := by
  intro b
  have hbid : b.bestBid = some 60 := by decide
  have hask : b.bestAsk = some 50 := by decide
  exact ⟨hbid, hask, fun h => absurd (h 60 50 hbid hask) (by decide)⟩

end Book

end OrderBookEngine
