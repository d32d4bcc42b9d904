import OrderBookEngine.Refine.Run
import Mathlib.Data.Rat.Floor
import Mathlib.Tactic.FieldSimp

/-!
# The limits of the band in 64 bits

`lower_limit` and `upper_limit` multiply the reference by a factor of up to 19999 before they divide, in
signed 64-bit arithmetic, and no price is too large for `validate_order_fields`. Here they are evaluated
as the code does, with an overflow for an outcome (`lowerLimit64`, `upperLimit64`). As long as both
products fit, the limits are the exact ones, and everything that relies on them is as intended; otherwise
the evaluation overflows (`band_limits_iff`).
-/

namespace OrderBookEngine

/-- An integer that an `int64_t` holds. -/
def InInt64 (n : ℤ) : Prop := -2 ^ 63 ≤ n ∧ n < 2 ^ 63

/-- The bounds are comparisons of numbers. -/
instance (n : ℤ) : Decidable (InInt64 n) := inferInstanceAs (Decidable (_ ∧ _))

/-- The result of an `int64_t` operation, from the exact one. `none` is an overflow. -/
def int64 (n : ℤ) : Option ℤ := if InInt64 n then some n else none

/-- A number that fits is its own value. -/
theorem int64_of_fits {n : ℤ} (h : InInt64 n) : int64 n = some n := if_pos h

/-- A number beyond the bound has no value. -/
theorem int64_of_overflow {n : ℤ} (h : 2 ^ 63 ≤ n) : int64 n = none :=
  if_neg fun hfits => absurd hfits.2 (by omega)

namespace Session

/-- `Book::lower_limit`. -/
def lowerLimit64 (s : Session) (bps : ℤ) : Option ℤ := do
  let factor ← int64 (10000 - bps)
  let product ← int64 (s.referencePrice * factor)
  let sum ← int64 (product + 9999)
  return sum.tdiv 10000

/-- `Book::upper_limit`. -/
def upperLimit64 (s : Session) (bps : ℤ) : Option ℤ := do
  let factor ← int64 (10000 + bps)
  let product ← int64 (s.referencePrice * factor)
  return product.tdiv 10000

/-- `Book::within_band`, which evaluates the upper limit only for a price above the lower one. -/
def withinBand64 (s : Session) (p : ℤ) : Option Bool :=
  if !s.hasReferencePrice then some true
  else do
    let lower ← s.lowerLimit64 s.cfg.bandBps
    if p ≥ lower then
      let upper ← s.upperLimit64 s.cfg.bandBps
      return p ≤ upper
    else return false

/-- The price at which `add_order_core` rests the remainder of a limit order at the band edge. -/
def atBandEdge64 (s : Session) (incoming : Order) : Option Order :=
  match incoming.side with
  | .buy => do
    let edge ← s.upperLimit64 s.cfg.bandBps
    return { incoming with price := incoming.price.map fun limit => min limit edge }
  | .sell => do
    let edge ← s.lowerLimit64 s.cfg.bandBps
    return { incoming with price := incoming.price.map fun limit => max limit edge }

/-- The products of a reference and the factors of `bps` basis points fit in 64 bits. -/
def ProductsFit (p bps : ℤ) : Prop := p * (10000 - bps) + 9999 < 2 ^ 63 ∧ p * (10000 + bps) < 2 ^ 63

/-- The limits of `bps` basis points around a reference `p` are evaluated exactly. -/
structure LimitsExact (s : Session) (p bps : ℤ) : Prop where
  /-- The lower limit is rounded up. -/
  lower : s.lowerLimit64 bps = some ⌈((p * (10000 - bps) : ℤ) : ℚ) / 10000⌉
  /-- The upper limit is rounded down. -/
  upper : s.upperLimit64 bps = some ⌊((p * (10000 + bps) : ℤ) : ℚ) / 10000⌋
  /-- The lower limit is positive. -/
  pos : 0 < ⌈((p * (10000 - bps) : ℤ) : ℚ) / 10000⌉
  /-- The reference is not below the lower limit. -/
  lower_le : ⌈((p * (10000 - bps) : ℤ) : ℚ) / 10000⌉ ≤ p
  /-- The reference is not above the upper limit. -/
  le_upper : p ≤ ⌊((p * (10000 + bps) : ℤ) : ℚ) / 10000⌋

/-- The reference `p` is in its own band, and the edges of the band are prices that an order may have. -/
structure BandSound (s : Session) (p : ℤ) : Prop where
  /-- The reference is in its band. -/
  inBand : s.withinBand64 p = some true
  /-- A limit order that is valid stays so at the edge. -/
  edge : ∀ incoming : Order, incoming.type = .limit → validateOrderFields incoming = .none →
    ∃ edged, s.atBandEdge64 incoming = some edged ∧ validateOrderFields edged = .none

/-! ## Evaluating the limits -/

variable {s : Session} {p bps : ℤ}

/-- The quotient rounded up, as the source computes it. -/
theorem ceil_div_10000 (n : ℤ) : ⌈(n : ℚ) / 10000⌉ = (n + 9999) / 10000 := by
  rw [Int.ceil_eq_iff, lt_div_iff₀ (by norm_num), div_le_iff₀ (by norm_num)]
  have hle : n ≤ (n + 9999) / 10000 * 10000 := by omega
  have hlt : ((n + 9999) / 10000 - 1) * 10000 < n := by omega
  exact ⟨by exact_mod_cast hlt, by exact_mod_cast hle⟩

/-- The quotient rounded down, as the source computes it. -/
theorem floor_div_10000 (n : ℤ) : ⌊(n : ℚ) / 10000⌋ = n / 10000 := by
  rw [Int.floor_eq_iff, le_div_iff₀ (by norm_num), div_lt_iff₀ (by norm_num)]
  have hle : n / 10000 * 10000 ≤ n := by omega
  have hlt : n < (n / 10000 + 1) * 10000 := by omega
  exact ⟨by exact_mod_cast hle, by exact_mod_cast hlt⟩

/-- The lower limit overflows, or it is exact. -/
theorem lowerLimit64_eq (href : s.referencePrice = p) (hpos : 0 < p) (hbps : 0 ≤ bps ∧ bps < 10000) :
    s.lowerLimit64 bps =
      if p * (10000 - bps) + 9999 < 2 ^ 63 then some ((p * (10000 - bps) + 9999) / 10000) else none := by
  have hproduct : 0 ≤ p * (10000 - bps) := Int.mul_nonneg (by omega) (by omega)
  unfold lowerLimit64
  rw [href, int64_of_fits (by unfold InInt64; omega)]
  simp only [Option.bind_eq_bind, Option.bind_some]
  by_cases hfits : p * (10000 - bps) + 9999 < 2 ^ 63
  · rw [if_pos hfits, int64_of_fits (by unfold InInt64; omega), Option.bind_some,
      int64_of_fits (by unfold InInt64; omega), Option.bind_some, Int.tdiv_eq_ediv_of_nonneg (by omega)]
    rfl
  · -- The product overflows, or else the sum does.
    rw [if_neg hfits]
    by_cases hover : 2 ^ 63 ≤ p * (10000 - bps)
    · rw [int64_of_overflow hover]
      rfl
    · rw [int64_of_fits (by unfold InInt64; omega), Option.bind_some, int64_of_overflow (by omega)]
      rfl

/-- The upper limit overflows, or it is exact. -/
theorem upperLimit64_eq (href : s.referencePrice = p) (hpos : 0 < p) (hbps : 0 ≤ bps ∧ bps < 10000) :
    s.upperLimit64 bps =
      if p * (10000 + bps) < 2 ^ 63 then some (p * (10000 + bps) / 10000) else none := by
  have hproduct : 0 ≤ p * (10000 + bps) := Int.mul_nonneg (by omega) (by omega)
  unfold upperLimit64
  rw [href, int64_of_fits (by unfold InInt64; omega)]
  simp only [Option.bind_eq_bind, Option.bind_some]
  by_cases hfits : p * (10000 + bps) < 2 ^ 63
  · rw [if_pos hfits, int64_of_fits (by unfold InInt64; omega), Option.bind_some,
      Int.tdiv_eq_ediv_of_nonneg hproduct]
    rfl
  · rw [if_neg hfits, int64_of_overflow (by omega)]
    rfl

/-- **Exact limits.** Around a positive reference the limits are exact if and only if the products fit. -/
theorem limitsExact_iff (href : s.referencePrice = p) (hpos : 0 < p) (hbps : 0 ≤ bps ∧ bps < 10000) :
    LimitsExact s p bps ↔ ProductsFit p bps := by
  have hlower := lowerLimit64_eq href hpos hbps
  have hupper := upperLimit64_eq href hpos hbps
  constructor
  · rintro ⟨hl, hu, -, -, -⟩
    rw [hlower] at hl
    rw [hupper] at hu
    split_ifs at hl hu with hfits hfits'
    exact ⟨hfits, hfits'⟩
  · rintro ⟨hfits, hfits'⟩
    rw [if_pos hfits] at hlower
    rw [if_pos hfits'] at hupper
    -- The two factors are at least 1, and at most and at least 10000.
    have hone : p * 1 ≤ p * (10000 - bps) := Int.mul_le_mul_of_nonneg_left (by omega) hpos.le
    have hle : p * (10000 - bps) ≤ p * 10000 := Int.mul_le_mul_of_nonneg_left (by omega) hpos.le
    have hge : p * 10000 ≤ p * (10000 + bps) := Int.mul_le_mul_of_nonneg_left (by omega) hpos.le
    refine ⟨?_, ?_, ?_, ?_, ?_⟩
    · rw [hlower, ceil_div_10000]
    · rw [hupper, floor_div_10000]
    · rw [ceil_div_10000]
      omega
    · rw [ceil_div_10000]
      omega
    · rw [floor_div_10000]
      omega

/-- With exact limits the band is sound. -/
theorem LimitsExact.sound (h : LimitsExact s p s.cfg.bandBps) : BandSound s p := by
  obtain ⟨hlower, hupper, hpos, hle, hge⟩ := h
  generalize ⌈((p * (10000 - s.cfg.bandBps) : ℤ) : ℚ) / 10000⌉ = lower at hlower hpos hle
  generalize ⌊((p * (10000 + s.cfg.bandBps) : ℤ) : ℚ) / 10000⌋ = upper at hupper hge
  refine ⟨?_, fun incoming htype hvalid => ?_⟩
  · unfold withinBand64
    rw [hlower, hupper]
    split_ifs
    · rfl
    · simp [hle, hge]
  · obtain ⟨limit, hprice, hlimit, hquantity⟩ : ∃ limit, incoming.price = some limit ∧ 0 < limit ∧
        0 < incoming.quantity := by
      unfold validateOrderFields at hvalid
      cases hprice : incoming.price with
      | none => simp [htype, hprice] at hvalid
      | some limit =>
        simp only [htype, hprice] at hvalid
        refine ⟨limit, rfl, ?_, ?_⟩
        · by_contra hneg
          simp [not_lt.mp hneg] at hvalid
        · by_contra hneg
          simp [not_lt.mp hneg] at hvalid
          split_ifs at hvalid
    -- The edge is positive, as both the limit and the bound of the band are.
    unfold atBandEdge64
    cases incoming.side with
    | buy =>
      refine ⟨_, by rw [hupper]; rfl, ?_⟩
      have hedge : ¬ min limit upper ≤ 0 := by omega
      unfold validateOrderFields
      simp only [htype, hprice, Option.map_some, Option.all_some, hedge, not_le.mpr hquantity]
      simp
    | sell =>
      refine ⟨_, by rw [hlower]; rfl, ?_⟩
      have hedge : ¬ max limit lower ≤ 0 := by omega
      unfold validateOrderFields
      simp only [htype, hprice, Option.map_some, Option.all_some, hedge, not_le.mpr hquantity]
      simp

end Session

namespace Book

/-- **Exact limits, while the products fit.** In a book that has traded last at `p`, the limits of `bps`
basis points are evaluated exactly, and the band is sound if these are its own, exactly if the products of
`p` and the two factors fit in 64 bits. -/
theorem band_limits_iff (cfg : Config) (calls : List Call) (hfits : ((Book.make cfg).run calls).Fits) :
    let b := (Book.make cfg).run calls
    ∀ p, b.lastTradePrice = some p → ∀ bps, 0 ≤ bps → bps ≤ 9999 →
      (b.toSession.LimitsExact p bps ∧ (bps = cfg.bandBps → b.toSession.BandSound p) ↔
        Session.ProductsFit p bps) := by
  intro b p hlast bps hbps hbps'
  have hsession := (run_refines cfg calls hfits).represents.session
  have hwf := (reachable_run cfg calls).wf
  have hcfg : b.cfg = cfg := (grows_run _ calls).cfg
  -- After a trade the reference price is that of the last one, and positive.
  obtain ⟨href, hpos⟩ : b.referencePrice = p ∧ 0 < p := by
    have htraded := hwf.lastTrade
    have hpos := hwf.reference
    rw [← hsession] at htraded hpos
    rw [hlast] at htraded
    split_ifs at htraded with hhas
    obtain rfl := Option.some.inj htraded
    exact ⟨rfl, hpos hhas⟩
  have hiff := Session.limitsExact_iff href hpos ⟨hbps, by omega⟩
  refine ⟨fun h => hiff.mp h.1, fun h => ⟨hiff.mpr h, ?_⟩⟩
  rintro rfl
  have hexact := hiff.mpr h
  rw [← hcfg] at hexact
  exact hexact.sound

/-- Two orders that trade at a price. -/
def tradeAt (p : ℤ) : List Call :=
  [.addOrder { id := 1, ownerId := 1, side := .sell, type := .limit, price := some p, quantity := 1 } 0,
   .addOrder { id := 2, ownerId := 2, side := .buy, type := .limit, price := some p, quantity := 1 } 0]

/-- A last trade at 100. -/
theorem band_limits_iff_at_100 :
    let b := (Book.make { poolCapacity := 4 }).run (tradeAt 100)
    b.toSession.LimitsExact 100 1000 ∧ ((1000 : ℤ) = 1000 → b.toSession.BandSound 100) ↔
      Session.ProductsFit 100 1000 :=
  band_limits_iff { poolCapacity := 4 } (tradeAt 100) (fits_run rfl _) 100 (by decide) 1000 (by decide)
    (by decide)

/-- A last trade at `10^15`, where the upper limit of the default band overflows. -/
theorem band_limits_overflow :
    let b := (Book.make { poolCapacity := 4 }).run (tradeAt (10 ^ 15))
    b.lastTradePrice = some (10 ^ 15) ∧ b.toSession.upperLimit64 1000 = none ∧
      ¬ b.toSession.LimitsExact (10 ^ 15) 1000 := by
  have hnone : ((Book.make { poolCapacity := 4 }).run (tradeAt (10 ^ 15))).toSession.upperLimit64 1000 =
      none := by decide
  refine ⟨by decide, hnone, fun h => ?_⟩
  rw [h.upper] at hnone
  cases hnone

end Book

end OrderBookEngine
