import Mathlib.Algebra.Order.Field.Basic
import Mathlib.Algebra.Order.Field.Power
import Mathlib.Algebra.Order.Field.Rat
import Mathlib.Data.Rat.Cast.Order
import Mathlib.Tactic.FieldSimp
import Mathlib.Tactic.Linarith
import Mathlib.Tactic.NormNum
import Mathlib.Tactic.Positivity
import Mathlib.Tactic.Ring
import ProcessLint.Number.Numeral

/-! Decimals that read back. A decimal between the midpoints of a number to its neighbours rounds to
the number, and the decimals that are written for a number lie there. -/
namespace ProcessLint
namespace Binary64

/-! ### Values -/

/-- A number without its sign. -/
def size (x : Binary64) : ℚ := x.mantissa * 2 ^ x.exponent

def value (x : Binary64) : ℚ := if x.negative then -x.size else x.size

theorem size_eq_steps (x : Binary64) : x.size = x.steps * 2 ^ (-1074 : ℤ) := by
  obtain ⟨k, hk⟩ := Int.eq_ofNat_of_zero_le (show 0 ≤ x.exponent + 1074 by
    have := x.inRange.2.1
    omega)
  have hexp : x.exponent = k + -1074 := by omega
  rw [size, steps, hk, Int.toNat_natCast, Nat.pow_eq, hexp, zpow_add₀ two_ne_zero, zpow_natCast,
    Nat.cast_mul, Nat.cast_pow, Nat.cast_ofNat, mul_assoc]

/-- The order of the numbers is that of their values. -/
theorem lt_iff_value_lt (x y : Binary64) : x.lt y = true ↔ x.value < y.value := by
  have hsteps (z : Binary64) : z.value = z.signedSteps * 2 ^ (-1074 : ℤ) := by
    rw [value, signedSteps, size_eq_steps]
    split <;> simp
  rw [lt, decide_eq_true_eq, hsteps, hsteps, mul_lt_mul_iff_left₀ (by positivity), Int.cast_lt]

/-! ### Midpoints -/

/-- Halfway to the next smaller number, which is nearer where the exponent changes. -/
def lowerMidpoint (x : Binary64) : ℚ :=
  (x.mantissa - if x.mantissa = 2 ^ 52 ∧ x.exponent ≠ -1074 then 1 / 4 else 1 / 2) *
    2 ^ x.exponent

def upperMidpoint (x : Binary64) : ℚ := (x.mantissa + 1 / 2) * 2 ^ x.exponent

/-- No other number is nearer to the fraction; a midpoint belongs to the even mantissa. -/
structure IsNear (x : Binary64) (q : ℚ) : Prop where
  lower : x.lowerMidpoint ≤ q
  upper : q ≤ x.upperMidpoint
  even : q = x.lowerMidpoint ∨ q = x.upperMidpoint → x.mantissa % 2 = 0

theorem lowerMidpoint_lt_upperMidpoint (x : Binary64) : x.lowerMidpoint < x.upperMidpoint := by
  have hpos : (0 : ℚ) < 2 ^ x.exponent := zpow_pos two_pos _
  unfold lowerMidpoint upperMidpoint
  refine mul_lt_mul_of_pos_right ?_ hpos
  split <;> linarith

theorem compareDecimal_eq (a : ℕ) (p : ℤ) (n : ℕ) (e : ℤ) :
    compareDecimal a p n e = compare ((a : ℚ) * 2 ^ p) (n * 10 ^ e) := by
  have hpow {b : ℚ} (p : ℤ) : b ^ p = b ^ p.toNat / b ^ (-p).toNat := by
    obtain ⟨n, rfl | rfl⟩ := p.eq_nat_or_neg <;> simp [zpow_neg]
  have hscale : (0 : ℚ) < 2 ^ (-p).toNat * 10 ^ (-e).toNat := by positivity
  have hleft : ((a * Nat.pow 2 p.toNat * Nat.pow 10 (-e).toNat : ℕ) : ℚ) =
      a * 2 ^ p * (2 ^ (-p).toNat * 10 ^ (-e).toNat) := by
    rw [hpow p, Nat.pow_eq, Nat.pow_eq]
    push_cast
    field_simp
  have hright : ((n * Nat.pow 10 e.toNat * Nat.pow 2 (-p).toNat : ℕ) : ℚ) =
      n * 10 ^ e * (2 ^ (-p).toNat * 10 ^ (-e).toNat) := by
    rw [hpow e, Nat.pow_eq, Nat.pow_eq]
    push_cast
    field_simp
  rw [compareDecimal, ← cmp_eq_compare, ← (Nat.strictMono_cast (α := ℚ)).cmp_map_eq, hleft, hright,
    cmp_mul_pos_right hscale, cmp_eq_compare]

def Decimal.value (d : Decimal) : ℚ := d.digits * 10 ^ d.exponent

theorem lowerMidpoint_eq {x : Binary64} (hx : x.mantissa ≠ 0) :
    x.lowerMidpoint =
      if x.mantissa = 2 ^ 52 ∧ x.exponent ≠ -1074 then
        ((4 * x.mantissa - 1 : ℕ) : ℚ) * 2 ^ (x.exponent - 2)
      else ((2 * x.mantissa - 1 : ℕ) : ℚ) * 2 ^ (x.exponent - 1) := by
  unfold lowerMidpoint
  split
  · rw [Nat.cast_sub (by omega), zpow_sub₀ two_ne_zero]
    push_cast
    ring
  · rw [Nat.cast_sub (by omega), zpow_sub₀ two_ne_zero]
    push_cast
    ring

theorem upperMidpoint_eq (x : Binary64) :
    x.upperMidpoint = ((2 * x.mantissa + 1 : ℕ) : ℚ) * 2 ^ (x.exponent - 1) := by
  rw [upperMidpoint, zpow_sub₀ two_ne_zero]
  push_cast
  ring

/-- A decimal that passes the test lies between the midpoints. -/
theorem isNear_of_roundsTo {x : Binary64} (hx : x.mantissa ≠ 0) {d : Decimal}
    (h : x.roundsTo d = true) : x.IsNear d.value := by
  have hlt := x.lowerMidpoint_lt_upperMidpoint
  have hbelow : (if x.mantissa = Nat.pow 2 52 ∧ x.exponent ≠ -1074 then
      compareDecimal (4 * x.mantissa - 1) (x.exponent - 2) d.digits d.exponent
    else compareDecimal (2 * x.mantissa - 1) (x.exponent - 1) d.digits d.exponent) =
      compare x.lowerMidpoint d.value := by
    rw [lowerMidpoint_eq hx, Nat.pow_eq]
    split <;> exact compareDecimal_eq ..
  have habove : compareDecimal (2 * x.mantissa + 1) (x.exponent - 1) d.digits d.exponent =
      compare x.upperMidpoint d.value := by
    rw [upperMidpoint_eq]
    exact compareDecimal_eq ..
  simp only [roundsTo, hbelow, habove] at h
  split at h
  · rename_i hb ha
    rw [compare_lt_iff_lt] at hb
    rw [compare_gt_iff_gt] at ha
    exact ⟨hb.le, ha.le, fun h => h.elim (fun h => absurd h hb.ne') fun h => absurd h ha.ne⟩
  · rename_i hb
    rw [compare_eq_iff_eq] at hb
    exact ⟨hb.le, hb ▸ hlt.le, fun _ => by simpa using h⟩
  · rename_i ha _
    rw [compare_eq_iff_eq] at ha
    exact ⟨ha ▸ hlt.le, ha.ge, fun _ => by simpa using h⟩
  · cases h

/-! ### Written digits -/

theorem roundsTo_of_onGrid? {tie : Tie} {x : Binary64} {e : ℤ} {d : Decimal}
    (h : onGrid? tie x e = some d) : x.roundsTo d = true := by
  simp only [onGrid?] at h
  split at h
  · rename_i hlow _
    exact Option.some.inj h ▸ hlow
  · rename_i _ hhigh
    exact Option.some.inj h ▸ hhigh
  · cases h
  · rename_i hlow hhigh
    rw [Option.some.injEq] at h
    split at h
    · exact h ▸ hlow
    · exact h ▸ hhigh

theorem isNear_self (x : Binary64) : x.IsNear x.size := by
  have hpos : (0 : ℚ) < 2 ^ x.exponent := zpow_pos two_pos _
  have hlower : x.lowerMidpoint < x.size := by
    refine mul_lt_mul_of_pos_right ?_ hpos
    split <;> linarith
  have hupper : x.size < x.upperMidpoint := mul_lt_mul_of_pos_right (by linarith) hpos
  exact ⟨hlower.le, hupper.le, fun h => h.elim (fun h => absurd h hlower.ne')
    fun h => absurd h hupper.ne⟩

theorem isNear_shortestFrom (tie : Tie) {x : Binary64} (hx : x.mantissa ≠ 0) (e : ℤ) (n : ℕ) :
    x.IsNear (shortestFrom tie x e n).value := by
  induction n generalizing e with
  | zero =>
    -- on the last grid stands the number itself
    have hself : (shortestFrom tie x e 0).value = x.size := by
      simp only [shortestFrom, Decimal.value, Nat.pow_eq, size]
      obtain ⟨k, hk | hk⟩ := x.exponent.eq_nat_or_neg
      · simp [hk]
      · rw [hk]
        have hten : (10 : ℚ) ^ k = 2 ^ k * 5 ^ k := by rw [← mul_pow]; norm_num
        simp only [Int.toNat_neg_natCast, pow_zero, mul_one, neg_neg, Int.toNat_natCast]
        rw [min_eq_left (by omega), zpow_neg, zpow_natCast, zpow_neg, zpow_natCast, hten]
        push_cast
        field_simp
    rw [hself]
    exact x.isNear_self
  | succ n ih =>
    simp only [shortestFrom]
    split
    · rename_i d hd
      exact isNear_of_roundsTo hx (roundsTo_of_onGrid? hd)
    · exact ih (e - 1)

/-- The decimal with the fewest digits is one that rounds to the number. -/
theorem isNear_shortest (tie : Tie) {x : Binary64} (hx : x.mantissa ≠ 0) :
    x.IsNear (x.shortest tie).value := by
  rw [shortest, if_neg hx]
  exact isNear_shortestFrom tie hx _ _

/-! ### Rounding -/

theorem roundHalfEven_eq {num den m : ℕ} (hden : 0 < den) (hlower : (m : ℚ) - 1 / 2 ≤ num / den)
    (hupper : (num : ℚ) / den ≤ m + 1 / 2)
    (heven : (num : ℚ) / den = m - 1 / 2 ∨ (num : ℚ) / den = m + 1 / 2 → m % 2 = 0) :
    roundHalfEven num den = m := by
  have hpos : (0 : ℚ) < den := by exact_mod_cast hden
  have hlow : 2 * (den * m) ≤ 2 * num + den := by
    rw [le_div_iff₀ hpos] at hlower
    have h : (2 * (den * m) : ℚ) ≤ 2 * num + den := by linarith
    exact_mod_cast h
  have hhigh : 2 * num ≤ 2 * (den * m) + den := by
    rw [div_le_iff₀ hpos] at hupper
    have h : (2 * num : ℚ) ≤ 2 * (den * m) + den := by linarith
    exact_mod_cast h
  have htie (h : 2 * (den * m) = 2 * num + den ∨ 2 * num = 2 * (den * m) + den) :
      m % 2 = 0 := by
    refine heven (h.imp (fun h => ?_) fun h => ?_)
    · have h : (2 * (den * m) : ℚ) = 2 * num + den := by exact_mod_cast h
      rw [div_eq_iff hpos.ne']
      linarith
    · have h : (2 * num : ℚ) = 2 * (den * m) + den := by exact_mod_cast h
      rw [div_eq_iff hpos.ne']
      linarith
  have hnum := Nat.div_add_mod num den
  have hmod := Nat.mod_lt num hden
  simp only [roundHalfEven]
  generalize num / den = q at hnum ⊢
  generalize num % den = r at hnum hmod ⊢
  obtain hm | rfl | rfl | hm : m + 1 ≤ q ∨ m = q ∨ m = q + 1 ∨ q + 2 ≤ m := by omega
  · have hmul := Nat.mul_le_mul_left den hm
    rw [Nat.mul_add] at hmul
    omega
  · split <;> omega
  · rw [Nat.mul_add] at hlow hhigh htie
    split <;> omega
  · have hmul := Nat.mul_le_mul_left den hm
    rw [Nat.mul_add] at hmul
    omega

theorem inUnits_eq (num den : ℕ) (e : ℤ) :
    ((inUnits num den e).1 : ℚ) / (inUnits num den e).2 = num / den / 2 ^ e := by
  unfold inUnits
  obtain ⟨k, rfl | rfl⟩ := e.eq_nat_or_neg
  · rw [if_pos (by omega)]
    simp [div_div]
  · split
    · obtain rfl : k = 0 := by omega
      simp
    · simp [zpow_neg, mul_div_right_comm]

theorem inUnits_pos (num : ℕ) {den : ℕ} (hden : 0 < den) (e : ℤ) :
    0 < (inUnits num den e).2 := by
  unfold inUnits
  split <;> simp [hden, Nat.pow_eq]

theorem log2_bounds {num den : ℕ} (hnum : num ≠ 0) (hden : den ≠ 0) :
    (2 : ℚ) ^ ((num.log2 : ℤ) - den.log2 - 1) < num / den ∧
      (num : ℚ) / den < 2 ^ ((num.log2 : ℤ) - den.log2 + 1) := by
  have hpos : (0 : ℚ) < den := by exact_mod_cast Nat.pos_of_ne_zero hden
  have hnumlow : (2 : ℚ) ^ num.log2 ≤ num := by exact_mod_cast Nat.log2_self_le hnum
  have hnumhigh : (num : ℚ) < 2 ^ (num.log2 + 1) := by exact_mod_cast Nat.lt_log2_self
  have hdenlow : (2 : ℚ) ^ den.log2 ≤ den := by exact_mod_cast Nat.log2_self_le hden
  have hdenhigh : (den : ℚ) < 2 ^ (den.log2 + 1) := by exact_mod_cast Nat.lt_log2_self
  constructor
  · rw [lt_div_iff₀ hpos, sub_sub]
    calc (2 : ℚ) ^ ((num.log2 : ℤ) - (den.log2 + 1)) * den
        < 2 ^ ((num.log2 : ℤ) - (den.log2 + 1)) * 2 ^ (den.log2 + 1) := by gcongr
      _ = 2 ^ num.log2 := by
        rw [← zpow_natCast, ← zpow_natCast, ← zpow_add₀ two_ne_zero]
        push_cast
        congr 1
        ring
      _ ≤ num := hnumlow
  · rw [div_lt_iff₀ hpos]
    calc (num : ℚ) < 2 ^ (num.log2 + 1) := hnumhigh
      _ = 2 ^ ((num.log2 : ℤ) - den.log2 + 1) * 2 ^ den.log2 := by
        rw [← zpow_natCast, ← zpow_natCast, ← zpow_add₀ two_ne_zero]
        push_cast
        congr 1
        ring
      _ ≤ 2 ^ ((num.log2 : ℤ) - den.log2 + 1) * den := by gcongr

/-- In its unit a fraction has at most 53 bits before the point, and exactly 53 unless the unit is
the least one. -/
theorem unitExponent_spec {num den : ℕ} (hnum : num ≠ 0) (hden : den ≠ 0) :
    -1074 ≤ unitExponent num den ∧
      (num : ℚ) / den < 2 ^ (unitExponent num den + 53) ∧
      (unitExponent num den = -1074 ∨ 2 ^ (unitExponent num den + 52) ≤ (num : ℚ) / den) := by
  obtain ⟨hlow, hhigh⟩ := log2_bounds hnum hden
  simp only [unitExponent]
  generalize (num.log2 : ℤ) - den.log2 = l at hlow hhigh ⊢
  generalize he : max (-1074) (l - 53) = e
  have hscale : (inUnits num den e).1 < Nat.pow 2 53 * (inUnits num den e).2 ↔
      (num : ℚ) / den < 2 ^ (e + 53) := by
    have hpos : (0 : ℚ) < (inUnits num den e).2 := by
      exact_mod_cast inUnits_pos num (Nat.pos_of_ne_zero hden) e
    rw [← Nat.cast_lt (α := ℚ), Nat.pow_eq, Nat.cast_mul, ← div_lt_iff₀ hpos, inUnits_eq,
      div_lt_iff₀ (by positivity), add_comm e, zpow_add₀ two_ne_zero]
    norm_cast
  split
  · rename_i hbelow
    refine ⟨by omega, hscale.mp hbelow, ?_⟩
    obtain h | h : e = -1074 ∨ e = l - 53 := by omega
    · exact Or.inl h
    · refine Or.inr (le_trans ?_ hlow.le)
      exact zpow_le_zpow_right₀ one_le_two (by omega)
  · rename_i habove
    refine ⟨by omega, hhigh.trans_le ?_, Or.inr ?_⟩
    · exact zpow_le_zpow_right₀ one_le_two (by omega)
    · rw [show e + 1 + 52 = e + 53 by ring]
      exact not_lt.mp (hscale.not.mp habove)

/-- The count of units is the one that the fraction is nearest to. -/
theorem roundHalfEven_inUnits {num den m : ℕ} {e : ℤ} (hden : den ≠ 0)
    (hlower : (m - 1 / 2) * 2 ^ e ≤ (num : ℚ) / den)
    (hupper : (num : ℚ) / den ≤ (m + 1 / 2) * 2 ^ e)
    (heven : (num : ℚ) / den = (m - 1 / 2) * 2 ^ e ∨ (num : ℚ) / den = (m + 1 / 2) * 2 ^ e →
      m % 2 = 0) :
    roundHalfEven (inUnits num den e).1 (inUnits num den e).2 = m := by
  have hunit : (0 : ℚ) < 2 ^ e := by positivity
  refine roundHalfEven_eq (inUnits_pos num (Nat.pos_of_ne_zero hden) e) ?_ ?_ ?_
  · rwa [inUnits_eq, le_div_iff₀ hunit]
  · rwa [inUnits_eq, div_le_iff₀ hunit]
  · rwa [inUnits_eq, div_eq_iff hunit.ne', div_eq_iff hunit.ne']

theorem sub_half_mul_le_lowerMidpoint (x : Binary64) :
    (x.mantissa - 1 / 2) * 2 ^ x.exponent ≤ x.lowerMidpoint := by
  have hunit : (0 : ℚ) < 2 ^ x.exponent := by positivity
  refine mul_le_mul_of_nonneg_right ?_ hunit.le
  split <;> linarith

/-- In the unit of a number, what is near to the number rounds to its mantissa. -/
theorem IsNear.roundHalfEven_eq {x : Binary64} {num den : ℕ} (hden : den ≠ 0)
    (h : x.IsNear (num / den)) :
    roundHalfEven (inUnits num den x.exponent).1 (inUnits num den x.exponent).2 = x.mantissa := by
  have hlower := x.sub_half_mul_le_lowerMidpoint
  refine roundHalfEven_inUnits hden (hlower.trans h.lower) h.upper fun hq => h.even ?_
  exact hq.imp_left fun hq => le_antisymm (hq.le.trans hlower) h.lower

/-- In the next smaller unit, what is near to a power of two from below rounds to twice its
mantissa. -/
theorem IsNear.roundHalfEven_eq_of_lt {x : Binary64} {num den : ℕ} (hden : den ≠ 0)
    (h : x.IsNear (num / den)) (hx : x.mantissa = 2 ^ 52 ∧ x.exponent ≠ -1074)
    (hlt : (num : ℚ) / den < 2 ^ 52 * 2 ^ x.exponent) :
    roundHalfEven (inUnits num den (x.exponent - 1)).1 (inUnits num den (x.exponent - 1)).2 =
      2 ^ 53 := by
  have hlower := h.lower
  have hunit : (2 : ℚ) ^ x.exponent = 2 ^ (x.exponent - 1) * 2 := by
    rw [← zpow_add_one₀ two_ne_zero, sub_add_cancel]
  have hpos : (0 : ℚ) < 2 ^ (x.exponent - 1) := by positivity
  rw [lowerMidpoint, if_pos hx, hx.1, hunit] at hlower
  rw [hunit] at hlt
  push_cast at hlower
  refine roundHalfEven_inUnits hden ?_ ?_ fun _ => by norm_num
  · push_cast
    linarith
  · push_cast
    linarith

theorem assemble?_self (x : Binary64) : assemble? x.negative x.mantissa x.exponent = some x := by
  have hne : x.mantissa ≠ Nat.pow 2 53 := x.inRange.1.ne
  simp only [assemble?, if_neg hne]
  rw [dif_pos x.inRange]

/-- A mantissa that has become too large is carried into the exponent. -/
theorem assemble?_carry {x : Binary64} (hx : x.mantissa = 2 ^ 52) :
    assemble? x.negative (2 ^ 53) (x.exponent - 1) = some x := by
  obtain ⟨negative, m, e, h⟩ := x
  subst hx
  simp only [assemble?, Nat.pow_eq, if_true, sub_add_cancel]
  rw [dif_pos h]

theorem ofFraction?_eq_some {x : Binary64} {num den : ℕ} (hnum : num ≠ 0) (hden : den ≠ 0)
    (h : x.IsNear (num / den)) : ofFraction? x.negative num den = some x := by
  obtain ⟨hleast, hlarge, hsmall⟩ := unitExponent_spec hnum hden
  have hrange := x.inRange
  have hunit : (0 : ℚ) < 2 ^ x.exponent := by positivity
  simp only [ofFraction?, if_neg hnum]
  generalize unitExponent num den = u at hleast hlarge hsmall ⊢
  obtain hlt | rfl | hgt := lt_trichotomy u x.exponent
  · -- only just below a power of two the unit is smaller, and it is half as large there
    have hlower := x.sub_half_mul_le_lowerMidpoint.trans h.lower
    have hbelow (k : ℕ) (hk : 53 + u ≤ k + x.exponent) :
        (x.mantissa : ℚ) - 1 / 2 < 2 ^ k := by
      refine lt_of_mul_lt_mul_right (hlower.trans_lt (hlarge.trans_le ?_)) hunit.le
      rw [← zpow_natCast, ← zpow_add₀ two_ne_zero, add_comm u]
      exact zpow_le_zpow_right₀ one_le_two hk
    have hnormal : 2 ^ 52 ≤ x.mantissa := not_lt.mp fun hm => by
      have := hrange.2.2.2 (by simpa using hm)
      omega
    have hmantissa : x.mantissa = 2 ^ 52 := by
      have hlt : (x.mantissa : ℚ) < 2 ^ 52 + 1 := by linarith [hbelow 52 (by omega)]
      have : x.mantissa < 2 ^ 52 + 1 := by exact_mod_cast hlt
      omega
    obtain rfl : u = x.exponent - 1 := by
      by_contra hne
      have := hbelow 51 (by omega)
      rw [hmantissa] at this
      norm_num at this
    have hq : (num : ℚ) / den < 2 ^ 52 * 2 ^ x.exponent := by
      rw [← zpow_natCast, ← zpow_add₀ two_ne_zero]
      convert hlarge using 2
      push_cast
      ring
    rw [h.roundHalfEven_eq_of_lt hden ⟨hmantissa, by omega⟩ hq]
    exact assemble?_carry hmantissa
  · rw [h.roundHalfEven_eq hden]
    exact x.assemble?_self
  · -- a larger unit would need a larger fraction
    have hle : (2 : ℚ) ^ (x.exponent + 53) ≤ num / den := by
      obtain h | h := hsmall
      · omega
      · exact le_trans (zpow_le_zpow_right₀ one_le_two (by omega)) h
    have hupper := h.upper
    have hmantissa : (x.mantissa : ℚ) + 1 ≤ 2 ^ 53 := by exact_mod_cast hrange.1
    rw [zpow_add₀ two_ne_zero] at hle
    rw [upperMidpoint] at hupper
    norm_num at hle hmantissa
    nlinarith

theorem lt_pow_digitCount (n : ℕ) : n < 10 ^ digitCount n :=
  (Nat.length_toDigits_le_iff (by decide) Nat.length_toDigits_pos).mp le_rfl

theorem pow_digitCount_le {n : ℕ} (hn : n ≠ 0) : 10 ^ (digitCount n - 1) ≤ n := by
  have hpos : 0 < digitCount n := Nat.length_toDigits_pos
  obtain h | h := Nat.eq_zero_or_pos (digitCount n - 1)
  · rw [h]
    omega
  · refine not_lt.mp fun hlt => ?_
    have := (Nat.length_toDigits_le_iff (by decide) h).mpr hlt
    unfold digitCount at this hpos
    omega

theorem ten_zpow_lt_least : (10 : ℚ) ^ (-330 : ℤ) < 1 / 2 * 2 ^ (-1074 : ℤ) := by
  have hpow : (2 : ℚ) ^ 1075 < 10 ^ 330 := by
    exact_mod_cast (by decide +kernel : 2 ^ 1075 < 10 ^ 330)
  have hinv := inv_strictAnti₀ (by positivity) hpow
  rw [← zpow_natCast, ← zpow_natCast, ← zpow_neg, ← zpow_neg] at hinv
  rw [one_div, ← zpow_neg_one, ← zpow_add₀ two_ne_zero]
  exact hinv

theorem greatest_lt_ten_zpow : (2 : ℚ) ^ 53 * 2 ^ (971 : ℤ) < 10 ^ (310 : ℤ) := by
  have hpow : (2 : ℚ) ^ 1024 < 10 ^ 310 := by
    exact_mod_cast (by decide +kernel : 2 ^ 1024 < 10 ^ 310)
  rw [← zpow_natCast, ← zpow_add₀ two_ne_zero]
  exact hpow

theorem IsNear.magnitude {x : Binary64} (hx : x.mantissa ≠ 0) {n : ℕ} {e : ℤ} (hn : n ≠ 0)
    (h : x.IsNear (n * 10 ^ e)) : -330 ≤ e + digitCount n ∧ e + digitCount n ≤ 310 := by
  have hone : (1 : ℚ) ≤ x.mantissa := by exact_mod_cast Nat.pos_of_ne_zero hx
  have hmantissa : (x.mantissa : ℚ) + 1 ≤ 2 ^ 53 := by exact_mod_cast x.inRange.1
  have hten : (0 : ℚ) < 10 ^ e := by positivity
  constructor
  · refine not_lt.mp fun hlt => ?_
    have hn : (n : ℚ) < 10 ^ digitCount n := by exact_mod_cast lt_pow_digitCount n
    have hsmall : (n : ℚ) * 10 ^ e < 10 ^ (-330 : ℤ) := by
      calc (n : ℚ) * 10 ^ e < 10 ^ digitCount n * 10 ^ e := by gcongr
        _ = 10 ^ (digitCount n + e) := by rw [← zpow_natCast, ← zpow_add₀ (by norm_num)]
        _ ≤ 10 ^ (-330 : ℤ) := zpow_le_zpow_right₀ (by norm_num) (by omega)
    have hleast : (2 : ℚ) ^ (-1074 : ℤ) ≤ 2 ^ x.exponent :=
      zpow_le_zpow_right₀ one_le_two x.inRange.2.1
    have hlower := x.sub_half_mul_le_lowerMidpoint.trans h.lower
    have hlarge : 1 / 2 * (2 : ℚ) ^ (-1074 : ℤ) ≤ n * 10 ^ e :=
      le_trans (mul_le_mul (by linarith) hleast (by positivity) (by linarith)) hlower
    exact absurd (hsmall.trans ten_zpow_lt_least) hlarge.not_gt
  · refine not_lt.mp fun hlt => ?_
    have hn : (10 : ℚ) ^ (digitCount n - 1) ≤ n := by exact_mod_cast pow_digitCount_le hn
    have hlarge : (10 : ℚ) ^ (310 : ℤ) ≤ n * 10 ^ e := by
      calc (10 : ℚ) ^ (310 : ℤ) ≤ 10 ^ (((digitCount n - 1 : ℕ) : ℤ) + e) :=
            zpow_le_zpow_right₀ (by norm_num) (by omega)
        _ = 10 ^ (digitCount n - 1) * 10 ^ e := by
          rw [zpow_add₀ (by norm_num), zpow_natCast]
        _ ≤ n * 10 ^ e := by gcongr
    have hgreatest : (2 : ℚ) ^ x.exponent ≤ 2 ^ (971 : ℤ) :=
      zpow_le_zpow_right₀ one_le_two x.inRange.2.2.1
    have hsmall : (n : ℚ) * 10 ^ e ≤ 2 ^ 53 * 2 ^ (971 : ℤ) := by
      refine h.upper.trans ?_
      rw [upperMidpoint]
      gcongr
      linarith
    exact absurd (hlarge.trans hsmall) greatest_lt_ten_zpow.not_ge

/-- A decimal near to a number is read as it. -/
theorem IsNear.ofDecimal?_eq_some {x : Binary64} (hx : x.mantissa ≠ 0) {n : ℕ} {e : ℤ}
    (h : x.IsNear (n * 10 ^ e)) : ofDecimal? x.negative n e = some x := by
  have hn : n ≠ 0 := by
    rintro rfl
    have hone : (1 : ℚ) ≤ x.mantissa := by exact_mod_cast Nat.pos_of_ne_zero hx
    have hunit : (0 : ℚ) < 2 ^ x.exponent := by positivity
    have hlower := x.sub_half_mul_le_lowerMidpoint.trans h.lower
    simp only [Nat.cast_zero, zero_mul] at hlower
    nlinarith
  obtain ⟨hsmall, hlarge⟩ := h.magnitude hx hn
  have hfinite : ¬ 310 < e + digitCount n := by omega
  have hnonzero : ¬ e + digitCount n < -330 := by omega
  simp only [ofDecimal?, if_neg hn, if_neg hfinite, if_neg hnonzero, Nat.pow_eq]
  obtain ⟨k, rfl | rfl⟩ := e.eq_nat_or_neg
  · rw [if_pos (by omega), Int.toNat_natCast]
    refine ofFraction?_eq_some (by positivity) one_ne_zero ?_
    simpa using h
  · split
    · obtain rfl : k = 0 := by omega
      refine ofFraction?_eq_some (by simpa using hn) one_ne_zero ?_
      simpa using h
    · rw [neg_neg, Int.toNat_natCast]
      refine ofFraction?_eq_some hn (by positivity) ?_
      simpa [zpow_neg, div_eq_mul_inv] using h

end Binary64

namespace Numeral

def value (n : Numeral) : ℚ :=
  Nat.ofDigitChars 10 n.fraction n.whole * 10 ^ (n.exponent.getD 0 - n.fraction.length)

theorem value_ofBinary64 {x : Binary64} (hx : x.mantissa ≠ 0) :
    (ofBinary64 x).value = (x.shortest .even).value := by
  have hzero : x.isZero = false := by simpa [Binary64.isZero] using hx
  simp only [ofBinary64, hzero, Binary64.Decimal.value]
  generalize x.shortest .even = d
  generalize hdigits : Nat.toDigits 10 d.digits = digits
  have hvalue : Nat.ofDigitChars 10 digits 0 = d.digits := hdigits ▸ Nat.ofDigitChars_ten_toDigits
  have hpos : 0 < digits.length := hdigits ▸ Nat.length_toDigits_pos
  have hsplit (k : ℕ) :
      Nat.ofDigitChars 10 (digits.drop k) (Nat.ofDigitChars 10 (digits.take k) 0) = d.digits := by
    rw [← Nat.ofDigitChars_append, List.take_append_drop, hvalue]
  simp only [Bool.false_eq_true, if_false]
  split
  · simp only [value, hsplit, List.length_drop, Option.getD_some]
    congr 2
    omega
  · split
    · simp only [value, Nat.ofDigitChars_append, Nat.ofDigitChars_replicate_zero, mul_zero, hvalue,
        List.length_append, List.length_replicate, Option.getD_none]
      congr 2
      omega
    · split
      · simp only [value, hsplit, List.length_drop, Option.getD_none]
        congr 2
        omega
      · rename_i hexp
        obtain ⟨k, hk⟩ := Int.eq_ofNat_of_zero_le (not_lt.mp hexp)
        simp [value, hk, Nat.ofDigitChars_cons, zpow_neg]
        field_simp

theorem negative_ofBinary64 (x : Binary64) : (ofBinary64 x).negative = x.negative := by
  simp only [ofBinary64]
  split <;> [rfl; skip]
  split <;> [rfl; skip]
  split <;> [rfl; skip]
  split <;> rfl

/-- A binary64 number is the one nearest to its numeral. -/
theorem nearest?_ofBinary64 (x : Binary64) : (ofBinary64 x).nearest? = some x := by
  by_cases hx : x.mantissa = 0
  · have hzero : Binary64.zero x.negative = x := by
      obtain ⟨negative, m, e, h⟩ := x
      subst hx
      obtain rfl := h.2.2.2 (by decide)
      rfl
    simp [ofBinary64, nearest?, Binary64.isZero, hx, Nat.ofDigitChars_cons,
      Binary64.ofDecimal?, hzero]
  · have hnear := Binary64.isNear_shortest .even hx
    rw [← value_ofBinary64 hx] at hnear
    rw [nearest?, negative_ofBinary64]
    exact hnear.ofDecimal?_eq_some hx

end Numeral
end ProcessLint
