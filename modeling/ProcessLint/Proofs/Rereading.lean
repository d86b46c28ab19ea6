import ProcessLint.Proofs.Rounding

/-! Numbers that are read from what is written for them. The reader rounds the digits, and once more
the product or quotient with a power of ten. So it may read a neighbour of the number that was
written, but it always reads one. -/
namespace ProcessLint
namespace Binary64

variable {x y : Binary64} {num den : ℕ} {negative : Bool}

/-! ### Errors of rounding -/

theorem den_pos (x : Binary64) : 0 < x.den := Nat.pow_pos two_pos

theorem num_div_den (x : Binary64) : (x.num : ℚ) / x.den = x.size := by
  simp only [num, den, size, Nat.pow_eq]
  obtain ⟨k, hk | hk⟩ := x.exponent.eq_nat_or_neg
  · simp [hk]
  · simp [hk, zpow_neg, div_eq_mul_inv]

theorem size_nonneg (x : Binary64) : 0 ≤ x.size := by
  unfold size
  positivity

/-- Rounding to a whole number moves a fraction by a half at most. -/
theorem roundHalfEven_bounds (num : ℕ) (hden : 0 < den) :
    (num : ℚ) / den - 1 / 2 ≤ roundHalfEven num den ∧
      (roundHalfEven num den : ℚ) ≤ num / den + 1 / 2 := by
  have hpos : (0 : ℚ) < den := by exact_mod_cast hden
  have hnat : 2 * num ≤ 2 * (den * roundHalfEven num den) + den ∧
      2 * (den * roundHalfEven num den) ≤ 2 * num + den := by
    have hnum := Nat.div_add_mod num den
    have hmod := Nat.mod_lt num hden
    simp only [roundHalfEven]
    split
    · omega
    · rw [Nat.mul_add]
      omega
  have hlow : (2 * num : ℚ) ≤ 2 * (den * roundHalfEven num den) + den := by exact_mod_cast hnat.1
  have hhigh : (2 * (den * roundHalfEven num den) : ℚ) ≤ 2 * num + den := by exact_mod_cast hnat.2
  constructor
  · rw [sub_le_iff_le_add, div_le_iff₀ hpos]
    linarith
  · rw [← sub_le_iff_le_add, le_div_iff₀ hpos]
    linarith

theorem inUnits_bounds (num : ℕ) (hden : den ≠ 0) (u : ℤ) :
    (num : ℚ) / den / 2 ^ u - 1 / 2 ≤ roundHalfEven (inUnits num den u).1 (inUnits num den u).2 ∧
      (roundHalfEven (inUnits num den u).1 (inUnits num den u).2 : ℚ) ≤
        num / den / 2 ^ u + 1 / 2 := by
  rw [← inUnits_eq]
  exact roundHalfEven_bounds _ (inUnits_pos num (Nat.pos_of_ne_zero hden) u)

theorem size_of_assemble? {m : ℕ} {e : ℤ} (h : assemble? negative m e = some x) :
    x.size = m * 2 ^ e := by
  unfold assemble? at h
  split at h
  rename_i m' e' hparts
  split at h
  · cases h
    simp only [size]
    split at hparts
    · rename_i hm
      cases hparts
      rw [hm, zpow_add_one₀ two_ne_zero]
      norm_num
      ring
    · cases hparts
      rfl
  · cases h

theorem isSome_assemble? {m : ℕ} {e : ℤ} (hmost : m ≤ 2 ^ 53) (hleast : -1074 ≤ e)
    (hnormal : e = -1074 ∨ 2 ^ 52 ≤ m) (htop : e < 971 ∨ e = 971 ∧ m < 2 ^ 53) :
    (assemble? negative m e).isSome = true := by
  simp only [assemble?, Nat.pow_eq]
  split
  · rw [dif_pos (by omega)]
    rfl
  · rw [dif_pos (by omega)]
    rfl

/-- In its unit a fraction has a mantissa of 53 bits, or of fewer in the least unit. -/
theorem mantissa_bounds (hnum : num ≠ 0) (hden : den ≠ 0) {u : ℤ} (hu : unitExponent num den = u) :
    roundHalfEven (inUnits num den u).1 (inUnits num den u).2 ≤ 2 ^ 53 ∧
      (u = -1074 ∨ 2 ^ 52 ≤ roundHalfEven (inUnits num den u).1 (inUnits num den u).2) := by
  obtain ⟨-, hlarge, hsmall⟩ := hu ▸ unitExponent_spec hnum hden
  have hunit : (0 : ℚ) < 2 ^ u := by positivity
  obtain ⟨hlow, hhigh⟩ := inUnits_bounds num hden u
  generalize roundHalfEven (inUnits num den u).1 (inUnits num den u).2 = m at hlow hhigh ⊢
  constructor
  · have hq : (num : ℚ) / den / 2 ^ u < 2 ^ 53 := by
      rw [div_lt_iff₀ hunit, ← zpow_natCast, ← zpow_add₀ two_ne_zero, add_comm]
      exact hlarge
    have hm : (m : ℚ) < 2 ^ 53 + 1 := by linarith
    exact Nat.lt_succ_iff.mp (by exact_mod_cast hm)
  · refine hsmall.imp_right fun hsmall => ?_
    have hq : (2 : ℚ) ^ 52 ≤ num / den / 2 ^ u := by
      rw [le_div_iff₀ hunit, ← zpow_natCast, ← zpow_add₀ two_ne_zero, add_comm]
      exact hsmall
    have hm : (2 : ℚ) ^ 52 < m + 1 := by linarith
    exact Nat.lt_succ_iff.mp (by exact_mod_cast hm)

/-- What is at least this large is rounded to no number. -/
def limit : ℚ := (2 ^ 53 - 1 / 2) * 2 ^ (971 : ℤ)

theorem limit_lt : limit < 2 ^ (1024 : ℤ) := by
  rw [limit, show (1024 : ℤ) = 53 + 971 from rfl, zpow_add₀ two_ne_zero]
  refine mul_lt_mul_of_pos_right ?_ (by positivity)
  norm_num

theorem isSome_ofFraction? (negative : Bool) (hden : den ≠ 0) (h : (num : ℚ) / den < limit) :
    (ofFraction? negative num den).isSome = true := by
  by_cases hnum : num = 0
  · simp [ofFraction?, hnum]
  obtain ⟨hleast, -, hsmall⟩ := unitExponent_spec hnum hden
  obtain ⟨hmost, hnormal⟩ := mantissa_bounds hnum hden rfl
  simp only [ofFraction?, if_neg hnum]
  refine isSome_assemble? hmost hleast hnormal ?_
  generalize unitExponent num den = u at hleast hsmall ⊢
  rcases lt_trichotomy u 971 with hu | hu | hu
  · exact Or.inl hu
  · refine Or.inr ⟨hu, ?_⟩
    obtain ⟨-, hhigh⟩ := inUnits_bounds num hden u
    have hq : (num : ℚ) / den / 2 ^ u < 2 ^ 53 - 1 / 2 := by
      rwa [div_lt_iff₀ (by positivity), hu]
    generalize roundHalfEven (inUnits num den u).1 (inUnits num den u).2 = m at hhigh ⊢
    have hm : (m : ℚ) < 2 ^ 53 := by linarith
    exact_mod_cast hm
  · have hbig : (2 : ℚ) ^ (1024 : ℤ) ≤ num / den :=
      le_trans (zpow_le_zpow_right₀ one_le_two (by omega)) (hsmall.resolve_left (by omega))
    exact absurd hbig (h.trans limit_lt).not_ge

/-- A fraction of at least one is rounded with a relative error of at most `2 ^ -53`. -/
theorem size_bounds_of_ofFraction? (hden : den ≠ 0) (hone : 1 ≤ (num : ℚ) / den)
    (h : ofFraction? negative num den = some x) :
    num / den * (1 - 1 / 2 ^ 53) ≤ x.size ∧ x.size ≤ num / den * (1 + 1 / 2 ^ 53) := by
  have hnum : num ≠ 0 := by
    rintro rfl
    norm_num at hone
  obtain ⟨-, -, hsmall⟩ := unitExponent_spec hnum hden
  simp only [ofFraction?, if_neg hnum] at h
  generalize unitExponent num den = u at hsmall h
  have hunit : (0 : ℚ) < 2 ^ u := by positivity
  have hsize := size_of_assemble? h
  obtain ⟨hlow, hhigh⟩ := inUnits_bounds num hden u
  generalize roundHalfEven (inUnits num den u).1 (inUnits num den u).2 = m at hlow hhigh hsize
  generalize (num : ℚ) / den = q at hone hsmall hlow hhigh ⊢
  have herror : (2 : ℚ) ^ u ≤ q / 2 ^ 52 := by
    rw [le_div_iff₀ (by positivity), ← zpow_natCast, ← zpow_add₀ two_ne_zero]
    rcases hsmall with rfl | hsmall
    · exact (zpow_le_one_of_nonpos₀ one_le_two (by norm_num)).trans hone
    · exact hsmall
  have hq : q / 2 ^ u * 2 ^ u = q := div_mul_cancel₀ q hunit.ne'
  have hlow := mul_le_mul_of_nonneg_right hlow hunit.le
  have hhigh := mul_le_mul_of_nonneg_right hhigh hunit.le
  rw [sub_mul, hq] at hlow
  rw [add_mul, hq] at hhigh
  rw [hsize]
  norm_num at herror ⊢
  constructor <;> linarith

/-! ### Products and quotients -/

theorem size_lt_limit (x : Binary64) : x.size < limit := by
  obtain ⟨hmantissa, -, hexponent, -⟩ := x.inRange
  have hm : (x.mantissa : ℚ) + 1 ≤ 2 ^ 53 := by exact_mod_cast hmantissa
  calc x.size ≤ x.mantissa * 2 ^ (971 : ℤ) := by
        unfold size
        gcongr
        exact one_le_two
    _ < limit := mul_lt_mul_of_pos_right (by linarith) (by positivity)

theorem isSome_mul? (h : x.size * y.size < limit) : (x.mul? y).isSome = true := by
  refine isSome_ofFraction? _ (Nat.mul_pos x.den_pos y.den_pos).ne' ?_
  push_cast
  rwa [mul_div_mul_comm, num_div_den, num_div_den]

theorem isSome_div? (h : 1 ≤ y.size) : (x.div? y).isSome = true := by
  have hnum : y.num ≠ 0 := fun hzero => by
    rw [← num_div_den, hzero] at h
    norm_num at h
  refine isSome_ofFraction? _ (Nat.mul_ne_zero x.den_pos.ne' hnum) ?_
  push_cast
  rw [mul_div_mul_comm, num_div_den, ← inv_div (y.num : ℚ), num_div_den, ← div_eq_mul_inv]
  exact (div_le_self x.size_nonneg h).trans_lt x.size_lt_limit

theorem pow_ten_lt_limit : (10 : ℚ) ^ 308 < limit := by
  have hpow : (2 * 10 ^ 308 + 2 ^ 971 : ℚ) < 2 ^ 54 * 2 ^ 971 := by
    exact_mod_cast (by decide +kernel : 2 * 10 ^ 308 + 2 ^ 971 < 2 ^ 54 * 2 ^ 971)
  rw [limit, show (971 : ℤ) = (971 : ℕ) from rfl, zpow_natCast]
  generalize (10 : ℚ) ^ 308 = ten at hpow ⊢
  generalize (2 : ℚ) ^ 971 = unit at hpow ⊢
  linarith

theorem exists_tenTo? {n : ℕ} (hn : n ≤ 308) : ∃ p, tenTo? n = some p ∧
    10 ^ n * (1 - 1 / 2 ^ 53) ≤ p.size ∧ p.size ≤ 10 ^ n * (1 + 1 / 2 ^ 53) := by
  have hvalue : ((Nat.pow 10 n : ℕ) : ℚ) / (1 : ℕ) = 10 ^ n := by simp
  have hlimit : ((Nat.pow 10 n : ℕ) : ℚ) / (1 : ℕ) < limit := by
    rw [hvalue]
    exact (pow_le_pow_right₀ (by norm_num) hn).trans_lt pow_ten_lt_limit
  obtain ⟨p, hp⟩ := Option.isSome_iff_exists.mp (isSome_ofFraction? false one_ne_zero hlimit)
  have hone : 1 ≤ ((Nat.pow 10 n : ℕ) : ℚ) / (1 : ℕ) := by
    rw [hvalue]
    exact one_le_pow₀ (by norm_num)
  have hbounds := size_bounds_of_ofFraction? one_ne_zero hone hp
  rw [hvalue] at hbounds
  exact ⟨p, hp, hbounds⟩

theorem isSome_overTenTo? (x : Binary64) {n : ℕ} (hn : 0 < n) :
    (x.overTenTo? n).isSome = true := by
  have hdiv {k : ℕ} (hpos : 0 < k) (hk : k ≤ 308) (x : Binary64) :
      ∃ p, tenTo? k = some p ∧ (x.div? p).isSome = true := by
    obtain ⟨p, hp, hlow, -⟩ := exists_tenTo? hk
    have hten : (10 : ℚ) ≤ 10 ^ k := le_self_pow₀ (by norm_num) hpos.ne'
    exact ⟨p, hp, isSome_div? (by norm_num at hlow ⊢; linarith)⟩
  fun_induction overTenTo? x n with
  | case1 x n hsmall =>
    obtain ⟨p, hp, hquotient⟩ := hdiv hn hsmall x
    rwa [hp]
  | case2 x n hlarge hzero => rfl
  | case3 x n hlarge hzero ih =>
    obtain ⟨p, hp, hquotient⟩ := hdiv (by decide) le_rfl x
    obtain ⟨z, hz⟩ := Option.isSome_iff_exists.mp hquotient
    rw [hp, Option.bind_some, hz]
    exact ih z (by omega)

theorem isSome_timesTenTo? {e : ℤ} (hzero : 308 < e → x.isZero = true)
    (hsize : x.size * (10 ^ e * (1 + 1 / 2 ^ 53)) < limit) : (x.timesTenTo? e).isSome = true := by
  unfold timesTenTo?
  split
  · exact x.isSome_overTenTo? (by omega)
  split
  · rename_i hsign hsmall
    obtain ⟨n, rfl⟩ := Int.eq_ofNat_of_zero_le (not_lt.mp hsign)
    obtain ⟨p, hp, -, hhigh⟩ := exists_tenTo? (n := n) (by omega)
    rw [Int.toNat_natCast, hp, Option.bind_some]
    rw [zpow_natCast] at hsize
    exact isSome_mul? ((mul_le_mul_of_nonneg_left hhigh x.size_nonneg).trans_lt hsize)
  · rw [if_pos (hzero (by omega))]
    rfl

/-! ### Exact steps -/

theorem negative_of_ofFraction? (h : ofFraction? negative num den = some x) :
    x.negative = negative := by
  unfold ofFraction? at h
  split at h
  · cases h
    rfl
  · simp only [assemble?] at h
    obtain ⟨_, h⟩ := Option.dite_none_right_eq_some.mp h
    cases h
    rfl

theorem roundHalfEven_mul_left {k : ℕ} (hk : 0 < k) (num den : ℕ) :
    roundHalfEven (k * num) (k * den) = roundHalfEven num den := by
  simp only [roundHalfEven, Nat.mul_div_mul_left num den hk, Nat.mul_mod_mul_left,
    Nat.mul_left_comm 2 k, Nat.mul_lt_mul_left hk, Nat.mul_right_inj hk.ne']

theorem roundHalfEven_congr {num' den' : ℕ} (hden : 0 < den) (hden' : 0 < den')
    (h : (num : ℚ) / den = num' / den') : roundHalfEven num den = roundHalfEven num' den' := by
  have hcross : den' * num = den * num' := by
    rw [div_eq_div_iff (by positivity) (by positivity)] at h
    rw [mul_comm den' num, mul_comm den num']
    exact_mod_cast h
  rw [← roundHalfEven_mul_left hden' num den, ← roundHalfEven_mul_left hden num' den', hcross,
    mul_comm den' den]

theorem ofFraction?_congr {num' den' : ℕ} (hden : den ≠ 0) (hden' : den' ≠ 0)
    (h : (num : ℚ) / den = num' / den') :
    ofFraction? negative num den = ofFraction? negative num' den' := by
  by_cases hnum : num = 0
  · have hnum' : num' = 0 := by simpa [hnum, hden', eq_comm] using h
    simp [ofFraction?, hnum, hnum']
  have hnum' : num' ≠ 0 := by
    rintro rfl
    simp [hnum, hden] at h
  have hunits : unitExponent num den = unitExponent num' den' := by
    obtain ⟨hleast, hlarge, hsmall⟩ := unitExponent_spec hnum hden
    obtain ⟨hleast', hlarge', hsmall'⟩ := unitExponent_spec hnum' hden'
    rw [h] at hlarge hsmall
    generalize unitExponent num den = u at hleast hlarge hsmall ⊢
    generalize unitExponent num' den' = u' at hleast' hlarge' hsmall' ⊢
    have hlt {a b : ℤ} {q : ℚ} (ha : 2 ^ (a + 52) ≤ q) (hb : q < 2 ^ (b + 53)) : a ≤ b := by
      have := (zpow_lt_zpow_iff_right₀ one_lt_two).mp (ha.trans_lt hb)
      omega
    rcases hsmall with rfl | hsmall <;> rcases hsmall' with rfl | hsmall'
    · rfl
    · exact le_antisymm hleast' (hlt hsmall' hlarge)
    · exact le_antisymm (hlt hsmall hlarge') hleast
    · exact le_antisymm (hlt hsmall hlarge') (hlt hsmall' hlarge)
  simp only [ofFraction?, if_neg hnum, if_neg hnum', hunits]
  rw [roundHalfEven_congr (inUnits_pos num (Nat.pos_of_ne_zero hden) _)
    (inUnits_pos num' (Nat.pos_of_ne_zero hden') _) (by rw [inUnits_eq, inUnits_eq, h])]

theorem natCast_lt_limit {n : ℕ} (hn : n < 2 ^ 64) : ((n : ℕ) : ℚ) / (1 : ℕ) < limit := by
  have hle : (n : ℚ) ≤ 10 ^ 308 := by
    exact_mod_cast hn.le.trans (by decide +kernel : 2 ^ 64 ≤ 10 ^ 308)
  rw [Nat.cast_one, div_one]
  exact hle.trans_lt pow_ten_lt_limit

theorem size_le_of_natCast {n : ℕ} (h : ofFraction? negative n 1 = some x) :
    x.size ≤ n * (1 + 1 / 2 ^ 53) := by
  obtain rfl | hpos := Nat.eq_zero_or_pos n
  · obtain rfl : zero negative = x := by simpa [ofFraction?] using h
    simp [size, zero]
  · have hone : 1 ≤ (n : ℚ) / (1 : ℕ) := by
      rw [Nat.cast_one, div_one]
      exact_mod_cast hpos
    simpa using (size_bounds_of_ofFraction? one_ne_zero hone h).2

theorem exists_ofFraction?_of_lt (negative : Bool) {n : ℕ} (hn : n < 2 ^ 53) :
    ∃ x, ofFraction? negative n 1 = some x ∧ x.size = n := by
  obtain ⟨x, hx⟩ := Option.isSome_iff_exists.mp (isSome_ofFraction? negative one_ne_zero
    (natCast_lt_limit (hn.trans (by norm_num))))
  refine ⟨x, hx, ?_⟩
  by_cases hzero : n = 0
  · subst hzero
    obtain rfl : zero negative = x := by simpa [ofFraction?] using hx
    simp [size, zero]
  obtain ⟨-, -, hsmall⟩ := unitExponent_spec hzero one_ne_zero
  simp only [ofFraction?, if_neg hzero] at hx
  generalize unitExponent n 1 = u at hsmall hx
  have hu : u ≤ 0 := by
    rcases hsmall with rfl | hsmall
    · norm_num
    · have hlt : ((n : ℕ) : ℚ) / (1 : ℕ) < 2 ^ (53 : ℤ) := by
        rw [Nat.cast_one, div_one]
        exact_mod_cast hn
      have := (zpow_lt_zpow_iff_right₀ one_lt_two).mp (hsmall.trans_lt hlt)
      omega
  obtain ⟨k, rfl⟩ := Int.exists_eq_neg_ofNat hu
  have hunits : inUnits n 1 (-k) = (n * 2 ^ k, 1) := by
    unfold inUnits
    split
    · obtain rfl : k = 0 := by omega
      simp
    · simp
  have hwhole (m : ℕ) : roundHalfEven m 1 = m := by simp [roundHalfEven, Nat.mod_one]
  rw [size_of_assemble? hx, hunits, hwhole]
  simp [zpow_neg]

theorem exists_tenTo?_of_le {k : ℕ} (hk : k ≤ 22) :
    ∃ p, tenTo? k = some p ∧ p.negative = false ∧ p.size = 10 ^ k := by
  have hall : ∀ k ∈ List.range 23, (tenTo? k).any (fun p => p.num == 10 ^ k * p.den) = true := by
    decide +kernel
  obtain ⟨p, hp, hnum⟩ := (Option.any_eq_true _ _).mp (hall k (List.mem_range.mpr (by omega)))
  refine ⟨p, hp, negative_of_ofFraction? hp, ?_⟩
  have hden : (p.den : ℚ) ≠ 0 := by exact_mod_cast p.den_pos.ne'
  rw [← num_div_den, eq_of_beq hnum, Nat.cast_mul, mul_div_cancel_right₀ _ hden]
  push_cast
  rfl

/-- A product with a power of ten that is a number is rounded once. -/
theorem timesTenTo?_natCast {n k : ℕ} (hsize : x.size = n) (hk : k ≤ 22) :
    x.timesTenTo? k = ofFraction? x.negative (n * 10 ^ k) 1 := by
  obtain ⟨p, hp, hpositive, hten⟩ := exists_tenTo?_of_le hk
  rw [timesTenTo?, if_neg (by omega), if_pos (by omega), Int.toNat_natCast, hp, Option.bind_some,
    mul?, hpositive, Bool.bne_false]
  refine ofFraction?_congr (Nat.mul_pos x.den_pos p.den_pos).ne' one_ne_zero ?_
  push_cast
  rw [mul_div_mul_comm, num_div_den, num_div_den, hsize, hten, div_one]

theorem timesTenTo?_neg {n k : ℕ} (hsize : x.size = n) (hpos : 0 < k) (hk : k ≤ 22) :
    x.timesTenTo? (-k) = ofFraction? x.negative n (10 ^ k) := by
  obtain ⟨p, hp, hpositive, hten⟩ := exists_tenTo?_of_le hk
  have hnum : p.num ≠ 0 := fun hzero => by
    rw [← num_div_den, hzero, Nat.cast_zero, zero_div] at hten
    exact pow_ne_zero k (by norm_num : (10 : ℚ) ≠ 0) hten.symm
  rw [timesTenTo?, if_pos (by omega), neg_neg, Int.toNat_natCast, overTenTo?, if_pos (by omega), hp,
    Option.bind_some, div?, hpositive, Bool.bne_false]
  refine ofFraction?_congr (Nat.mul_ne_zero x.den_pos.ne' hnum) (by positivity) ?_
  push_cast
  rw [mul_div_mul_comm, num_div_den, ← inv_div (p.num : ℚ), num_div_den, hsize, hten,
    div_eq_mul_inv]

theorem ofDecimal?_eq {n : ℕ} {e : ℤ} (hn : n < 2 ^ 53) (hlower : -22 ≤ e) (hupper : e ≤ 22) :
    ofDecimal? negative n e =
      if 0 ≤ e then ofFraction? negative (n * 10 ^ e.toNat) 1
      else ofFraction? negative n (10 ^ (-e).toNat) := by
  by_cases hzero : n = 0
  · simp [ofDecimal?, ofFraction?, hzero]
  have hcount : digitCount n ≤ 16 :=
    (Nat.length_toDigits_le_iff (by decide) (by decide)).mpr (hn.trans (by norm_num))
  rw [ofDecimal?, if_neg hzero, if_neg (by omega), if_neg (by omega)]
  rfl

end Binary64

namespace Numeral

/-! ### Leading digits -/

theorem le_ofDigitChars (n : ℕ) (cs : List Char) :
    10 ^ cs.length * n ≤ Nat.ofDigitChars 10 cs n := by
  rw [Nat.ofDigitChars_eq_ofDigitChars_zero]
  exact Nat.le_add_right _ _

theorem takeDigits_le (n : ℕ) (cs : List Char) :
    (takeDigits n cs).1 * 10 ^ (takeDigits n cs).2.length ≤ Nat.ofDigitChars 10 cs n := by
  induction cs generalizing n with
  | nil => simp [takeDigits]
  | cons c cs ih =>
    simp only [takeDigits]
    split
    · rw [Nat.ofDigitChars_cons]
      exact ih _
    · rw [Nat.mul_comm]
      exact le_ofDigitChars n (c :: cs)

theorem takeDigits_lt {n : ℕ} (hn : n < 2 ^ 64) (cs : List Char) :
    (takeDigits n cs).1 < 2 ^ 64 := by
  induction cs generalizing n with
  | nil => exact hn
  | cons c cs ih =>
    simp only [takeDigits]
    split
    · rename_i hm
      exact ih hm
    · exact hn

theorem takeDigits_of_lt {n : ℕ} {cs : List Char} (h : Nat.ofDigitChars 10 cs n < 2 ^ 64) :
    takeDigits n cs = (Nat.ofDigitChars 10 cs n, []) := by
  induction cs generalizing n with
  | nil => rfl
  | cons c cs ih =>
    rw [Nat.ofDigitChars_cons] at h ⊢
    have hm : 10 * n + (c.toNat - '0'.toNat) < Nat.pow 2 64 :=
      (Nat.le_mul_of_pos_left _ (by positivity)).trans_lt ((le_ofDigitChars _ cs).trans_lt h)
    simp only [takeDigits, if_pos hm, ih h]

variable {n : Numeral}

theorem leading_of_lt (h : n.whole < 2 ^ 64) :
    n.leading = ⟨(takeDigits n.whole n.fraction).1, (takeDigits n.whole n.fraction).2.length +
      (n.exponent.getD 0 - n.fraction.length)⟩ := by
  have hwhole : takeDigits 0 (Nat.toDigits 10 n.whole) = (n.whole, []) := by
    rw [takeDigits_of_lt, Nat.ofDigitChars_ten_toDigits]
    rwa [Nat.ofDigitChars_ten_toDigits]
  rw [leading, hwhole]
  simp only [List.length_nil, Nat.cast_zero, Binary64.Decimal.mk.injEq, true_and]
  omega

theorem leading_le_value (h : n.whole < 2 ^ 64) :
    (n.leading.digits : ℚ) * 10 ^ n.leading.exponent ≤ n.value := by
  rw [leading_of_lt h, value, zpow_add₀ (by norm_num), zpow_natCast, ← mul_assoc]
  gcongr
  exact_mod_cast takeDigits_le n.whole n.fraction

/-! ### Range -/

theorem pow_two_lt_pow_ten : (2 : ℚ) ^ 53 * 2 ^ (971 : ℤ) < 10 ^ (309 : ℤ) := by
  have hpow : (2 : ℚ) ^ 1024 < 10 ^ 309 := by
    exact_mod_cast (by decide +kernel : 2 ^ 1024 < 10 ^ 309)
  rw [← zpow_natCast, ← zpow_add₀ two_ne_zero]
  exact hpow

theorem digits_eq_zero {s : ℕ} {e : ℤ} (he : 309 ≤ e)
    (hle : (s : ℚ) * 10 ^ e ≤ (2 ^ 53 - 5 / 2) * 2 ^ (971 : ℤ)) : s = 0 := by
  by_contra hs
  have hone : (1 : ℚ) ≤ s := by exact_mod_cast Nat.one_le_iff_ne_zero.mpr hs
  have hbig : (10 : ℚ) ^ (309 : ℤ) ≤ s * 10 ^ e :=
    (zpow_le_zpow_right₀ (by norm_num) he).trans (le_mul_of_one_le_left (by positivity) hone)
  have hsmall : (2 ^ 53 - 5 / 2) * 2 ^ (971 : ℤ) ≤ (2 : ℚ) ^ 53 * 2 ^ (971 : ℤ) :=
    mul_le_mul_of_nonneg_right (by norm_num) (by positivity)
  exact absurd (hbig.trans (hle.trans hsmall)) pow_two_lt_pow_ten.not_ge

/-- A numeral with few digits in front of the point is read, if it is not among the largest. -/
theorem isSome_toBinary64? (hwhole : n.whole < 2 ^ 64)
    (hvalue : n.value ≤ (2 ^ 53 - 5 / 2) * 2 ^ (971 : ℤ)) : n.toBinary64?.isSome = true := by
  have hdigits : n.leading.digits < 2 ^ 64 := by
    rw [leading_of_lt hwhole]
    exact takeDigits_lt hwhole n.fraction
  have hle := (leading_le_value hwhole).trans hvalue
  rw [toBinary64?]
  generalize n.leading.digits = s at hdigits hle ⊢
  generalize n.leading.exponent = e at hle ⊢
  have hunit : (0 : ℚ) < 2 ^ (971 : ℤ) := by positivity
  obtain ⟨x, hx⟩ := Option.isSome_iff_exists.mp (Binary64.isSome_ofFraction? n.negative
    one_ne_zero (Binary64.natCast_lt_limit hdigits))
  have hsize := Binary64.size_le_of_natCast hx
  rw [hx, Option.bind_some]
  refine Binary64.isSome_timesTenTo? (fun he => ?_) ?_
  · obtain rfl := digits_eq_zero (by omega) hle
    obtain rfl : Binary64.zero n.negative = x := by simpa [Binary64.ofFraction?] using hx
    rfl
  · calc x.size * (10 ^ e * (1 + 1 / 2 ^ 53))
        ≤ (s : ℚ) * (1 + 1 / 2 ^ 53) * (10 ^ e * (1 + 1 / 2 ^ 53)) := by gcongr
      _ = (s : ℚ) * 10 ^ e * (1 + 1 / 2 ^ 53) ^ 2 := by ring
      _ ≤ (2 ^ 53 - 5 / 2) * 2 ^ (971 : ℤ) * (1 + 1 / 2 ^ 53) ^ 2 := by gcongr
      _ = (2 ^ 53 - 5 / 2) * (1 + 1 / 2 ^ 53) ^ 2 * 2 ^ (971 : ℤ) := by ring
      _ < Binary64.limit := mul_lt_mul_of_pos_right (by norm_num) hunit

theorem ofDigitChars_take_lt (m k : ℕ) :
    Nat.ofDigitChars 10 ((Nat.toDigits 10 m).take k) 0 < 10 ^ k := by
  have hm : m < 10 ^ (Nat.toDigits 10 m).length := Binary64.lt_pow_digitCount m
  have hvalue : Nat.ofDigitChars 10 (Nat.toDigits 10 m) 0 = m := Nat.ofDigitChars_ten_toDigits
  generalize Nat.toDigits 10 m = digits at hm hvalue ⊢
  have hle := le_ofDigitChars (Nat.ofDigitChars 10 (digits.take k) 0) (digits.drop k)
  rw [← Nat.ofDigitChars_append, List.take_append_drop, hvalue, List.length_drop] at hle
  refine Nat.lt_of_mul_lt_mul_left (a := 10 ^ (digits.length - k)) ?_
  rw [← Nat.pow_add]
  exact hle.trans_lt (hm.trans_le (Nat.pow_le_pow_right (by decide) (by omega)))

theorem whole_ofBinary64_lt (x : Binary64) : (ofBinary64 x).whole < 10 ^ 16 := by
  simp only [ofBinary64]
  generalize x.shortest .even = d
  split
  · norm_num
  have hm : d.digits < 10 ^ (Nat.toDigits 10 d.digits).length := Binary64.lt_pow_digitCount d.digits
  split
  · exact (ofDigitChars_take_lt d.digits 1).trans (by norm_num)
  split
  · norm_num
  split
  · refine (ofDigitChars_take_lt d.digits _).trans_le ?_
    exact Nat.pow_le_pow_right (by decide) (by omega)
  · rw [Nat.pow_eq]
    calc d.digits * 10 ^ d.exponent.toNat
        < 10 ^ (Nat.toDigits 10 d.digits).length * 10 ^ d.exponent.toNat := by gcongr
      _ = 10 ^ ((Nat.toDigits 10 d.digits).length + d.exponent.toNat) := (Nat.pow_add ..).symm
      _ ≤ 10 ^ 16 := Nat.pow_le_pow_right (by decide) (by omega)

theorem value_ofBinary64_le {x : Binary64}
    (hx : x.exponent < 971 ∨ x.mantissa + 3 ≤ 2 ^ 53) :
    (ofBinary64 x).value ≤ (2 ^ 53 - 5 / 2) * 2 ^ (971 : ℤ) := by
  by_cases hzero : x.mantissa = 0
  · have hvalue : (ofBinary64 x).value = 0 := by
      simp [ofBinary64, value, Binary64.isZero, hzero, Nat.ofDigitChars_cons]
    rw [hvalue]
    exact mul_nonneg (by norm_num) (by positivity)
  rw [value_ofBinary64 hzero]
  refine (Binary64.isNear_shortest .even hzero).upper.trans ?_
  obtain ⟨hmantissa, -, hexponent, -⟩ := x.inRange
  rw [Binary64.upperMidpoint]
  rcases hx with hx | hx
  · have hm : (x.mantissa : ℚ) + 1 ≤ 2 ^ 53 := by exact_mod_cast hmantissa
    have hunit : (2 : ℚ) ^ x.exponent ≤ 2 ^ (970 : ℤ) := zpow_le_zpow_right₀ one_le_two (by omega)
    rw [show (971 : ℤ) = 970 + 1 from rfl, zpow_add_one₀ two_ne_zero]
    calc ((x.mantissa : ℚ) + 1 / 2) * 2 ^ x.exponent
        ≤ (2 ^ 53 - 1 / 2) * 2 ^ (970 : ℤ) :=
          mul_le_mul (by linarith) hunit (by positivity) (by norm_num)
      _ ≤ (2 ^ 53 - 5 / 2) * 2 * 2 ^ (970 : ℤ) :=
          mul_le_mul_of_nonneg_right (by norm_num) (by positivity)
      _ = (2 ^ 53 - 5 / 2) * (2 ^ (970 : ℤ) * 2) := by ring
  · have hm : (x.mantissa : ℚ) + 3 ≤ 2 ^ 53 := by exact_mod_cast hx
    have hunit : (2 : ℚ) ^ x.exponent ≤ 2 ^ (971 : ℤ) := zpow_le_zpow_right₀ one_le_two hexponent
    exact mul_le_mul (by linarith) hunit (by positivity) (by norm_num)

/-- What is written for a number is read as a number. -/
theorem isSome_toBinary64?_ofBinary64 (x : Binary64) :
    (ofBinary64 x).toBinary64?.isSome = true := by
  by_cases hx : x.exponent < 971 ∨ x.mantissa + 3 ≤ 2 ^ 53
  · have hwhole := (whole_ofBinary64_lt x).trans (by norm_num : 10 ^ 16 < 2 ^ 64)
    exact isSome_toBinary64? hwhole (value_ofBinary64_le hx)
  · -- the two largest numbers are read with less room, and each of them is looked at
    have hfirst : ∀ negative,
        (ofBinary64 ⟨negative, 2 ^ 53 - 1, 971, by decide⟩).toBinary64?.isSome = true := by
      decide +kernel
    have hsecond : ∀ negative,
        (ofBinary64 ⟨negative, 2 ^ 53 - 2, 971, by decide⟩).toBinary64?.isSome = true := by
      decide +kernel
    obtain ⟨negative, m, e, hrange⟩ := x
    obtain rfl : e = 971 := by
      have := hrange.2.2.1
      simp only at hx
      omega
    obtain rfl | rfl : m = 2 ^ 53 - 1 ∨ m = 2 ^ 53 - 2 := by
      have hlt := hrange.1
      rw [Nat.pow_eq] at hlt
      simp only at hx
      omega
    · exact hfirst negative
    · exact hsecond negative

/-! ### Short numerals -/

/-- The digits make a number of 53 bits, and their power of ten is a number as well. -/
structure IsShort (n : Numeral) : Prop where
  digits : Nat.ofDigitChars 10 n.fraction n.whole < 2 ^ 53
  lower : -22 ≤ n.exponent.getD 0 - n.fraction.length
  upper : n.exponent.getD 0 - n.fraction.length ≤ 22

instance (n : Numeral) : Decidable n.IsShort :=
  decidable_of_iff (Nat.ofDigitChars 10 n.fraction n.whole < 2 ^ 53 ∧
    -22 ≤ n.exponent.getD 0 - n.fraction.length ∧ n.exponent.getD 0 - n.fraction.length ≤ 22)
    ⟨fun h => ⟨h.1, h.2.1, h.2.2⟩, fun h => ⟨h.1, h.2, h.3⟩⟩

/-- A short numeral is read as the nearest number, as only the last step rounds. -/
theorem IsShort.toBinary64?_eq {n : Numeral} (h : n.IsShort) : n.toBinary64? = n.nearest? := by
  obtain ⟨hdigits, hlower, hupper⟩ := h
  have hwhole : n.whole ≤ Nat.ofDigitChars 10 n.fraction n.whole :=
    (Nat.le_mul_of_pos_left _ (by positivity)).trans (le_ofDigitChars _ _)
  have htaken := takeDigits_of_lt (hdigits.trans (by norm_num : 2 ^ 53 < 2 ^ 64))
  have hleading : n.leading = ⟨Nat.ofDigitChars 10 n.fraction n.whole,
      n.exponent.getD 0 - n.fraction.length⟩ := by
    rw [leading_of_lt (by omega), htaken]
    simp
  simp only [toBinary64?, nearest?, hleading]
  generalize Nat.ofDigitChars 10 n.fraction n.whole = s at hdigits ⊢
  generalize n.exponent.getD 0 - (n.fraction.length : ℤ) = e at hlower hupper ⊢
  obtain ⟨x, hx, hsize⟩ := Binary64.exists_ofFraction?_of_lt n.negative hdigits
  have hsign := Binary64.negative_of_ofFraction? hx
  rw [hx, Option.bind_some, Binary64.ofDecimal?_eq hdigits hlower hupper, ← hsign]
  obtain ⟨k, rfl | rfl⟩ := e.eq_nat_or_neg
  · rw [if_pos (by omega), Int.toNat_natCast]
    exact Binary64.timesTenTo?_natCast hsize (by omega)
  · obtain rfl | hpos := Nat.eq_zero_or_pos k
    · exact Binary64.timesTenTo?_natCast hsize (by decide)
    · rw [if_neg (by omega), neg_neg, Int.toNat_natCast]
      exact Binary64.timesTenTo?_neg hsize hpos (by omega)

end Numeral

namespace Binary64

/-- The number that is read from what is written for a number. -/
def reread (x : Binary64) : Binary64 :=
  (Numeral.ofBinary64 x).toBinary64?.get (Numeral.isSome_toBinary64?_ofBinary64 x)

theorem toBinary64?_ofBinary64 (x : Binary64) :
    (Numeral.ofBinary64 x).toBinary64? = some x.reread := (Option.some_get _).symm

theorem reread_of_isShort {x : Binary64} (h : (Numeral.ofBinary64 x).IsShort) : x.reread = x := by
  have hread := x.toBinary64?_ofBinary64
  rw [h.toBinary64?_eq, Numeral.nearest?_ofBinary64] at hread
  exact (Option.some.inj hread).symm

end Binary64
end ProcessLint
