import ProcessLint.Text.Fold
import ProcessLint.Text.Word

/-! Folding a character changes neither whether it continues a word nor whether it is blank. -/
namespace ProcessLint
namespace Text

/-! ### Runs between intervals -/

namespace Interval

def within (is : List Interval) (j : Interval) : Bool :=
  is.any fun i => Nat.ble j.2 i.2 && Nat.ble i.1 j.1

theorem covers_of_within {is : List Interval} {j : Interval} (h : within is j = true) {c : Char}
    (hlow : j.1 ≤ c.toNat) (hhigh : c.toNat ≤ j.2) : covers is c = true := by
  simp only [within, List.any_eq_true, Bool.and_eq_true, Nat.ble_eq] at h
  obtain ⟨i, hi, hlast, hfirst⟩ := h
  exact covers_iff.mpr ⟨i, hi, Nat.le_trans hfirst hlow, Nat.le_trans hhigh hlast⟩

def isProper (i : Interval) : Bool :=
  Nat.blt i.2 0xD800 || Nat.blt 0xDFFF i.1 && Nat.blt i.2 0x110000

theorem isValidChar_of_isProper {i : Interval} (h : i.isProper = true) {n : Nat} (hlow : i.1 ≤ n)
    (hhigh : n ≤ i.2) : n.isValidChar := by
  simp only [isProper, Bool.or_eq_true, Bool.and_eq_true, Nat.blt_eq] at h
  rcases h with h | ⟨hfirst, hlast⟩
  · exact .inl (Nat.lt_of_le_of_lt hhigh h)
  · exact .inr ⟨Nat.lt_of_lt_of_le hfirst hlow, Nat.lt_of_le_of_lt hhigh hlast⟩

end Interval

namespace CaseRun

variable {r : CaseRun} {is : List Interval} {c : Char}

def members (r : CaseRun) : List Nat :=
  (List.range ((r.last - r.first) / r.step + 1)).map fun k => r.first + r.step * k

theorem mem_members (h : r.holds c.toNat = true) : c.toNat ∈ r.members := by
  simp only [holds, Bool.and_eq_true, decide_eq_true_eq, beq_iff_eq] at h
  obtain ⟨⟨hlow, hhigh⟩, hstep⟩ := h
  refine List.mem_map.mpr ⟨(c.toNat - r.first) / r.step, List.mem_range.mpr ?_, ?_⟩
  · exact Nat.lt_succ_of_le (Nat.div_le_div_right (by omega))
  · rw [Nat.mul_div_cancel' (Nat.dvd_of_mod_eq_zero hstep)]
    omega

def image (r : CaseRun) : Interval := ((r.first + r.shift).toNat, (r.last + r.shift).toNat)

/-- A run moves characters of the intervals to characters of the intervals. A run of every second
code point may have others than characters of the intervals in between. -/
def staysIn (is : List Interval) (r : CaseRun) : Bool :=
  (Interval.within is (r.first, r.last) || r.members.all fun n => Interval.within is (n, n)) &&
    (Interval.within is r.image && r.image.isProper)

theorem bounds_of_holds (h : r.holds c.toNat = true) : r.first ≤ c.toNat ∧ c.toNat ≤ r.last := by
  simp only [holds, Bool.and_eq_true, decide_eq_true_eq] at h
  exact h.1

theorem image_bounds (h : r.holds c.toNat = true) :
    r.image.1 ≤ (c.toNat + r.shift).toNat ∧ (c.toNat + r.shift).toNat ≤ r.image.2 := by
  have hbounds := bounds_of_holds h
  simp only [image]
  omega

theorem toNat_move (hproper : r.image.isProper = true) (h : r.holds c.toNat = true) :
    (r.move c).toNat = (c.toNat + r.shift).toNat := by
  have hvalid := Interval.isValidChar_of_isProper hproper (image_bounds h).1 (image_bounds h).2
  rw [move, Char.ofNat, dif_pos hvalid]
  rfl

theorem covers_of_staysIn (h : r.staysIn is = true) (hc : r.holds c.toNat = true) :
    Interval.covers is c = true ∧ Interval.covers is (r.move c) = true := by
  simp only [staysIn, Bool.and_eq_true, Bool.or_eq_true, List.all_eq_true] at h
  obtain ⟨hfrom, hto, hproper⟩ := h
  constructor
  · rcases hfrom with hfrom | hfrom
    · exact Interval.covers_of_within hfrom (bounds_of_holds hc).1 (bounds_of_holds hc).2
    · exact Interval.covers_of_within (hfrom _ (mem_members hc)) (Nat.le_refl _) (Nat.le_refl _)
  · have himage := image_bounds hc
    rw [← toNat_move hproper hc] at himage
    exact Interval.covers_of_within hto himage.1 himage.2

theorem apply_cons (r : CaseRun) (rs : List CaseRun) (c : Char) :
    apply (r :: rs) c = if r.holds c.toNat then r.move c else apply rs c := by
  by_cases h : r.holds c.toNat <;> simp [apply, h]

/-- A character stays, or one of the runs moves it. -/
theorem apply_eq_or_moves (rs : List CaseRun) (c : Char) :
    apply rs c = c ∨ ∃ r ∈ rs, r.holds c.toNat = true ∧ apply rs c = r.move c := by
  cases hfind : rs.find? fun r => r.holds c.toNat with
  | none => exact .inl (by simp [apply, hfind])
  | some r =>
    have hholds : r.holds c.toNat = true := by simpa using List.find?_some hfind
    exact .inr ⟨r, List.mem_of_find?_eq_some hfind, hholds, by simp [apply, hfind]⟩

theorem apply_eq_or_covers {rs : List CaseRun} (h : rs.all (staysIn is) = true) (c : Char) :
    apply rs c = c ∨ Interval.covers is c = true ∧ Interval.covers is (apply rs c) = true := by
  refine (apply_eq_or_moves rs c).imp_right fun ⟨r, hr, hholds, hmove⟩ => ?_
  rw [hmove]
  exact covers_of_staysIn (List.all_eq_true.mp h r hr) hholds

end CaseRun

/-! ### Folding -/

theorem foldRuns_stayIn : foldRuns.all (CaseRun.staysIn alphabeticIntervals) = true := by
  decide +kernel

def asciiCapitals : CaseRun := ⟨0x41, 0x5A, 1, 32⟩

/-- In ASCII a table that begins with the capital letters leads to the small ones. -/
theorem apply_of_ascii {rs : List CaseRun} (hbeyond : ∀ r ∈ rs, 0x80 ≤ r.first) {c : Char}
    (hascii : c.toNat < 0x80) : CaseRun.apply (asciiCapitals :: rs) c = c.toLower := by
  have hrest : CaseRun.apply rs c = c := by
    refine CaseRun.apply_of_not_held fun r hr => ?_
    have hfirst := hbeyond r hr
    rw [← Bool.not_eq_true]
    intro hheld
    have hbounds := CaseRun.bounds_of_holds hheld
    omega
  have hsmall : ∀ n < 0x80, (Char.ofNat n).toLower =
      if asciiCapitals.holds (Char.ofNat n).toNat then asciiCapitals.move (Char.ofNat n)
      else Char.ofNat n := by
    decide +kernel
  have hc := hsmall c.toNat hascii
  rw [Char.ofNat_toNat] at hc
  rw [CaseRun.apply_cons, hrest, hc]

theorem fold_eq_apply (c : Char) : fold c = CaseRun.apply foldRuns c := by
  by_cases hascii : c.toNat < 0x80
  · have hbeyond : ∀ r ∈ foldRuns.tail, 0x80 ≤ r.first := by decide +kernel
    rw [fold, if_pos hascii, show foldRuns = asciiCapitals :: foldRuns.tail from rfl,
      apply_of_ascii hbeyond hascii]
  · rw [fold, if_neg hascii]

/-- Only letters have a case, and they fold to letters. -/
theorem fold_eq_or_isAlphabetic (c : Char) :
    fold c = c ∨ isAlphabetic c = true ∧ isAlphabetic (fold c) = true := by
  rw [fold_eq_apply]
  exact CaseRun.apply_eq_or_covers foldRuns_stayIn c

theorem isWord_fold (c : Char) : isWord (fold c) = isWord c := by
  rcases fold_eq_or_isAlphabetic c with h | ⟨hc, hfold⟩
  · rw [h]
  · simp [isWord, hc, hfold]

theorem isBlank_fold (c : Char) : isBlank (fold c) = isBlank c := by
  rcases fold_eq_or_isAlphabetic c with h | ⟨hc, hfold⟩
  · rw [h]
  · rw [isBlank_of_isWord (c := c) (by simp [isWord, hc]),
      isBlank_of_isWord (by simp [isWord, hfold])]

variable {a b : Char}

theorem isWord_eq_of_sameFold (h : sameFold a b = true) : isWord b = isWord a := by
  rw [← isWord_fold a, ← isWord_fold b, beq_iff_eq.mp h]

theorem isBlank_eq_of_sameFold (h : sameFold a b = true) : isBlank b = isBlank a := by
  rw [← isBlank_fold a, ← isBlank_fold b, beq_iff_eq.mp h]

end Text
end ProcessLint
