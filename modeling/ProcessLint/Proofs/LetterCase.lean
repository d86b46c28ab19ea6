import ProcessLint.Proofs.Advice
import ProcessLint.Proofs.Lowering

/-! Searching without regard to case. A needle in ASCII is found in any case of its letters and
between any characters, and the case of ASCII letters in the text does not count either. -/
namespace ProcessLint

namespace Text

variable {before s t v : List Char} {c d : Char}

/-! ### Letters of ASCII -/

theorem toLower_of_not_ascii (h : ¬c.toNat < 128) : c.toLower = c := by
  have hcapital : ¬(c.val ≥ 'A'.val ∧ c.val ≤ 'Z'.val) := by
    rintro ⟨-, hlast⟩
    have hbound : c.toNat ≤ 'Z'.toNat := hlast
    exact h (Nat.lt_of_le_of_lt hbound (by decide))
  exact dif_neg hcapital

theorem toLower_ascii_iff : c.toLower.toNat < 128 ↔ c.toNat < 128 := by
  constructor
  · intro h
    by_contra hc
    rw [toLower_of_not_ascii hc] at h
    exact hc h
  · intro h
    have hsmall : ∀ n < 128, (Char.ofNat n).toLower.toNat < 128 := by decide +kernel
    have hc := hsmall c.toNat h
    rwa [Char.ofNat_toNat] at hc

theorem ascii_of_toLower_eq (h : c.toLower = d.toLower) (hne : c ≠ d) :
    c.toNat < 128 ∧ d.toNat < 128 := by
  have hboth : c.toNat < 128 ↔ d.toNat < 128 := by
    rw [← toLower_ascii_iff, h, toLower_ascii_iff]
  by_cases hc : c.toNat < 128
  · exact ⟨hc, hboth.mp hc⟩
  · rw [toLower_of_not_ascii hc, toLower_of_not_ascii (mt hboth.mpr hc)] at h
    exact absurd h hne

theorem lowerChar_of_ascii (h : c.toNat < 128) (before after : List Char) :
    lowerChar before c after = [c.toLower] := by
  have hsigma : c ≠ 'Σ' := by
    rintro rfl
    exact absurd h (by decide)
  have hdotted : c ≠ 'İ' := by
    rintro rfl
    exact absurd h (by decide)
  rw [lowerChar, if_neg hsigma, if_neg hdotted, apply_lowerRuns_of_ascii h]

/-! ### Parts of a text -/

/-- A part in ASCII is lowered letter by letter, whatever stands around it. -/
theorem lowerFrom_append_of_ascii (hv : ∀ c ∈ v, c.toNat < 128) (before t : List Char) :
    lowerFrom before (v ++ t) = v.map Char.toLower ++ lowerFrom (v.reverse ++ before) t := by
  induction v generalizing before with
  | nil => rfl
  | cons c v ih =>
    obtain ⟨hc, hv⟩ := List.forall_mem_cons.mp hv
    rw [List.cons_append, lowerFrom, lowerChar_of_ascii hc, ih hv]
    simp

theorem lowerFrom_suffix (before s t : List Char) :
    lowerFrom (s.reverse ++ before) t <:+ lowerFrom before (s ++ t) := by
  induction s generalizing before with
  | nil => exact List.suffix_rfl
  | cons c s ih =>
    rw [List.reverse_cons, List.append_assoc]
    show lowerFrom (s.reverse ++ c :: before) t <:+
      lowerChar before c (s ++ t) ++ lowerFrom (c :: before) (s ++ t)
    exact (ih (c :: before)).trans (List.suffix_append _ _)

theorem lower_of_ascii (hv : ∀ c ∈ v, c.toNat < 128) : lower v = v.map Char.toLower := by
  have h := lowerFrom_append_of_ascii hv [] []
  simpa [lower, lowerFrom] using h

theorem infix_lower (hv : ∀ c ∈ v, c.toNat < 128) (h : v <:+: s) :
    v.map Char.toLower <:+: lower s := by
  obtain ⟨a, b, rfl⟩ := h
  have hpart := lowerFrom_suffix [] a (v ++ b)
  rw [lowerFrom_append_of_ascii hv] at hpart
  rw [lower, List.append_assoc]
  exact (List.prefix_append _ _).isInfix.trans hpart.isInfix

/-! ### Texts that differ in the case of ASCII letters -/

theorem sameFold_of_toLower_eq (h : c.toLower = d.toLower) : sameFold c d = true := by
  by_cases hne : c = d
  · rw [hne, sameFold_refl]
  · obtain ⟨hc, hd⟩ := ascii_of_toLower_eq h hne
    rw [sameFold, fold, fold, if_pos hc, if_pos hd, h, beq_self_eq_true]

theorem not_differIrregularly_of_toLower_eq
    (h : List.Forall₂ (fun c d => c.toLower = d.toLower) s t) (before ahead : List Char) :
    ¬DifferIrregularly before ahead s t := by
  induction h generalizing before ahead with
  | nil => nofun
  | @cons c d s t hcd _ ih =>
    rw [not_differIrregularly_cons_iff]
    refine ⟨?_, ih _ _⟩
    -- what differs is in ASCII, where no small form depends on the place
    by_cases hne : c = d
    · exact .inl hne
    · obtain ⟨hc, hd⟩ := ascii_of_toLower_eq hcd hne
      exact .inr ⟨isRegularAt_of_ascii hc _ _, isRegularAt_of_ascii hd _ _⟩

/-- The case of ASCII letters does not count in a lower-case form. -/
theorem lower_eq_of_sameAscii {s t : String} (h : sameAscii s t = true) :
    lower s.toList = lower t.toList := by
  have hletters : List.Forall₂ (fun c d => c.toLower = d.toLower) s.toList t.toList := by
    rw [sameAscii, beq_iff_eq, ← List.forall₂_eq_eq_eq, List.forall₂_map_left_iff,
      List.forall₂_map_right_iff] at h
    exact h
  have hcased : Keyword.IsCased s.toList t.toList := hletters.imp fun _ _ => sameFold_of_toLower_eq
  exact (lower_eq_iff hcased).mpr (not_differIrregularly_of_toLower_eq hletters [] [])

theorem ascii_of_sameAscii {s t : String} (h : sameAscii s t = true)
    (ht : ∀ c ∈ t.toList, c.toNat < 128) : ∀ c ∈ s.toList, c.toNat < 128 := by
  have hletters : s.toList.map Char.toLower = t.toList.map Char.toLower := beq_iff_eq.mp h
  intro c hc
  have hlower : c.toLower ∈ t.toList.map Char.toLower := by
    rw [← hletters]
    exact List.mem_map_of_mem hc
  obtain ⟨d, hd, hcd⟩ := List.mem_map.mp hlower
  rw [← toLower_ascii_iff, ← hcd, toLower_ascii_iff]
  exact ht d hd

end Text

namespace Heuristic

variable {text needle variant : String}

namespace Scan

theorem hasInAnyCase_of_has (hneedle : ∀ c ∈ needle.toList, c.toNat < 128)
    (hvariant : Text.sameAscii variant needle = true) (h : (ofText text).has variant = true) :
    (ofText text).hasInAnyCase needle = true := by
  have hascii := Text.ascii_of_sameAscii hvariant hneedle
  have hlower := Text.lower_eq_of_sameAscii hvariant
  rw [hasInAnyCase_iff, ← hlower, Text.lower_of_ascii hascii]
  exact Text.infix_lower hascii (has_iff.mp h)

theorem hasInAnyCase_congr {text' needle' : String} (htext : Text.sameAscii text' text = true)
    (hneedle : Text.sameAscii needle' needle = true) :
    (ofText text').hasInAnyCase needle' = (ofText text).hasInAnyCase needle := by
  rw [hasInAnyCase, hasInAnyCase, ofText, ofText, Text.lower_eq_of_sameAscii htext,
    Text.lower_eq_of_sameAscii hneedle]

end Scan

namespace Banking

variable {h : Banking} {s : Scan} {f : Finding}

theorem code_ne_of_encrypted (hencrypted : s.hasInAnyCase "encrypted" = true)
    (hf : f ∈ h.check s) : f.code ≠ "PCI-DSS-001" := by
  intro hcode
  have hlisted := (carries_of_mem_check hf).2.1
  rw [hcode] at hlisted
  cases h with
  | cardData =>
    simp only [check, hencrypted, List.mem_append, mem_when, mem_each, List.mem_singleton,
      Bool.not_true, Bool.and_false, Bool.false_and, Bool.false_eq_true, false_and, false_or] at hf
    rcases hf with ⟨-, rfl⟩ | ⟨-, n, -, -, rfl⟩
    · have hother : "PCI-DSS-002" = "PCI-DSS-001" := hcode
      exact absurd hother (by decide)
    · have hother : "PCI-DSS-003" = "PCI-DSS-001" := hcode
      exact absurd hother (by decide)
  | _ => exact absurd hlisted (by decide)

theorem code_ne_of_protected
    (hprotected : s.hasInAnyCase "encrypted" = true ∨ s.hasInAnyCase "masked" = true)
    (hf : f ∈ h.check s) : f.code ≠ "DATA-001" := by
  intro hcode
  have hlisted := (carries_of_mem_check hf).2.1
  rw [hcode] at hlisted
  cases h with
  | sensitiveData =>
    rw [check, mem_when, Bool.or_eq_true _ _ |>.mpr hprotected] at hf
    exact absurd hf.1 (by decide)
  | _ => exact absurd hlisted (by decide)

end Banking

/-- A needle in ASCII is found in any case of its letters and wherever it stands in the text, and
what is found does not depend on the case of ASCII letters in the text or the needle. So whatever
is said to be encrypted is not told to lack protection, and what is said to be masked is no
identifier that is told. -/
theorem hasInAnyCase_of_letterCase (text needle : String)
    (hneedle : ∀ c ∈ needle.toList, c.toNat < 128) :
    (∀ variant, Text.sameAscii variant needle = true → (Scan.ofText text).has variant = true →
      (Scan.ofText text).hasInAnyCase needle = true) ∧
    ((Scan.ofText text).has needle = true → (Scan.ofText text).hasInAnyCase needle = true) ∧
    (∀ text' needle', Text.sameAscii text' text = true → Text.sameAscii needle' needle = true →
      (Scan.ofText text').hasInAnyCase needle' = (Scan.ofText text).hasInAnyCase needle) ∧
    ∀ variant, (Scan.ofText text).has variant = true →
      (Text.sameAscii variant "encrypted" = true →
        ∀ hs, ∀ f ∈ scan hs text, f.code ≠ "PCI-DSS-001" ∧ f.code ≠ "DATA-001") ∧
      (Text.sameAscii variant "masked" = true →
        ∀ hs, ∀ f ∈ scan hs text, f.code ≠ "DATA-001") := by
  refine ⟨fun variant hvariant hhas => Scan.hasInAnyCase_of_has hneedle hvariant hhas,
    fun hhas => Scan.hasInAnyCase_of_has hneedle (Text.sameAscii_refl needle) hhas,
    fun text' needle' htext hsame => Scan.hasInAnyCase_congr htext hsame,
    fun variant hhas => ⟨fun hvariant hs f hf => ?_, fun hvariant hs f hf => ?_⟩⟩
  · have hencrypted := Scan.hasInAnyCase_of_has (by simp) hvariant hhas
    obtain ⟨h, -, hf⟩ := List.mem_flatMap.mp hf
    exact ⟨Banking.code_ne_of_encrypted hencrypted hf,
      Banking.code_ne_of_protected (.inl hencrypted) hf⟩
  · have hmasked := Scan.hasInAnyCase_of_has (by simp) hvariant hhas
    obtain ⟨h, -, hf⟩ := List.mem_flatMap.mp hf
    exact Banking.code_ne_of_protected (.inr hmasked) hf

/-- A needle between capital sigmas, which have another small form at the end of a word. -/
theorem hasInAnyCase_of_sigmas :
    let text := "PAN SSN ΣENCRYPTEDΣ"
    (∀ c ∈ "Encrypted".toList, c.toNat < 128) ∧
      Text.sameAscii "ENCRYPTED" "Encrypted" = true ∧
      (Scan.ofText text).has "ENCRYPTED" = true ∧
      (Scan.ofText text).hasInAnyCase "Encrypted" = true ∧
      Text.sameAscii "pan ssn ΣencryptedΣ" text = true ∧
      (Scan.ofText "pan ssn ΣencryptedΣ").hasInAnyCase "Encrypted" =
        (Scan.ofText text).hasInAnyCase "Encrypted" ∧
      Text.sameAscii "ENCRYPTED" "encrypted" = true ∧
      ∀ f ∈ scan Banking.all text, f.code ≠ "PCI-DSS-001" ∧ f.code ≠ "DATA-001" := by
  intro text
  have hneedle : ∀ c ∈ "Encrypted".toList, c.toNat < 128 := by simp
  have hvariant : Text.sameAscii "ENCRYPTED" "Encrypted" = true := by decide
  have hhas : (Scan.ofText text).has "ENCRYPTED" = true := by decide +kernel
  have hsmall : Text.sameAscii "pan ssn ΣencryptedΣ" text = true := by decide +kernel
  have hlower : Text.sameAscii "ENCRYPTED" "encrypted" = true := by decide
  obtain ⟨hfound, -, hsame, htold⟩ := hasInAnyCase_of_letterCase text "Encrypted" hneedle
  exact ⟨hneedle, hvariant, hhas, hfound _ hvariant hhas, hsmall,
    hsame _ _ hsmall (Text.sameAscii_refl _), hlower, (htold _ hhas).1 hlower _⟩

end Heuristic
end ProcessLint
