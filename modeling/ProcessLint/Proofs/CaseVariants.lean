import ProcessLint.Proofs.OwnSpelling

/-! Entries that differ only in case are kept once, as far as their letters are regular. -/
namespace ProcessLint

open Text (DifferIrregularly)

namespace Keyword

variable {k l : Keyword}

/-- Spellings that are matched alike have one key just if they have the same letters, or regular
ones, at each place. -/
theorem key_eq_iff_of_isAlike (h : k.IsAlike l) :
    k.key = l.key ↔ ¬DifferIrregularly [] [] k.spelling.toList l.spelling.toList := by
  rw [← Text.lower_eq_iff h]
  exact ⟨fun hkey => String.ofList_injective hkey, fun hlower => congrArg String.ofList hlower⟩

end Keyword

namespace Dictionary

variable {ks : List Keyword} {es : List String}

theorem AreReserved.eq_of_key_eq (h : AreReserved ks es) {k l : Keyword} (hk : k ∈ ks)
    (hl : l ∈ ks) (hkey : k.key = l.key) : k = l := by
  obtain ⟨e, hfirst, he⟩ := (h.mem_iff k).mp hk
  obtain ⟨f, hfirst', hf⟩ := (h.mem_iff l).mp hl
  rw [hkey, hfirst'] at hfirst
  obtain rfl : f = e := Option.some.inj hfirst
  exact Option.some.inj (he.symm.trans hf)

theorem AreReserved.differIrregularly (h : AreReserved ks es) {k l : Keyword} (hk : k ∈ ks)
    (hl : l ∈ ks) (hne : k ≠ l) (halike : k.IsAlike l) :
    DifferIrregularly [] [] k.spelling.toList l.spelling.toList := by
  by_contra hregular
  exact hne (h.eq_of_key_eq hk hl ((Keyword.key_eq_iff_of_isAlike halike).mpr hregular))

/-- Keywords in ASCII are kept once, whatever their case. -/
theorem AreReserved.eq_of_ascii (h : AreReserved ks es) {k l : Keyword} (hk : k ∈ ks)
    (hl : l ∈ ks) (halike : k.IsAlike l) (hascii : ∀ c ∈ k.spelling.toList, c.toNat < 128)
    (hascii' : ∀ c ∈ l.spelling.toList, c.toNat < 128) : k = l := by
  by_contra hne
  exact Text.not_differIrregularly_of_ascii hascii hascii' [] []
    (h.differIrregularly hk hl hne halike)

end Dictionary

namespace Validator

/-- Entries that are matched alike are kept as one keyword, unless at some place they have different
letters and one of these is irregular: a letter with a lower-case form of its own, or a small sigma
in the form that its place does not ask for. Two keywords that are matched alike stand in the same
texts and differ at such a place, which those in ASCII never do. The same goes for any two that are
told of one text. -/
theorem alike_of_ofSource (v : Validator) {s : Dictionary.Source}
    (h : Dictionary.ofSource s = .ok v.dictionary) :
    (∀ e ∈ s.reserved, ∀ f ∈ s.reserved, ∀ k l, Keyword.ofText? e = some k →
      Keyword.ofText? f = some l → k.IsAlike l →
      ((∃ kept ∈ v.dictionary.keywords, kept.key = k.key ∧ kept.key = l.key) ↔
        ¬DifferIrregularly [] [] k.spelling.toList l.spelling.toList)) ∧
    (∀ k ∈ v.dictionary.keywords, ∀ l ∈ v.dictionary.keywords, k.IsAlike l →
      (k ≠ l → DifferIrregularly [] [] k.spelling.toList l.spelling.toList) ∧
      ((∀ c ∈ k.spelling.toList, c.toNat < 128) → (∀ c ∈ l.spelling.toList, c.toNat < 128) →
        k = l) ∧
      ∀ text, k ∈ v.dictionary.reservedIn text ↔ l ∈ v.dictionary.reservedIn text) ∧
    (∀ text, (v.dictionary.reservedIn text).Pairwise fun k l => k.IsAlike l →
      DifferIrregularly [] [] k.spelling.toList l.spelling.toList) ∧
    ∀ es, (v.report es).filter (·.isOf .reservedKeyword) =
      { warnings :=
          if v.disabled.contains .reservedKeyword then [] else v.keywordFindings es } := by
  have hreserved := Dictionary.areReserved_of_ofSource h
  refine ⟨fun e he f _ k l hk hl halike => ?_, fun k hk l hl halike => ⟨fun hne => ?_,
    hreserved.eq_of_ascii hk hl halike, fun text => ?_⟩, fun text => ?_, filter_report_freeTexts h⟩
  · rw [← Keyword.key_eq_iff_of_isAlike halike]
    constructor
    · rintro ⟨kept, -, hkey, hkey'⟩
      exact hkey.symm.trans hkey'
    · intro hkey
      obtain ⟨kept, hkept, hsame⟩ := (hreserved.exists_key_iff k.key).mpr
        ⟨e, he, by simp [Dictionary.keyOf?, hk]⟩
      exact ⟨kept, hkept, hsame, hsame.trans hkey⟩
  · exact hreserved.differIrregularly hk hl hne halike
  · have hstands := halike.standsIn_eq (Dictionary.isUnbroken_of_ofSource h hk)
      (Dictionary.isUnbroken_of_ofSource h hl) text
    rw [Dictionary.reservedIn, List.mem_filter, List.mem_filter, hstands]
    exact and_congr_left fun _ => iff_of_true hk hl
  · have hdistinct : (v.dictionary.reservedIn text).Nodup := hreserved.nodup.filter _
    refine hdistinct.imp_of_mem fun hk hl hne halike => ?_
    exact hreserved.differIrregularly (List.mem_filter.mp hk).1 (List.mem_filter.mp hl).1 hne halike

/-- Two words in capitals and in small letters; the Greek one ends in a sigma, which is small but
not final. -/
abbrev sigmaWords : Dictionary.Source where
  core := some { reserved := ["ΟΔΟΣ", "Drop", "οδοσ", "DROP"], verbPermissions := .ofList [] }
  domains := .ofList []
  domain := none

theorem keywordsOf_sigmaWords : Dictionary.keywordsOf sigmaWords.reserved =
    [⟨["Drop".toList], by decide⟩, ⟨["ΟΔΟΣ".toList], by decide⟩, ⟨["οδοσ".toList], by decide⟩] := by
  refine Dictionary.eq_of_perm_of_ordered ?_ (Dictionary.pairwise_keywordsOf _) (by decide +kernel)
  exact (List.mergeSort_perm _ _).trans (by decide +kernel)

theorem alike_of_sigmaWords : ∃ d, Dictionary.ofSource sigmaWords = .ok d ∧
    (∃ kept ∈ d.keywords, kept.key = "drop") ∧
    DifferIrregularly [] [] "ΟΔΟΣ".toList "οδοσ".toList := by
  obtain ⟨d, hd⟩ : ∃ d, Dictionary.ofSource sigmaWords = .ok d := ⟨_, rfl⟩
  obtain ⟨hentries, hkept, -, -⟩ := alike_of_ofSource { dictionary := d } hd
  have hkeywords := (Dictionary.keywords_of_ofSource hd).trans keywordsOf_sigmaWords
  let drop : Keyword := ⟨["Drop".toList], by decide⟩
  let capitals : Keyword := ⟨["DROP".toList], by decide⟩
  have hascii : ((drop.spelling.toList ++ capitals.spelling.toList).all fun c =>
      decide (c.toNat < 128)) = true := by
    decide
  simp only [List.all_append, Bool.and_eq_true, List.all_eq_true, decide_eq_true_eq] at hascii
  have hregular : ¬DifferIrregularly [] [] drop.spelling.toList capitals.spelling.toList :=
    Text.not_differIrregularly_of_ascii hascii.1 hascii.2 [] []
  obtain ⟨kept, hmem, hkey, -⟩ := (hentries "Drop" (by decide) "DROP" (by decide) drop capitals
    (by decide) (by decide) (by decide +kernel)).mpr hregular
  refine ⟨d, hd, ⟨kept, hmem, hkey.trans (by decide +kernel)⟩, ?_⟩
  exact (hkept ⟨["ΟΔΟΣ".toList], by decide⟩ (by simp [hkeywords]) ⟨["οδοσ".toList], by decide⟩
    (by simp [hkeywords]) (by decide +kernel)).1 (by decide)

theorem sigmaWords_twice : ∃ d k l, Dictionary.ofSource sigmaWords = .ok d ∧
    k ∈ d.keywords ∧ l ∈ d.keywords ∧ k ≠ l ∧ k.IsAlike l ∧
    ((({ dictionary := d } : Validator).report [.report ⟨"R", "οδος"⟩]).filter
      (·.isOf .reservedKeyword)).warnings =
        [(Flag.reservedKeyword "Report.Query" "ΟΔΟΣ").finding,
          (Flag.reservedKeyword "Report.Query" "οδοσ").finding] := by
  obtain ⟨d, hd⟩ : ∃ d, Dictionary.ofSource sigmaWords = .ok d := ⟨_, rfl⟩
  have hkeywords := (Dictionary.keywords_of_ofSource hd).trans keywordsOf_sigmaWords
  refine ⟨d, ⟨["ΟΔΟΣ".toList], by decide⟩, ⟨["οδοσ".toList], by decide⟩, hd, by simp [hkeywords],
    by simp [hkeywords], by decide, by decide +kernel, ?_⟩
  rw [filter_report_freeTexts (v := { dictionary := d }) hd, if_neg (by simp)]
  simp only [keywordFindings, Dictionary.reservedIn, hkeywords]
  decide +kernel

end Validator
end ProcessLint
