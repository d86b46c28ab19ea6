import ProcessLint.Proofs.Keywords
import ProcessLint.Text.Lower

/-! Lower-case forms and folds. A lower-case form folds as the text does, and texts that fold alike
have one lower-case form, unless they are written with variants of letters. -/
namespace ProcessLint

open Keyword (IsCased)

namespace Text

/-! ### Runs in order -/

deriving instance DecidableEq for CaseRun

namespace CaseRun

def IsBefore (r q : CaseRun) : Prop := r.last < q.first ∧ q.first ≤ q.last

instance : DecidableRel IsBefore := fun _ _ => inferInstanceAs (Decidable (_ ∧ _))

instance : IsTrans CaseRun IsBefore where
  trans _ _ _ h k := ⟨Nat.lt_of_lt_of_le h.1 (Nat.le_trans h.2 (Nat.le_of_lt k.1)), k.2⟩

variable {r q : CaseRun} {rs : List CaseRun} {c : Char}

/-- No character is held by two runs in order. -/
theorem apply_of_mem (hordered : rs.IsChain IsBefore) (hr : r ∈ rs)
    (hc : r.holds c.toNat = true) : apply rs c = r.move c := by
  induction rs with
  | nil => cases hr
  | cons q rs ih =>
    obtain ⟨hbefore, hrest⟩ := List.pairwise_cons.mp (List.isChain_iff_pairwise.mp hordered)
    rw [apply_cons]
    rcases List.mem_cons.mp hr with rfl | hr
    · rw [if_pos hc]
    · have hlow := (bounds_of_holds hc).1
      have hnot : ¬q.holds c.toNat = true := fun hq => by
        have hhigh := (bounds_of_holds hq).2
        have hapart := (hbefore r hr).1
        omega
      rw [if_neg hnot]
      exact ih (List.isChain_iff_pairwise.mpr hrest) hr

/-- No character that the first run moves comes to be held by the second. -/
def comesApart (r q : CaseRun) : Bool :=
  Nat.blt r.image.2 q.first || Nat.blt q.last r.image.1 ||
    r.members.all fun n => !q.holds (n + r.shift).toNat

theorem not_holds_move (hproper : r.image.isProper = true) (h : r.comesApart q = true)
    (hc : r.holds c.toNat = true) : q.holds (r.move c).toNat = false := by
  rw [toNat_move hproper hc]
  simp only [comesApart, Bool.or_eq_true, Nat.blt_eq, List.all_eq_true] at h
  rcases h with hbounds | hmembers
  · have himage := image_bounds hc
    rw [← Bool.not_eq_true]
    intro hheld
    simp only [holds, Bool.and_eq_true, decide_eq_true_eq] at hheld
    omega
  · simpa using hmembers _ (mem_members hc)

/-- Nothing that one of the runs moves comes to be held by any of them. -/
def AreApart (rs : List CaseRun) : Prop :=
  ∀ r ∈ rs, r.image.isProper = true ∧ ∀ q ∈ rs, r.comesApart q = true

theorem AreApart.apply_apply (h : AreApart rs) (c : Char) :
    apply rs (apply rs c) = apply rs c := by
  rcases apply_eq_or_moves rs c with hsame | ⟨r, hr, hheld, hmove⟩
  · rw [hsame, hsame]
  · obtain ⟨hproper, hapart⟩ := h r hr
    rw [hmove]
    exact apply_of_not_held fun q hq => not_holds_move hproper (hapart q hq) hheld

def inverse (r : CaseRun) : CaseRun := ⟨r.image.1, r.image.2, r.step, -r.shift⟩

theorem inverse_move (hproper : r.image.isProper = true) (hshift : 0 ≤ r.shift)
    (hc : r.holds c.toNat = true) :
    r.inverse.holds (r.move c).toNat = true ∧ r.inverse.move (r.move c) = c := by
  have htarget := toNat_move hproper hc
  have hbounds := bounds_of_holds hc
  have himage := image_bounds hc
  constructor
  · have hdistance : (r.move c).toNat - r.image.1 = c.toNat - r.first := by
      simp only [htarget, image]
      omega
    simp only [holds, Bool.and_eq_true, decide_eq_true_eq, beq_iff_eq] at hc
    have hheld : (r.inverse.first ≤ (r.move c).toNat ∧ (r.move c).toNat ≤ r.inverse.last) ∧
        ((r.move c).toNat - r.inverse.first) % r.inverse.step = 0 := by
      simp only [inverse]
      rw [hdistance, htarget]
      exact ⟨himage, hc.2⟩
    simpa [holds] using hheld
  · have hback : ((r.move c).toNat + r.inverse.shift).toNat = c.toNat := by
      simp only [htarget, inverse]
      omega
    rw [move, hback, Char.ofNat_toNat]

end CaseRun

/-! ### The tables -/

/-- Stretches without characters that case ignores, in which all folding takes place but that of
one mark. -/
def foldBlocks : List Interval :=
  [(0x3B, 0x5D), (0x61, 0xA7), (0xB5, 0xB6), (0xB9, 0x2AF), (0x370, 0x373), (0x376, 0x379),
   (0x37B, 0x383), (0x386, 0x386), (0x388, 0x482), (0x48A, 0x558), (0x560, 0x590),
   (0x109E, 0x10FB), (0x10FD, 0x135C), (0x1360, 0x1711), (0x1C7E, 0x1CCF), (0x1D79, 0x1D9A),
   (0x1E00, 0x1FBC), (0x1FBE, 0x1FBE), (0x1FC2, 0x1FCC), (0x1FD0, 0x1FDC), (0x1FE0, 0x1FEC),
   (0x1FF0, 0x1FFC), (0x20F1, 0x2C7B), (0x2C7E, 0x2CEE), (0x2CF2, 0x2D6E), (0xA60D, 0xA66E),
   (0xA680, 0xA69B), (0xA722, 0xA76F), (0xA771, 0xA787), (0xA78B, 0xA7F0), (0xA7F5, 0xA7F7),
   (0xAAF7, 0xAB5A), (0xAB6C, 0xABE4), (0xABEE, 0xFB1D), (0xFF1B, 0xFF3D), (0xFF41, 0xFF6F),
   (0x1037B, 0x1077F), (0x10AE7, 0x10D23), (0x10D4F, 0x10D68), (0x10D70, 0x10EAA),
   (0x1183B, 0x1193A), (0x16D6D, 0x16F4E), (0x1E8D7, 0x1E943)]

/-- All that is checked of the table of folding, in one evaluation. -/
theorem foldRuns_checked :
    foldRuns.IsChain CaseRun.IsBefore ∧
    (∀ r ∈ foldRuns, r.image.isProper = true ∧ 0 ≤ r.first + r.shift) ∧
    (foldRuns.all fun r => foldRuns.all r.comesApart) = true ∧
    foldRuns.all (CaseRun.staysIn casedIntervals) = true ∧
    (foldRuns.all fun r => r.first == 0x345 && r.last == 0x345 || r.staysIn foldBlocks) = true ∧
    Interval.areApart foldBlocks caseIgnorableIntervals = true := by
  decide +kernel

theorem foldRuns_apart : CaseRun.AreApart foldRuns := by
  obtain ⟨-, hproper, hapart, -⟩ := foldRuns_checked
  simp only [List.all_eq_true] at hapart
  exact fun r hr => ⟨(hproper r hr).1, hapart r hr⟩

/-- The runs of the script in which the small letters are folded to the capital ones. -/
def cherokeeRuns : List CaseRun := [⟨0x13A0, 0x13EF, 1, 38864⟩, ⟨0x13F0, 0x13F5, 1, 8⟩]

/-- All that is checked of the table of lowering. In all other scripts what is lowered is folded so,
and nothing is lowered to the mark that folds to the letter iota. -/
theorem lowerRuns_checked :
    (lowerRuns.filter fun r => !cherokeeRuns.contains r).isSublist foldRuns = true ∧
    (∀ r ∈ cherokeeRuns, r.image.isProper = true ∧ 0 ≤ r.shift ∧ r.inverse ∈ foldRuns) ∧
    (lowerRuns.all fun r => r.image.isProper && cherokeeRuns.all fun q =>
      r.comesApart q && q.comesApart r) = true ∧
    (∀ r ∈ lowerRuns, r.image.2 < 0x345 ∨ 0x345 < r.image.1) ∧
    ∀ r ∈ lowerRuns.tail, 0x80 ≤ r.first := by
  decide +kernel

theorem mem_foldRuns_of_lowerRuns {r : CaseRun} (h : r ∈ lowerRuns) :
    r ∈ cherokeeRuns ∨ r ∈ foldRuns := by
  have hothers := List.isSublist_iff_sublist.mp lowerRuns_checked.1
  by_cases hcherokee : r ∈ cherokeeRuns
  · exact .inl hcherokee
  · exact .inr (hothers.subset (List.mem_filter.mpr ⟨h, by simpa using hcherokee⟩))

theorem lowerRuns_apart : CaseRun.AreApart lowerRuns := by
  obtain ⟨-, -, htable, -⟩ := lowerRuns_checked
  simp only [List.all_eq_true, Bool.and_eq_true] at htable
  intro r hr
  refine ⟨(htable r hr).1, fun q hq => ?_⟩
  rcases mem_foldRuns_of_lowerRuns hq with hq' | hq'
  · exact ((htable r hr).2 q hq').1
  · rcases mem_foldRuns_of_lowerRuns hr with hr' | hr'
    · exact ((htable q hq).2 r hr').2
    · exact (foldRuns_apart r hr').2 q hq'

def foldSources (n : Nat) : List Int :=
  (foldRuns.filter fun r => decide (r.image.1 ≤ n ∧ n ≤ r.image.2)).map fun r => n - r.shift

theorem letters_checked :
    (fold 'Σ' = 'σ' ∧ fold 'σ' = 'σ' ∧ fold 'ς' = 'σ') ∧
    (fold 'İ' = 'İ' ∧ fold '\u0345' = 'ι') ∧
    (foldSources 'σ'.toNat = [0x3A3, 0x3C2] ∧ foldSources 'İ'.toNat = []) ∧
    CaseRun.apply lowerRuns 'Σ' = 'σ' ∧ CaseRun.apply lowerRuns 'σ' = 'σ' ∧
    CaseRun.apply lowerRuns 'ς' = 'ς' ∧ CaseRun.apply lowerRuns '\u0345' = '\u0345' ∧
    CaseRun.apply lowerRuns 'ι' = 'ι' := by
  decide +kernel

/-! ### Folding once more, and after lowering -/

theorem fold_fold (c : Char) : fold (fold c) = fold c := by
  rw [fold_eq_apply, fold_eq_apply, foldRuns_apart.apply_apply]

/-- What is lowered is folded to its lower-case form, or that is folded back. -/
theorem fold_eq_or_of_lower (c : Char) : CaseRun.apply lowerRuns c = c ∨
    fold c = CaseRun.apply lowerRuns c ∨ fold (CaseRun.apply lowerRuns c) = c := by
  refine (CaseRun.apply_eq_or_moves lowerRuns c).imp_right fun ⟨r, hr, hheld, hmove⟩ => ?_
  rw [hmove]
  rcases mem_foldRuns_of_lowerRuns hr with hcherokee | hfold
  · obtain ⟨hproper, hshift, hinverse⟩ := lowerRuns_checked.2.1 r hcherokee
    obtain ⟨hback, hreturn⟩ := CaseRun.inverse_move hproper hshift hheld
    right
    rw [fold_eq_apply, CaseRun.apply_of_mem foldRuns_checked.1 hinverse hback, hreturn]
  · left
    rw [fold_eq_apply, CaseRun.apply_of_mem foldRuns_checked.1 hfold hheld]

theorem fold_lower (c : Char) : fold (CaseRun.apply lowerRuns c) = fold c := by
  rcases fold_eq_or_of_lower c with hsame | hfold | hback
  · rw [hsame]
  · rw [← hfold, fold_fold]
  · rw [← fold_fold, hback]

theorem mem_foldSources {c : Char} (h : fold c ≠ c) :
    (c.toNat : Int) ∈ foldSources (fold c).toNat := by
  rw [fold_eq_apply] at h ⊢
  rcases CaseRun.apply_eq_or_moves foldRuns c with hsame | ⟨r, hr, hheld, hmove⟩
  · exact absurd hsame h
  · obtain ⟨hproper, hfirst⟩ := foldRuns_checked.2.1 r hr
    have htarget := CaseRun.toNat_move hproper hheld
    have hbounds := CaseRun.bounds_of_holds hheld
    rw [hmove]
    refine List.mem_map.mpr ⟨r, List.mem_filter.mpr ⟨hr, ?_⟩, ?_⟩
    · rw [htarget]
      simpa using CaseRun.image_bounds hheld
    · omega

theorem fold_eq_sigma_iff {c : Char} : fold c = 'σ' ↔ c = 'Σ' ∨ c = 'σ' ∨ c = 'ς' := by
  obtain ⟨⟨hcapital, hsmall, hfinal⟩, -, ⟨hsources, -⟩, -⟩ := letters_checked
  constructor
  · intro h
    by_cases hsame : fold c = c
    · exact .inr (.inl (hsame.symm.trans h))
    · have hmem := mem_foldSources hsame
      rw [h, hsources, List.mem_pair] at hmem
      refine hmem.imp (fun hc => ?_) (fun hc => .inr ?_) <;>
        exact Char.toNat_inj.mp (Int.ofNat.inj hc)
  · rintro (rfl | rfl | rfl) <;> assumption

theorem fold_eq_dottedI_iff {c : Char} : fold c = 'İ' ↔ c = 'İ' := by
  obtain ⟨-, ⟨hdotted, -⟩, ⟨-, hsources⟩, -⟩ := letters_checked
  constructor
  · intro h
    by_cases hsame : fold c = c
    · exact hsame.symm.trans h
    · have hmem := mem_foldSources hsame
      rw [h, hsources] at hmem
      cases hmem
  · rintro rfl
    exact hdotted

theorem isCased_fold (c : Char) : isCased (fold c) = isCased c := by
  obtain ⟨-, -, -, hcased, -⟩ := foldRuns_checked
  rw [fold_eq_apply]
  rcases CaseRun.apply_eq_or_covers hcased c with h | ⟨hc, hfold⟩
  · rw [h]
  · rw [isCased, isCased, hc, hfold]

theorem isCaseIgnorable_fold {c : Char} (h : c ≠ '\u0345') :
    isCaseIgnorable (fold c) = isCaseIgnorable c := by
  obtain ⟨-, -, -, -, hblocks, hapart⟩ := foldRuns_checked
  rw [fold_eq_apply]
  rcases CaseRun.apply_eq_or_moves foldRuns c with hsame | ⟨r, hr, hheld, hmove⟩
  · rw [hsame]
  · have hrun := List.all_eq_true.mp hblocks r hr
    simp only [Bool.or_eq_true, Bool.and_eq_true, beq_iff_eq] at hrun
    rcases hrun with ⟨hfirst, hlast⟩ | hstays
    · have hbounds := CaseRun.bounds_of_holds hheld
      have hmark : c.toNat = '\u0345'.toNat := by
        change c.toNat = 0x345
        omega
      exact absurd (Char.toNat_inj.mp hmark) h
    · have hcovers := CaseRun.covers_of_staysIn hstays hheld
      rw [hmove, isCaseIgnorable, isCaseIgnorable,
        Interval.covers_eq_false_of_areApart hapart hcovers.1,
        Interval.covers_eq_false_of_areApart hapart hcovers.2]

/-! ### Texts and their lower-case forms -/

variable {s t before after ahead behind : List Char} {c d : Char}

theorem isCased_iff : IsCased s t ↔ s.map fold = t.map fold := by
  rw [← List.forall₂_eq_eq_eq, List.forall₂_map_left_iff, List.forall₂_map_right_iff]
  simp only [IsCased, sameFold, beq_iff_eq]

theorem isCased_lowerFrom (h : 'İ' ∉ s) (before : List Char) : IsCased s (lowerFrom before s) := by
  induction s generalizing before with
  | nil => exact .nil
  | cons c s ih =>
    rw [List.mem_cons, not_or] at h
    have hrest := ih h.2 (c :: before)
    have hfold : ∃ d, lowerChar before c s = [d] ∧ sameFold c d = true := by
      by_cases hsigma : c = 'Σ'
      · subst hsigma
        obtain ⟨⟨hcapital, hsmall, hfinal⟩, -⟩ := letters_checked
        refine ⟨_, by rw [lowerChar, if_pos rfl], ?_⟩
        split <;> simp [sameFold, hcapital, hsmall, hfinal]
      · refine ⟨_, by rw [lowerChar, if_neg hsigma, if_neg (Ne.symm h.1)], ?_⟩
        rw [sameFold, fold_lower, beq_self_eq_true]
    obtain ⟨d, hd, hcd⟩ := hfold
    rw [lowerFrom, hd]
    exact .cons hcd hrest

/-- Texts with one lower-case form differ at most in case. -/
theorem isCased_of_lower_eq (hs : 'İ' ∉ s) (ht : 'İ' ∉ t) (h : lower s = lower t) :
    IsCased s t := by
  have hleft := isCased_iff.mp (isCased_lowerFrom hs [])
  have hright := isCased_iff.mp (isCased_lowerFrom ht [])
  rw [isCased_iff, hleft, hright]
  exact congrArg (List.map fold) h

/-! ### Regular letters -/

/-- A letter that has another lower-case form than the letters it is folded together with. -/
def isVariant (c : Char) : Bool := CaseRun.apply lowerRuns c != CaseRun.apply lowerRuns (fold c)

def endsWord (before after : List Char) : Bool := meetsCased before && !meetsCased after

/-- No variant, and a small sigma in its final form just at the end of a word. -/
def isRegularAt (before : List Char) (c : Char) (after : List Char) : Bool :=
  if c = 'σ' then !endsWord before after
  else if c = 'ς' then endsWord before after
  else !isVariant c

/-- At one place the texts, with what is read before them, have different letters, and not both of
these are regular. -/
inductive DifferIrregularly : List Char → List Char → List Char → List Char → Prop
  | here {before ahead s t : List Char} {c d : Char} (hne : c ≠ d)
      (h : isRegularAt before c s = true → isRegularAt ahead d t = false) :
      DifferIrregularly before ahead (c :: s) (d :: t)
  | later {before ahead s t : List Char} {c d : Char}
      (h : DifferIrregularly (c :: before) (d :: ahead) s t) :
      DifferIrregularly before ahead (c :: s) (d :: t)

theorem not_differIrregularly_cons_iff : ¬DifferIrregularly before ahead (c :: s) (d :: t) ↔
    (c = d ∨ isRegularAt before c s = true ∧ isRegularAt ahead d t = true) ∧
      ¬DifferIrregularly (c :: before) (d :: ahead) s t := by
  constructor
  · intro h
    refine ⟨?_, fun hlater => h (.later hlater)⟩
    by_cases hne : c = d
    · exact .inl hne
    · by_contra hirregular
      refine h (.here hne fun hc => ?_)
      rw [← Bool.not_eq_true]
      exact fun hd => hirregular (.inr ⟨hc, hd⟩)
  · rintro ⟨hplace, hrest⟩ (⟨hne, hirregular⟩ | hlater)
    · obtain ⟨hc, hd⟩ := hplace.resolve_left hne
      rw [hirregular hc] at hd
      cases hd
    · exact hrest hlater

theorem apply_lowerRuns_of_isVariant (h : isVariant c = true) :
    CaseRun.apply lowerRuns c = c := by
  refine (fold_eq_or_of_lower c).resolve_right fun hmoved => bne_iff_ne.mp h ?_
  rcases hmoved with hfold | hback
  · rw [hfold, lowerRuns_apart.apply_apply]
  · rw [← hback, fold_fold]

/-! ### What stands around a sigma -/

/-- Characters that count alike when a word is looked for around a sigma. -/
def SameContext (c d : Char) : Prop := isCaseIgnorable c = isCaseIgnorable d ∧ isCased c = isCased d

theorem sameContext_of_sameFold (h : sameFold c d = true) (hc : c ≠ '\u0345')
    (hd : d ≠ '\u0345') : SameContext c d := by
  have hfold : fold c = fold d := beq_iff_eq.mp h
  constructor
  · rw [← isCaseIgnorable_fold hc, ← isCaseIgnorable_fold hd, hfold]
  · rw [← isCased_fold c, ← isCased_fold d, hfold]

theorem ne_iotaMark_of_isRegularAt (h : isRegularAt before c after = true) : c ≠ '\u0345' := by
  rintro rfl
  obtain ⟨-, ⟨-, hfold⟩, -, -, -, -, hmark, hiota⟩ := letters_checked
  rw [isRegularAt, if_neg (by decide), if_neg (by decide), isVariant, hfold, hmark, hiota] at h
  exact absurd h (by decide)

theorem sameContext_of_regular (hcd : sameFold c d = true)
    (h : c = d ∨ isRegularAt before c after = true ∧ isRegularAt ahead d behind = true) :
    SameContext c d := by
  rcases h with rfl | ⟨hc, hd⟩
  · exact ⟨rfl, rfl⟩
  · exact sameContext_of_sameFold hcd (ne_iotaMark_of_isRegularAt hc)
      (ne_iotaMark_of_isRegularAt hd)

theorem forall₂_sameContext (h : IsCased s t) (hregular : ¬DifferIrregularly before ahead s t) :
    List.Forall₂ SameContext s t := by
  induction h generalizing before ahead with
  | nil => exact .nil
  | cons hcd _ ih =>
    obtain ⟨hplace, hrest⟩ := not_differIrregularly_cons_iff.mp hregular
    exact .cons (sameContext_of_regular hcd hplace) (ih hrest)

theorem meetsCased_congr (h : List.Forall₂ SameContext s t) : meetsCased s = meetsCased t := by
  induction h with
  | nil => rfl
  | @cons c d s t hcd _ ih =>
    cases hd : isCaseIgnorable d with
    | true => simpa [meetsCased, hcd.1, hd] using ih
    | false => simp [meetsCased, hcd.1, hd, hcd.2]

theorem endsWord_congr (hbefore : List.Forall₂ SameContext before ahead)
    (hafter : List.Forall₂ SameContext after behind) :
    endsWord before after = endsWord ahead behind := by
  rw [endsWord, endsWord, meetsCased_congr hbefore, meetsCased_congr hafter]

theorem mark_mem_lowerChar_iff : '\u0345' ∈ lowerChar before c after ↔ c = '\u0345' := by
  by_cases hsigma : c = 'Σ'
  · subst hsigma
    rw [lowerChar, if_pos rfl]
    split <;> decide
  · by_cases hdot : c = 'İ'
    · subst hdot
      rw [lowerChar, if_neg (by decide), if_pos rfl]
      decide
    · rw [lowerChar, if_neg hsigma, if_neg hdot, List.mem_singleton]
      rcases CaseRun.apply_eq_or_moves lowerRuns c with hsame | ⟨r, hr, hheld, hmove⟩
      · rw [hsame, eq_comm]
      · obtain ⟨-, -, -, hbeside, -⟩ := lowerRuns_checked
        have hapart := hbeside r hr
        have himage := CaseRun.image_bounds hheld
        rw [← CaseRun.toNat_move (lowerRuns_apart r hr).1 hheld, ← hmove] at himage
        have hmark : '\u0345'.toNat = 0x345 := rfl
        constructor
        · intro h
          rw [← h] at himage
          omega
        · rintro rfl
          exact letters_checked.2.2.2.2.2.2.1.symm

theorem sameContext_of_lowerChar_eq (hcd : sameFold c d = true)
    (h : lowerChar before c after = lowerChar ahead d behind) : SameContext c d := by
  have hmark : c = '\u0345' ↔ d = '\u0345' := by
    have hkept : '\u0345' ∈ lowerChar before c after ↔ c = '\u0345' := mark_mem_lowerChar_iff
    rw [← hkept, h, mark_mem_lowerChar_iff]
  by_cases hc : c = '\u0345'
  · rw [hc, hmark.mp hc]
    exact ⟨rfl, rfl⟩
  · exact sameContext_of_sameFold hcd hc (mt hmark.mpr hc)

/-! ### Lower-case forms of letters -/

theorem lowerChar_congr (hends : endsWord before after = endsWord ahead behind) :
    lowerChar before c after = lowerChar ahead c behind := by
  rw [endsWord, endsWord] at hends
  rw [lowerChar, lowerChar, hends]

theorem length_lowerChar (before : List Char) (c : Char) (after : List Char) :
    (lowerChar before c after).length = if fold c = 'İ' then 2 else 1 := by
  simp only [fold_eq_dottedI_iff]
  by_cases hsigma : c = 'Σ'
  · subst hsigma
    rw [lowerChar, if_pos rfl]
    rfl
  · rw [lowerChar, if_neg hsigma]
    split <;> rfl

/-- What a letter is lowered to where it is regular: a sigma is treated as a capital one. -/
def regularForm (final : Bool) (c : Char) : List Char :=
  if fold c = 'σ' then [if final then 'ς' else 'σ']
  else if fold c = 'İ' then ['i', '\u0307']
  else [CaseRun.apply lowerRuns (fold c)]

theorem regularForm_of_sameFold (h : sameFold c d = true) (final : Bool) :
    regularForm final c = regularForm final d := by
  rw [regularForm, regularForm, beq_iff_eq.mp h]

theorem lowerChar_of_isRegularAt (h : isRegularAt before c after = true) :
    lowerChar before c after = regularForm (endsWord before after) c := by
  obtain ⟨-, -, -, -, hsmall, hfinal, -⟩ := letters_checked
  by_cases hsigma : fold c = 'σ'
  · rw [regularForm, if_pos hsigma]
    rcases fold_eq_sigma_iff.mp hsigma with rfl | rfl | rfl
    · rw [lowerChar, if_pos rfl, endsWord]
    · rw [isRegularAt, if_pos rfl, Bool.not_eq_true'] at h
      rw [lowerChar, if_neg (by decide), if_neg (by decide), hsmall, h, if_neg (by decide)]
    · rw [isRegularAt, if_neg (by decide), if_pos rfl] at h
      rw [lowerChar, if_neg (by decide), if_neg (by decide), hfinal, h, if_pos rfl]
  · rw [regularForm, if_neg hsigma]
    rw [fold_eq_sigma_iff, not_or, not_or] at hsigma
    obtain ⟨hcapital, hother, hother'⟩ := hsigma
    rw [isRegularAt, if_neg hother, if_neg hother', isVariant] at h
    have hlower : CaseRun.apply lowerRuns c = CaseRun.apply lowerRuns (fold c) := by simpa using h
    rw [lowerChar, if_neg hcapital, hlower]
    simp only [fold_eq_dottedI_iff]

/-- An irregular letter stays, and a regular one that is folded alike does not become it. -/
theorem lowerChar_of_irregular (h : isRegularAt before c after = false) :
    lowerChar before c after = [c] ∧ regularForm (endsWord before after) c ≠ [c] := by
  obtain ⟨⟨-, hfold, hfold'⟩, ⟨hdotted, -⟩, -, hlower, hsmall, hfinal, -⟩ := letters_checked
  rw [isRegularAt] at h
  by_cases hsigma : c = 'σ'
  · subst hsigma
    rw [if_pos rfl, Bool.not_eq_false'] at h
    rw [lowerChar, if_neg (by decide), if_neg (by decide), hsmall, regularForm, if_pos hfold, h]
    decide
  · by_cases hsigma' : c = 'ς'
    · subst hsigma'
      rw [if_neg hsigma, if_pos rfl] at h
      rw [lowerChar, if_neg (by decide), if_neg (by decide), hfinal, regularForm, if_pos hfold', h]
      decide
    · rw [if_neg hsigma, if_neg hsigma', Bool.not_eq_false'] at h
      have hstays := apply_lowerRuns_of_isVariant h
      have hcapital : c ≠ 'Σ' := by
        rintro rfl
        rw [hlower] at hstays
        exact absurd hstays (by decide)
      have hdot : c ≠ 'İ' := by
        rintro rfl
        rw [isVariant, hdotted, bne_self_eq_false] at h
        cases h
      have hne : CaseRun.apply lowerRuns (fold c) ≠ c := fun hsame => by
        rw [isVariant, hstays, hsame, bne_self_eq_false] at h
        cases h
      constructor
      · rw [lowerChar, if_neg hcapital, if_neg hdot, hstays]
      · rw [regularForm, if_neg, if_neg]
        · simpa using hne
        · simpa only [fold_eq_dottedI_iff] using hdot
        · rw [fold_eq_sigma_iff]
          simp [hcapital, hsigma, hsigma']

/-- Letters that are folded alike are lowered alike just where they are the same or regular. -/
theorem lowerChar_eq_iff (hcd : sameFold c d = true)
    (hends : endsWord before after = endsWord ahead behind) :
    lowerChar before c after = lowerChar ahead d behind ↔
      c = d ∨ isRegularAt before c after = true ∧ isRegularAt ahead d behind = true := by
  have hform := regularForm_of_sameFold hcd (endsWord ahead behind)
  constructor
  · intro h
    cases hc : isRegularAt before c after with
    | true =>
      cases hd : isRegularAt ahead d behind with
      | true => exact .inr ⟨rfl, rfl⟩
      | false =>
        obtain ⟨hstays, hne⟩ := lowerChar_of_irregular hd
        rw [lowerChar_of_isRegularAt hc, hends, hform, hstays] at h
        exact absurd h hne
    | false =>
      obtain ⟨hstays, hne⟩ := lowerChar_of_irregular hc
      cases hd : isRegularAt ahead d behind with
      | true =>
        rw [hstays, lowerChar_of_isRegularAt hd, ← hform, ← hends] at h
        exact absurd h.symm hne
      | false =>
        rw [hstays, (lowerChar_of_irregular hd).1] at h
        exact .inl (List.singleton_inj.mp h)
  · rintro (rfl | ⟨hc, hd⟩)
    · exact lowerChar_congr hends
    · rw [lowerChar_of_isRegularAt hc, lowerChar_of_isRegularAt hd, hends, hform]

/-! ### Lower-case forms of texts -/

theorem lowerFrom_eq_iff (h : IsCased s t) (hcontext : List.Forall₂ SameContext before ahead) :
    lowerFrom before s = lowerFrom ahead t ↔ ¬DifferIrregularly before ahead s t := by
  induction h generalizing before ahead with
  | nil => exact iff_of_true rfl (by rintro ⟨⟩)
  | @cons c d s t hcd hrest ih =>
    rw [not_differIrregularly_cons_iff, lowerFrom, lowerFrom]
    constructor
    · intro heq
      have hlength : (lowerChar before c s).length = (lowerChar ahead d t).length := by
        rw [length_lowerChar, length_lowerChar, beq_iff_eq.mp hcd]
      obtain ⟨hchar, htail⟩ := List.append_inj heq hlength
      have hregular := (ih (.cons (sameContext_of_lowerChar_eq hcd hchar) hcontext)).mp htail
      have hends := endsWord_congr hcontext (forall₂_sameContext hrest hregular)
      exact ⟨(lowerChar_eq_iff hcd hends).mp hchar, hregular⟩
    · rintro ⟨hplace, hregular⟩
      have hends := endsWord_congr hcontext (forall₂_sameContext hrest hregular)
      have hchar := (lowerChar_eq_iff hcd hends).mpr hplace
      have htail := (ih (.cons (sameContext_of_regular hcd hplace) hcontext)).mpr hregular
      rw [hchar, htail]

/-- Texts that are folded alike have one lower-case form just if they have the same letters, or
regular ones, at each place. -/
theorem lower_eq_iff (h : IsCased s t) : lower s = lower t ↔ ¬DifferIrregularly [] [] s t :=
  lowerFrom_eq_iff h .nil

theorem apply_lowerRuns_of_ascii (h : c.toNat < 128) : CaseRun.apply lowerRuns c = c.toLower := by
  obtain ⟨-, -, -, -, hbeyond⟩ := lowerRuns_checked
  rw [show lowerRuns = asciiCapitals :: lowerRuns.tail from rfl, apply_of_ascii hbeyond h]

theorem isRegularAt_of_ascii (h : c.toNat < 128) (before after : List Char) :
    isRegularAt before c after = true := by
  have hlower : CaseRun.apply lowerRuns c = fold c := by
    rw [apply_lowerRuns_of_ascii h, fold, if_pos h]
  have hvariant : isVariant c = false := by
    rw [isVariant, ← hlower, lowerRuns_apart.apply_apply, bne_self_eq_false]
  have hsmall : c ≠ 'σ' := by
    rintro rfl
    exact absurd h (by decide)
  have hfinal : c ≠ 'ς' := by
    rintro rfl
    exact absurd h (by decide)
  rw [isRegularAt, if_neg hsmall, if_neg hfinal, hvariant, Bool.not_false]

theorem not_differIrregularly_of_ascii (hs : ∀ c ∈ s, c.toNat < 128) (ht : ∀ c ∈ t, c.toNat < 128)
    (before ahead : List Char) : ¬DifferIrregularly before ahead s t := by
  intro h
  induction h with
  | here _ hirregular =>
    rw [isRegularAt_of_ascii (ht _ List.mem_cons_self)] at hirregular
    exact absurd (hirregular (isRegularAt_of_ascii (hs _ List.mem_cons_self) _ _)) (by decide)
  | later _ ih =>
    exact ih (List.forall_mem_cons.mp hs).2 (List.forall_mem_cons.mp ht).2

end Text
end ProcessLint
