import ProcessLint.Proofs.Lowering
import ProcessLint.Proofs.ReservedKeywords

/-! Whether a keyword stands in a text of just its words: it does when it begins and ends with no
number that is not part of words. -/
namespace ProcessLint

open Text (isBlank isWord isNumber sameFold isBoundary touchesWord)
open Keyword (IsCased)

/-! ### Layouts -/

namespace Text

variable {s t w left right : List Char} {ws vs : List (List Char)}

theorem forall₂_pieces (h : IsCased s t) :
    List.Forall₂ IsCased (pieces isBlank s) (pieces isBlank t) := by
  induction h with
  | nil => exact .cons .nil .nil
  | @cons c d s t hcd _ ih =>
    simp only [pieces, isBlank_eq_of_sameFold hcd]
    split
    · exact .cons .nil ih
    · obtain ⟨p, ps, hs⟩ := List.exists_cons_of_ne_nil (pieces_ne_nil isBlank s)
      rw [hs] at ih ⊢
      obtain ⟨q, qs, hpq, hrest, ht⟩ := List.forall₂_cons_left_iff.mp ih
      rw [ht]
      exact .cons (.cons hcd hpq) hrest

theorem forall₂_words (h : IsCased s t) : List.Forall₂ IsCased (words s) (words t) := by
  refine List.rel_filter (fun u w huw => ?_) (forall₂_pieces h)
  cases huw <;> simp

theorem isLayout_intercalate (hws : ∀ w ∈ ws, IsUnbroken w) :
    IsLayout ws ([' '].intercalate ws) := by
  induction ws with
  | nil => exact .nil
  | cons w ws ih =>
    obtain ⟨hw, hws⟩ := List.forall_mem_cons.mp hws
    cases ws with
    | nil =>
      have hlone : IsLayout [w] (w ++ []) := .word hw (by simp) .nil
      rw [List.append_nil] at hlone
      rwa [List.intercalate_singleton]
    | cons u ws =>
      rw [List.intercalate_cons_cons, List.append_assoc]
      refine .word hw ?_ (.blank (by decide) (ih hws))
      rintro _ ⟨⟩
      decide

theorem isLayout_blanks (h : ∀ c ∈ t, isBlank c = true) : IsLayout [] t := by
  induction t with
  | nil => exact .nil
  | cons c t ih =>
    obtain ⟨hc, ht⟩ := List.forall_mem_cons.mp h
    exact .blank hc (ih ht)

theorem isBlank_of_isLayout_nil (h : IsLayout [] t) : ∀ c ∈ t, isBlank c = true := by
  generalize hws : ([] : List (List Char)) = ws at h
  induction h with
  | nil => simp
  | blank hc _ ih => exact List.forall_mem_cons.mpr ⟨hc, ih hws⟩
  | word => cases hws

theorem isLayout_between (h : IsLayout ws t) (hleft : ∀ c ∈ left, isBlank c = true)
    (hright : ∀ c ∈ right, isBlank c = true) : IsLayout ws (left ++ (t ++ right)) := by
  have hbehind : IsLayout ws (t ++ right) := by
    induction h with
    | nil => exact isLayout_blanks hright
    | blank hc _ ih => exact .blank hc ih
    | @word w ws t hw hend _ ih =>
      rw [List.append_assoc]
      refine .word hw (fun c hc => ?_) ih
      cases t with
      | nil => exact hright c (List.mem_of_head? hc)
      | cons d t => exact hend c hc
  induction left with
  | nil => exact hbehind
  | cons c left ih =>
    obtain ⟨hc, hleft⟩ := List.forall_mem_cons.mp hleft
    exact .blank hc (ih hleft)

def solidCount (cs : List Char) : Nat := cs.countP fun c => !isBlank c

@[simp] theorem solidCount_append (s t : List Char) :
    solidCount (s ++ t) = solidCount s + solidCount t := List.countP_append

theorem solidCount_eq_zero_iff : solidCount t = 0 ↔ ∀ c ∈ t, isBlank c = true := by
  simp [solidCount]

theorem solidCount_of_isUnbroken (hw : IsUnbroken w) : solidCount w = w.length :=
  List.countP_eq_length.mpr fun c hc => by rw [hw.solid c hc, Bool.not_false]

theorem solidCount_of_isCased (h : IsCased s t) : solidCount s = solidCount t := by
  induction h with
  | nil => rfl
  | cons hcd _ ih =>
    rw [solidCount, solidCount, List.countP_cons, List.countP_cons, isBlank_eq_of_sameFold hcd]
    exact congrArg (· + _) ih

theorem solidCount_of_isLayout (h : IsLayout ws t) : solidCount t = ws.flatten.length := by
  induction h with
  | nil => rfl
  | blank hc _ ih => rw [← ih, solidCount, List.countP_cons_of_neg (by simp [hc]), solidCount]
  | word hw _ _ ih =>
    rw [solidCount_append, solidCount_of_isUnbroken hw, ih, List.flatten_cons, List.length_append]

end Text

/-! ### Keywords and texts of their words -/

namespace Keyword

variable {k l : Keyword} {t : List Char} {ws vs : List (List Char)}

theorem IsSpelled.solidCount_eq (h : IsSpelled ws t) (hws : ∀ w ∈ ws, Text.IsUnbroken w) :
    Text.solidCount t = ws.flatten.length := by
  induction h with
  | word hu =>
    have hw := (List.forall_mem_cons.mp hws).1
    rw [← Text.solidCount_of_isCased hu, Text.solidCount_of_isUnbroken hw]
    simp
  | more hu _ hblank _ ih =>
    obtain ⟨hw, hws⟩ := List.forall_mem_cons.mp hws
    rw [Text.solidCount_append, Text.solidCount_append, ← Text.solidCount_of_isCased hu,
      Text.solidCount_of_isUnbroken hw, Text.solidCount_eq_zero_iff.mpr hblank, ih hws]
    simp

/-- A text made of words spells them between blanks. -/
theorem exists_isSpelled_of_isLayout (h : Text.IsLayout ws t) (hne : ws ≠ []) :
    ∃ ahead mid behind, t = ahead ++ mid ++ behind ∧ IsSpelled ws mid ∧
      (∀ c ∈ ahead, isBlank c = true) ∧ ∀ c ∈ behind, isBlank c = true := by
  induction h with
  | nil => exact absurd rfl hne
  | @blank c ws t hc _ ih =>
    obtain ⟨ahead, mid, behind, rfl, hmid, hahead, hbehind⟩ := ih hne
    exact ⟨c :: ahead, mid, behind, rfl, hmid, List.forall_mem_cons.mpr ⟨hc, hahead⟩, hbehind⟩
  | @word w ws t hw hend h ih =>
    have hself : IsCased w w := Text.isCased_iff.mpr rfl
    by_cases hlast : ws = []
    · subst hlast
      exact ⟨[], w, t, rfl, .word hself, by simp, Text.isBlank_of_isLayout_nil h⟩
    · obtain ⟨gap, mid, behind, rfl, hmid, hgap, hbehind⟩ := ih hlast
      refine ⟨[], w ++ gap ++ mid, behind, by simp, .more hself ?_ hgap hmid, by simp, hbehind⟩
      -- the next word does not begin where this one ends
      rintro rfl
      have hws := Text.isUnbroken_of_isLayout h
      have hsolid : (mid ++ behind).head?.any isBlank = false := hmid.not_isBlank_head? hws
      obtain ⟨_, b, _, hb, _⟩ := hmid.head? hws
      have hblank := hend b (by simp [hb])
      simp [hb, hblank] at hsolid

/-! ### Keywords that differ at most in case -/

def IsAlike (k l : Keyword) : Prop := IsCased k.spelling.toList l.spelling.toList

instance : DecidableRel IsAlike := fun _ _ => inferInstanceAs (Decidable (List.Forall₂ _ _ _))

theorem IsCased.symm {w u : List Char} (h : IsCased w u) : IsCased u w := by
  rw [Text.isCased_iff] at h ⊢
  exact h.symm

theorem IsCased.trans {w u x : List Char} (h : IsCased w u) (h' : IsCased u x) : IsCased w x := by
  rw [Text.isCased_iff] at h h' ⊢
  exact h.trans h'

theorem IsAlike.symm (h : k.IsAlike l) : l.IsAlike k := IsCased.symm h

theorem isLayout_spelling (hws : ∀ w ∈ k.words, Text.IsUnbroken w) :
    Text.IsLayout k.words k.spelling.toList := by
  rw [spelling, String.toList_ofList]
  exact Text.isLayout_intercalate hws

theorem IsAlike.forall₂_words (h : k.IsAlike l) (hk : ∀ w ∈ k.words, Text.IsUnbroken w)
    (hl : ∀ w ∈ l.words, Text.IsUnbroken w) : List.Forall₂ IsCased k.words l.words := by
  have hwords := Text.forall₂_words h
  rwa [Text.words_of_isLayout (isLayout_spelling hk),
    Text.words_of_isLayout (isLayout_spelling hl)] at hwords

theorem IsSpelled.of_isCased (h : IsSpelled ws t) (hcased : List.Forall₂ IsCased ws vs) :
    IsSpelled vs t := by
  induction h generalizing vs with
  | word hu =>
    obtain ⟨v, _, hwv, hrest, rfl⟩ := List.forall₂_cons_left_iff.mp hcased
    cases hrest
    exact .word (hwv.symm.trans hu)
  | more hu hgap hblank _ ih =>
    obtain ⟨v, vs, hwv, hrest, rfl⟩ := List.forall₂_cons_left_iff.mp hcased
    exact .more (hwv.symm.trans hu) hgap hblank (ih hrest)

theorem isWhole_of_sameFold {a b : Char} (h : sameFold a b = true) :
    isWhole (some a) = isWhole (some b) := by
  have hfold (c : Char) : isWhole (some (Text.fold c)) = isWhole (some c) := by
    rcases Text.fold_eq_or_isAlphabetic c with hsame | ⟨hc, hfold⟩
    · rw [hsame]
    · simp [isWhole, Text.isAlphanumeric, hc, hfold]
  rw [← hfold a, ← hfold b, beq_iff_eq.mp h]

/-- Keywords that differ at most in case stand in the same texts. -/
theorem IsAlike.standsIn_eq (h : k.IsAlike l) (hk : ∀ w ∈ k.words, Text.IsUnbroken w)
    (hl : ∀ w ∈ l.words, Text.IsUnbroken w) (text : String) :
    k.standsIn text = l.standsIn text := by
  have hwords := h.forall₂_words hk hl
  rw [Bool.eq_iff_iff, standsIn_iff hk, standsIn_iff hl]
  refine exists_congr fun ahead => exists_congr fun mid => exists_congr fun behind =>
    and_congr_right fun _ => ?_
  have hspelled : IsSpelled k.words mid ↔ IsSpelled l.words mid :=
    ⟨fun hmid => hmid.of_isCased hwords, fun hmid =>
      hmid.of_isCased (h.symm.forall₂_words hl hk)⟩
  rw [hspelled]
  refine and_congr_right fun hmid => ?_
  obtain ⟨a, b, ha, hb, hab⟩ := (hspelled.mpr hmid).head? hk
  obtain ⟨a', b', ha', hb', hab'⟩ := hmid.head? hl
  obtain ⟨y, z, hy, hz, hyz⟩ := (hspelled.mpr hmid).getLast? hk
  obtain ⟨y', z', hy', hz', hyz'⟩ := hmid.getLast? hl
  obtain rfl : b = b' := Option.some.inj (hb.symm.trans hb')
  obtain rfl : z = z' := Option.some.inj (hz.symm.trans hz')
  have hleads : k.leads = l.leads := by
    change isWhole (firstOf k.words) = isWhole (firstOf l.words)
    rw [ha, ha', isWhole_of_sameFold hab, isWhole_of_sameFold hab']
  have htrails : k.trails = l.trails := by
    change isWhole (lastOf k.words) = isWhole (lastOf l.words)
    rw [hy, hy', isWhole_of_sameFold hyz, isWhole_of_sameFold hyz']
  rw [hleads, htrails]

/-! ### Edges of keywords -/

/-- Not a number, or one that is part of words. -/
def isWordEdge (c : Char) : Bool := !isNumber c || isWord c

def hasWordEdges (k : Keyword) : Bool :=
  (firstOf k.words).all isWordEdge && (lastOf k.words).all isWordEdge

theorem isWord_of_isWhole_iff (c : Char) :
    (isWhole (some c) = true → isWord c = true) ↔ isWordEdge c = true := by
  simp only [isWhole, Option.any_some, Text.isAlphanumeric, Bool.or_eq_true, beq_iff_eq, isWordEdge,
    Bool.not_eq_true']
  constructor
  · intro h
    cases hnumber : isNumber c with
    | false => exact .inl rfl
    | true => exact .inr (h (.inl (.inr hnumber)))
  · rintro h ((halphabetic | hnumber) | rfl)
    · simp [isWord, halphabetic]
    · exact h.resolve_left (by simp [hnumber])
    · exact Text.isWord_of_isNameChar (by decide)

theorem touchesWord_of_isBlank {next : Option Char} (h : ∀ c ∈ next, isBlank c = true) :
    touchesWord next = false := by
  cases next with
  | none => rfl
  | some c => exact Text.isWord_of_isBlank (h c rfl)

/-- Between blanks a boundary that is asked for is there if the edge is a word character. -/
theorem isWordEdge_iff {a b : Char} (hab : sameFold a b = true) {next : Option Char}
    (hnext : ∀ c ∈ next, isBlank c = true) :
    ((isWhole (some a) = true → isBoundary next (some b) = true) ↔ isWordEdge a = true) ∧
      ((isWhole (some a) = true → isBoundary (some b) next = true) ↔ isWordEdge a = true) := by
  rw [← isWord_of_isWhole_iff, isBoundary, isBoundary, touchesWord_of_isBlank hnext,
    Text.touchesWord_some, Text.isWord_eq_of_sameFold hab]
  simp

theorem edges_iff {ahead mid behind : List Char} (hmid : IsSpelled k.words mid)
    (hws : ∀ w ∈ k.words, Text.IsUnbroken w) (hahead : ∀ c ∈ ahead, isBlank c = true)
    (hbehind : ∀ c ∈ behind, isBlank c = true) :
    ((k.leads = true → isBoundary ahead.getLast? mid.head? = true) ∧
        (k.trails = true → isBoundary mid.getLast? behind.head? = true)) ↔
      k.hasWordEdges = true := by
  obtain ⟨a, b, ha, hb, hab⟩ := hmid.head? hws
  obtain ⟨y, z, hy, hz, hyz⟩ := hmid.getLast? hws
  have hleads : k.leads = isWhole (some a) := congrArg isWhole ha
  have htrails : k.trails = isWhole (some y) := congrArg isWhole hy
  have hbefore : ∀ c ∈ ahead.getLast?, isBlank c = true := fun c hc =>
    hahead c (List.mem_of_getLast? hc)
  have hafter : ∀ c ∈ behind.head?, isBlank c = true := fun c hc =>
    hbehind c (List.mem_of_head? hc)
  rw [hleads, htrails, hb, hz, (isWordEdge_iff hab hbefore).1, (isWordEdge_iff hyz hafter).2,
    hasWordEdges, ha, hy, Option.all_some, Option.all_some, Bool.and_eq_true]

theorem isUnbroken_of_ofText? {entry : String} (h : ofText? entry = some k) :
    ∀ w ∈ k.words, Text.IsUnbroken w := by
  rw [words_of_ofText? h]
  exact Text.isUnbroken_of_isLayout (Text.isLayout_words entry.toList)

/-- A keyword stands in a text of just its words if it has edges that are part of words. -/
theorem standsIn_eq_hasWordEdges {text : String} (h : ofText? text = some k) :
    k.standsIn text = k.hasWordEdges := by
  have hws := isUnbroken_of_ofText? h
  have hlayout : Text.IsLayout k.words text.toList :=
    Text.isLayout_iff.mpr (ofText?_eq_some_iff.mp h)
  rw [Bool.eq_iff_iff, standsIn_iff hws]
  constructor
  · rintro ⟨ahead, mid, behind, htext, hmid, hedges⟩
    have hcount := Text.solidCount_of_isLayout hlayout
    rw [htext, Text.solidCount_append, Text.solidCount_append, hmid.solidCount_eq hws] at hcount
    have hahead : Text.solidCount ahead = 0 := by omega
    have hbehind : Text.solidCount behind = 0 := by omega
    exact (edges_iff hmid hws (Text.solidCount_eq_zero_iff.mp hahead)
      (Text.solidCount_eq_zero_iff.mp hbehind)).mp hedges
  · intro hedges
    obtain ⟨ahead, mid, behind, htext, hmid, hahead, hbehind⟩ :=
      exists_isSpelled_of_isLayout hlayout k.nonempty
    exact ⟨ahead, mid, behind, htext, hmid, (edges_iff hmid hws hahead hbehind).mpr hedges⟩

theorem ofText?_between (hws : ∀ w ∈ k.words, Text.IsUnbroken w) {left right : List Char}
    (hleft : ∀ c ∈ left, isBlank c = true) (hright : ∀ c ∈ right, isBlank c = true) :
    ofText? (.ofList (left ++ (k.spelling.toList ++ right))) = some k := by
  rw [ofText?_eq_some_iff, String.toList_ofList]
  exact Text.words_of_isLayout (Text.isLayout_between (isLayout_spelling hws) hleft hright)

end Keyword

/-! ### Entries in free text -/

theorem Keyword.isAlike_of_key_eq {k l : Keyword} (hk : 'İ' ∉ k.spelling.toList)
    (hl : 'İ' ∉ l.spelling.toList) (h : k.key = l.key) : k.IsAlike l :=
  Text.isCased_of_lower_eq hk hl (String.ofList_injective h)

namespace Validator

theorem mem_keywordFindings (v : Validator) {es : List Event} {place text : String} {k : Keyword}
    (htext : (place, text) ∈ es.flatMap Event.freeTexts) (hk : k ∈ v.dictionary.reservedIn text) :
    (Flag.reservedKeyword place k.spelling).finding ∈ v.keywordFindings es :=
  List.mem_flatMap.mpr ⟨_, htext, List.mem_map.mpr ⟨k, hk, rfl⟩⟩

/-- The keyword of an entry stands in a text of just its words, whatever the blanks, if and only if
it begins and ends with no number but one that is part of words. Such a text is told wherever it
comes in a definition, when the words are reserved: under the spelling of the first entry with the
same key, which differs at most in case unless a dotted capital is among the letters. -/
theorem ownSpelling_of_ofText? {entry : String} {k : Keyword}
    (hk : Keyword.ofText? entry = some k) :
    (∀ left right, (∀ c ∈ left, isBlank c = true) → (∀ c ∈ right, isBlank c = true) →
      k.standsIn (.ofList (left ++ (k.spelling.toList ++ right))) = k.hasWordEdges) ∧
    ∀ (v : Validator) (s : Dictionary.Source), Dictionary.ofSource s = .ok v.dictionary →
      .reservedKeyword ∉ v.disabled → entry ∈ s.reserved →
      ∃ kept ∈ v.dictionary.keywords, kept.key = k.key ∧
        ('İ' ∉ kept.spelling.toList → 'İ' ∉ k.spelling.toList → kept.IsAlike k) ∧
        (kept.IsAlike k → ∀ text, Keyword.ofText? text = some k →
          (kept ∈ v.dictionary.reservedIn text ↔ k.hasWordEdges = true) ∧
          ∀ es place, (place, text) ∈ es.flatMap Event.freeTexts → k.hasWordEdges = true →
            (Flag.reservedKeyword place kept.spelling).finding ∈ (v.report es).warnings) := by
  have hws := Keyword.isUnbroken_of_ofText? hk
  refine ⟨fun left right hleft hright => ?_, fun v s h hwanted hentry => ?_⟩
  · exact Keyword.standsIn_eq_hasWordEdges (Keyword.ofText?_between hws hleft hright)
  · obtain ⟨kept, hkept, hkey⟩ :=
      ((Dictionary.areReserved_of_ofSource h).exists_key_iff k.key).mpr
        ⟨entry, hentry, by simp [Dictionary.keyOf?, hk]⟩
    refine ⟨kept, hkept, hkey, fun hdot hdot' => Keyword.isAlike_of_key_eq hdot hdot' hkey,
      fun halike text htext => ?_⟩
    have hstands : kept.standsIn text = k.hasWordEdges := by
      rw [halike.standsIn_eq (Dictionary.isUnbroken_of_ofSource h hkept) hws,
        Keyword.standsIn_eq_hasWordEdges htext]
    have hmem : kept ∈ v.dictionary.reservedIn text ↔ k.hasWordEdges = true := by
      rw [Dictionary.reservedIn, List.mem_filter, hstands]
      exact and_iff_right hkept
    refine ⟨hmem, fun es place hplace hedges => ?_⟩
    have htold := v.mem_keywordFindings hplace (hmem.mpr hedges)
    have hreport : ((v.report es).filter (·.isOf .reservedKeyword)).warnings =
        v.keywordFindings es := by
      rw [filter_report_freeTexts h, if_neg (by simpa using hwanted)]
    rw [← hreport] at htold
    exact (List.mem_filter.mp htold).1

theorem ownSpelling_of_orderBy : ∃ d k, Dictionary.ofSource queryWords = .ok d ∧
    Keyword.ofText? "order by" = some k ∧ k.standsIn " order by\t" = true ∧
    (Flag.reservedKeyword "Report.Query" "ORDER BY").finding ∈
      (({ dictionary := d } : Validator).report [.report ⟨"R", "order \n by "⟩]).warnings := by
  obtain ⟨d, hd⟩ : ∃ d, Dictionary.ofSource queryWords = .ok d := ⟨_, rfl⟩
  obtain ⟨k, hk, hwords⟩ : ∃ k, Keyword.ofText? "order by" = some k ∧
      k.words = ["order".toList, "by".toList] := ⟨_, rfl, rfl⟩
  obtain ⟨hspelled, hreserved⟩ := ownSpelling_of_ofText? hk
  have hspelling : k.spelling = "order by" := by
    rw [Keyword.spelling, hwords]
    rfl
  have hedges : k.hasWordEdges = true := by
    rw [Keyword.hasWordEdges, hwords]
    decide +kernel
  have hkey : k.key = "order by" := by
    rw [Keyword.key, hspelling]
    decide +kernel
  obtain ⟨kept, hkept, hsame, halike, htold⟩ :=
    hreserved { dictionary := d } queryWords hd List.not_mem_nil (by decide)
  rw [Dictionary.keywords_of_ofSource hd, keywordsOf_queryWords] at hkept
  rw [hkey] at hsame
  have horder : kept.spelling = "ORDER BY" := by
    simp only [List.mem_cons, List.not_mem_nil, or_false] at hkept
    rcases hkept with rfl | rfl | rfl
    · exact absurd hsame (by decide +kernel)
    · rfl
    · exact absurd hsame (by decide +kernel)
  have htext : Keyword.ofText? "order \n by " = some k :=
    Keyword.ofText?_eq_some_iff.mpr hwords.symm
  refine ⟨d, k, hd, hk, ?_, ?_⟩
  · have hstands := hspelled [' '] ['\t'] (List.all_eq_true.mp (by decide))
      (List.all_eq_true.mp (by decide))
    rw [hspelling, hedges] at hstands
    exact hstands
  · rw [← horder]
    refine (htold (halike ?_ ?_) _ htext).2 _ _ (by decide) hedges
    · rw [horder]
      decide
    · rw [hspelling]
      decide

/-- A fraction is a number, and no part of words. -/
abbrev halfWords : Dictionary.Source where
  core := some { reserved := ["½"], verbPermissions := .ofList [] }
  domains := .ofList []
  domain := none

/-- The keyword is not found in its own spelling, nor told of a query of just that. -/
theorem halfKeyword_unseen : ∃ d k, Dictionary.ofSource halfWords = .ok d ∧
    Keyword.ofText? "½" = some k ∧ k.spelling = "½" ∧ k ∈ d.keywords ∧
    k.standsIn "½" = false ∧ k.standsIn " ½ " = false ∧
    ((({ dictionary := d } : Validator).report [.report ⟨"R", "½"⟩]).filter
      (·.isOf .reservedKeyword)).warnings = [] := by
  obtain ⟨d, hd⟩ : ∃ d, Dictionary.ofSource halfWords = .ok d := ⟨_, rfl⟩
  let k : Keyword := ⟨["½".toList], by decide⟩
  have hk : Keyword.ofText? "½" = some k := by decide
  have hkeywords : d.keywords = [k] := by
    rw [Dictionary.keywords_of_ofSource hd]
    refine Dictionary.eq_of_perm_of_ordered ?_ (Dictionary.pairwise_keywordsOf _)
      (List.pairwise_singleton _ k)
    exact (List.mergeSort_perm _ _).trans (by decide +kernel)
  have hapart : k.standsIn "½" = false := by decide +kernel
  have hreserved : d.reservedIn "½" = [] := by
    rw [Dictionary.reservedIn, hkeywords, List.filter_cons_of_neg (by simp [hapart]),
      List.filter_nil]
  refine ⟨d, k, hd, hk, by decide, by simp [hkeywords], hapart, by decide +kernel, ?_⟩
  rw [filter_report_freeTexts (v := { dictionary := d }) hd]
  simp [keywordFindings, Event.freeTexts, hreserved]

end Validator
end ProcessLint
