import ProcessLint.Proofs.Extension
import ProcessLint.Proofs.Filtering
import ProcessLint.Proofs.Keywords

/-! Reserved keywords are kept once for each lower-case spelling and told in one order, in every
free text in which they stand. -/
namespace ProcessLint

open Text (isBlank)

/-! ### The keywords of entries -/

namespace Dictionary

def keyOf? (entry : String) : Option String := (Keyword.ofText? entry).map Keyword.key

def firstOfKey? (entries : List String) (key : String) : Option String :=
  entries.find? fun e => keyOf? e = some key

/-- The keywords are those of the entries: one for each key, as the first entry of the key has it,
in the order of the keys. -/
structure AreReserved (ks : List Keyword) (entries : List String) : Prop where
  ordered : ks.Pairwise fun k l => k.key < l.key
  mem_iff : ∀ k, k ∈ ks ↔ ∃ e, firstOfKey? entries k.key = some e ∧ Keyword.ofText? e = some k

section

variable {α : Type} {key : α → String} {a : α} {as : List α}

theorem mem_firsts_iff : a ∈ firsts key as ↔ as.find? (fun b => key b = key a) = some a := by
  induction as with
  | nil => simp [firsts]
  | cons b as ih =>
    by_cases hkey : key b = key a
    · have hlater : a ∉ (firsts key as).filter fun c => key c != key b := by simp [hkey]
      rw [firsts, List.mem_cons, or_iff_left hlater, List.find?_cons_of_pos (by simpa using hkey),
        Option.some.injEq, eq_comm]
    · have hne : a ≠ b := fun h => hkey (h ▸ rfl)
      have hkeep : (key a != key b) = true := bne_iff_ne.mpr (Ne.symm hkey)
      rw [firsts, List.mem_cons, or_iff_right hne, List.mem_filter, ih,
        List.find?_cons_of_neg (by simpa using hkey)]
      exact and_iff_left hkeep

theorem pairwise_firsts (key : α → String) (as : List α) :
    (firsts key as).Pairwise fun a b => key a ≠ key b := by
  induction as with
  | nil => exact .nil
  | cons a as ih =>
    refine List.pairwise_cons.mpr ⟨fun b hb => ?_, ih.filter _⟩
    exact (bne_iff_ne.mp (List.mem_filter.mp hb).2).symm

end

theorem mem_keywordsOf_iff {entries : List String} {k : Keyword} :
    k ∈ keywordsOf entries ↔
      ∃ e, firstOfKey? entries k.key = some e ∧ Keyword.ofText? e = some k := by
  have hkeys : (fun e => (Keyword.ofText? e).any fun l => decide (l.key = k.key)) =
      fun e => decide (keyOf? e = some k.key) := by
    funext e
    cases h : Keyword.ofText? e <;> simp [keyOf?, h]
  rw [keywordsOf, List.mem_mergeSort, mem_firsts_iff, List.find?_filterMap, hkeys,
    Option.bind_eq_some_iff]
  rfl

theorem pairwise_keywordsOf (entries : List String) :
    (keywordsOf entries).Pairwise fun k l => k.key < l.key := by
  let found := entries.filterMap Keyword.ofText?
  have hsorted : (keywordsOf entries).Pairwise fun k l => k.key ≤ l.key := by
    have htrans (a b c : Keyword) (hab : a.key ≤ b.key) (hbc : b.key ≤ c.key) : a.key ≤ c.key :=
      String.le_trans hab hbc
    have hpairs := @List.pairwise_mergeSort _ (fun k l : Keyword => k.key ≤ l.key)
      (by simpa using htrans) (fun k l => by simpa using String.le_total k.key l.key)
      (firsts Keyword.key found)
    exact hpairs.imp fun hle => of_decide_eq_true hle
  have hdistinct : (keywordsOf entries).Pairwise fun k l => k.key ≠ l.key :=
    ((List.mergeSort_perm _ _).pairwise_iff fun h => h.symm).mpr (pairwise_firsts _ found)
  refine (hsorted.and hdistinct).imp fun ⟨hle, hne⟩ => ?_
  exact String.not_le.mp fun hge => hne (String.le_antisymm hle hge)

theorem eq_of_perm_of_ordered {ks ls : List Keyword} (h : ks.Perm ls)
    (hks : ks.Pairwise fun k l => k.key < l.key) (hls : ls.Pairwise fun k l => k.key < l.key) :
    ks = ls :=
  h.eq_of_pairwise (fun _ _ _ _ hab hba => absurd (String.lt_trans hab hba) (String.lt_irrefl _))
    hks hls

theorem areReserved_keywordsOf (entries : List String) :
    AreReserved (keywordsOf entries) entries where
  ordered := pairwise_keywordsOf entries
  mem_iff _ := mem_keywordsOf_iff

namespace AreReserved

variable {ks ls : List Keyword} {es fs : List String}

theorem exists_key_iff (h : AreReserved ks es) (key : String) :
    (∃ k ∈ ks, k.key = key) ↔ ∃ e ∈ es, keyOf? e = some key := by
  constructor
  · rintro ⟨k, hk, rfl⟩
    obtain ⟨e, hfirst, he⟩ := (h.mem_iff k).mp hk
    exact ⟨e, List.mem_of_find?_eq_some hfirst, by simp [keyOf?, he]⟩
  · rintro ⟨e, he, hkey⟩
    have hfound : (firstOfKey? es key).isSome := by
      rw [firstOfKey?, List.find?_isSome]
      exact ⟨e, he, by simp [hkey]⟩
    obtain ⟨first, hfirst⟩ := Option.isSome_iff_exists.mp hfound
    have hfirstKey : keyOf? first = some key := by simpa using List.find?_some hfirst
    obtain ⟨k, hk, rfl⟩ := Option.map_eq_some_iff.mp hfirstKey
    exact ⟨k, (h.mem_iff k).mpr ⟨first, hfirst, hk⟩, rfl⟩

theorem nodup (h : AreReserved ks es) : ks.Nodup := by
  refine h.ordered.imp fun {k l} hlt heq => ?_
  rw [heq] at hlt
  exact String.lt_irrefl _ hlt

end AreReserved

theorem areReserved_of_ofSource {s : Source} {d : Dictionary} (h : ofSource s = .ok d) :
    AreReserved d.keywords s.reserved := by
  rw [keywords_of_ofSource h]
  exact areReserved_keywordsOf s.reserved

theorem isUnbroken_of_ofSource {s : Source} {d : Dictionary} (h : ofSource s = .ok d) {k : Keyword}
    (hk : k ∈ d.keywords) : ∀ w ∈ k.words, Text.IsUnbroken w := by
  obtain ⟨e, -, he⟩ := ((areReserved_of_ofSource h).mem_iff k).mp hk
  rw [Keyword.words_of_ofText? he]
  exact Text.isUnbroken_of_isLayout (Text.isLayout_words e.toList)

end Dictionary

/-! ### Blank texts -/

theorem Text.isBlank_of_trim_eq_nil {cs : List Char} (h : trim cs = []) :
    ∀ c ∈ cs, isBlank c = true := by
  rw [trim, trimEnd, List.reverse_eq_nil_iff, List.dropWhile_eq_nil_iff] at h
  have hstart : trimStart cs = [] := by
    cases hrest : trimStart cs with
    | nil => rfl
    | cons c r =>
      have hc : isBlank c = true := h c (by simp [hrest])
      have hstop := any_head?_dropWhile isBlank cs
      rw [← trimStart, hrest] at hstop
      exact absurd hc (by simpa using hstop)
  exact List.dropWhile_eq_nil_iff.mp hstart

/-- A keyword has a character that is not blank, and so has a text in which it stands. -/
theorem Keyword.exists_solid_of_standsIn {k : Keyword} (hws : ∀ w ∈ k.words, Text.IsUnbroken w)
    {text : String} (h : k.standsIn text = true) : ∃ c ∈ text.toList, isBlank c = false := by
  obtain ⟨ahead, mid, behind, htext, hmid, -⟩ := (standsIn_iff hws).mp h
  obtain ⟨a, b, ha, hb, hab⟩ := hmid.head? hws
  obtain ⟨w, hw, haw⟩ := Option.bind_eq_some_iff.mp ha
  have hsolid : isBlank a = false :=
    (hws w (List.mem_of_head? hw)).solid a (List.mem_of_head? haw)
  refine ⟨b, ?_, (Text.isBlank_eq_of_sameFold hab).trans hsolid⟩
  simp [htext, List.mem_of_head? hb]

/-! ### What is told of free text -/

/-- The free texts of an event, each with the kind of its place. -/
def Event.freeTexts : Event → List (String × String)
  | .validation line => [("Validation", Validator.validationText line)]
  | .rule r => [("Rule.Description", r.description), ("Rule.Trigger", r.trigger)]
  | .report r => [("Report.Query", r.query)]
  | _ => []

namespace Validator

variable {v : Validator} {s : Dictionary.Source}

theorem reservedIn_eq_nil (h : Dictionary.ofSource s = .ok v.dictionary) {text : String}
    (hblank : ∀ c ∈ text.toList, isBlank c = true) : v.dictionary.reservedIn text = [] := by
  refine List.filter_eq_nil_iff.mpr fun k hk hstands => ?_
  obtain ⟨c, hc, hsolid⟩ :=
    Keyword.exists_solid_of_standsIn (Dictionary.isUnbroken_of_ofSource h hk) hstands
  rw [hblank c hc] at hsolid
  cases hsolid

/-- That nothing is told of a blank text goes without saying: no keyword stands in one. -/
theorem textFlags_eq (h : Dictionary.ofSource s = .ok v.dictionary) (place text : String) :
    v.textFlags place text =
      (v.dictionary.reservedIn text).map fun k => .reservedKeyword place k.spelling := by
  rw [textFlags]
  split
  · rename_i hempty
    have hblank := Text.isBlank_of_trim_eq_nil (List.isEmpty_iff.mp hempty)
    rw [reservedIn_eq_nil h hblank, List.map_nil]
  · rfl

theorem filter_flags_freeTexts (v : Validator) (m : Memory) (e : Event) :
    (v.flags m e).filter (·.rule = .reservedKeyword) =
      e.freeTexts.flatMap fun t => v.textFlags t.1 t.2 := by
  cases e with
  | validation line =>
    rw [flags, filter_rule_eq_self fun f hf => rule_of_mem_textFlags hf]
    simp [Event.freeTexts]
  | rule r =>
    rw [flags, List.filter_append, filter_rule_eq_self fun f hf => rule_of_mem_textFlags hf,
      filter_rule_eq_self fun f hf => rule_of_mem_textFlags hf]
    simp [Event.freeTexts]
  | report r =>
    rw [flags, filter_rule_eq_self fun f hf => rule_of_mem_textFlags hf]
    simp [Event.freeTexts]
  | _ =>
    refine filter_rule_eq_nil fun f hf hrule => ?_
    have hrules := rule_mem_of_mem_flags hf
    rw [hrule] at hrules
    simp [Event.rules] at hrules

theorem filter_flagsOf_freeTexts (v : Validator) (m : Memory) (es : List Event) :
    (v.flagsOf m es).filter (·.rule = .reservedKeyword) =
      (es.flatMap Event.freeTexts).flatMap fun t => v.textFlags t.1 t.2 := by
  induction es generalizing m with
  | nil => rfl
  | cons e es ih =>
    rw [flagsOf, List.filter_append, filter_flags_freeTexts, ih, List.flatMap_cons,
      List.flatMap_append]

theorem filter_allFlags_freeTexts (v : Validator) (es : List Event) :
    (v.allFlags es).filter (·.rule = .reservedKeyword) =
      (es.flatMap Event.freeTexts).flatMap fun t => v.textFlags t.1 t.2 := by
  have hend : (v.settleFlags (es.foldl Memory.note {})).filter (·.rule = .reservedKeyword) = [] :=
    v.filter_flags_freeTexts _ .close
  rw [allFlags, List.filter_append, filter_flagsOf_freeTexts, hend, List.append_nil]

def keywordFindings (v : Validator) (es : List Event) : List Finding :=
  (es.flatMap Event.freeTexts).flatMap fun t =>
    (v.dictionary.reservedIn t.2).map fun k => (Flag.reservedKeyword t.1 k.spelling).finding

theorem filter_report_freeTexts (h : Dictionary.ofSource s = .ok v.dictionary) (es : List Event) :
    (v.report es).filter (·.isOf .reservedKeyword) =
      { warnings :=
          if v.disabled.contains .reservedKeyword then [] else v.keywordFindings es } := by
  have hwarning : Rule.reservedKeyword.severity ≠ .error := by decide
  have hrule : ∀ f ∈ (v.allFlags es).filter (·.rule = .reservedKeyword),
      f.rule = .reservedKeyword := fun f hf => of_decide_eq_true (List.mem_filter.mp hf).2
  have hfindings := v.findings_unless_disabled rfl hrule
  have htold : ((v.allFlags es).filter (·.rule = .reservedKeyword)).map Flag.finding =
      v.keywordFindings es := by
    rw [filter_allFlags_freeTexts, List.map_flatMap, keywordFindings]
    refine List.flatMap_congr fun t _ => ?_
    rw [textFlags_eq h, List.map_map]
    rfl
  rw [report_eq, addTo_eq, Report.filter, List.nil_append, List.nil_append,
    v.filter_errorsOf_eq_nil _ hwarning, v.filter_warningsOf _ hwarning, hfindings, htold]

/-- Reserved words with repetitions in other case and spacing, and a blank entry. -/
abbrev queryWords : Dictionary.Source where
  core := some {
    reserved := ["select", " ORDER \t BY", " ", "SELECT", "Drop", "order by"]
    verbPermissions := .ofList [] }
  domains := .ofList []
  domain := none

theorem keywordsOf_queryWords : Dictionary.keywordsOf queryWords.reserved =
    [⟨["Drop".toList], by decide⟩, ⟨["ORDER".toList, "BY".toList], by decide⟩,
      ⟨["select".toList], by decide⟩] := by
  refine Dictionary.eq_of_perm_of_ordered ?_ (Dictionary.pairwise_keywordsOf _) (by decide +kernel)
  exact (List.mergeSort_perm _ _).trans (by decide +kernel)

end Validator
end ProcessLint
