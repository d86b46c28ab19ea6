import Mathlib.Data.List.Forall2
import ProcessLint.Keyword
import ProcessLint.Proofs.Folding
import ProcessLint.Proofs.WordRuns

/-! Reserved keywords stand in a text as whole words, in any case and across any blanks. -/
namespace ProcessLint

open Text (isBlank isWord isNameChar sameFold touchesWord isBoundary)

/-! ### The words of an entry -/

namespace Text

/-- A word of an entry: some characters, and no blank among them. -/
structure IsUnbroken (w : List Char) : Prop where
  nonempty : w ≠ []
  solid : ∀ c ∈ w, isBlank c = false

/-- A text made of words, with blanks around them and at least one between two of them. -/
inductive IsLayout : List (List Char) → List Char → Prop
  | nil : IsLayout [] []
  | blank {c ws t} (hc : isBlank c = true) (h : IsLayout ws t) : IsLayout ws (c :: t)
  | word {w ws t} (hw : IsUnbroken w) (hend : ∀ c ∈ t.head?, isBlank c = true)
      (h : IsLayout ws t) : IsLayout (w :: ws) (w ++ t)

variable {c : Char} {w t : List Char} {ws : List (List Char)}

theorem words_cons_blank (hc : isBlank c = true) (t : List Char) : words (c :: t) = words t := by
  simp [words, pieces, hc]

theorem words_append (hw : IsUnbroken w) (hend : ∀ c ∈ t.head?, isBlank c = true) :
    words (w ++ t) = w :: words t := by
  cases t with
  | nil =>
    rw [List.append_nil, words, pieces_of_solid hw.solid]
    simp [hw.nonempty, words, pieces]
  | cons c r =>
    have hc := hend c rfl
    rw [words_cons_blank hc, words, pieces_append_cons isBlank hw.solid hc]
    simp [hw.nonempty, words]

theorem words_of_isLayout (h : IsLayout ws t) : words t = ws := by
  induction h with
  | nil => rfl
  | blank hc _ ih => rw [words_cons_blank hc, ih]
  | word hw hend _ ih => rw [words_append hw hend, ih]

theorem isLayout_words (t : List Char) : IsLayout (words t) t := by
  induction hn : t.length using Nat.strong_induction_on generalizing t with
  | _ n ih =>
  cases t with
  | nil => exact .nil
  | cons c r =>
    by_cases hc : isBlank c = true
    · rw [words_cons_blank hc]
      exact .blank hc (ih r.length (by simp [← hn]) r rfl)
    · -- the word that starts here, and what is behind it
      let solid := fun d => !isBlank d
      let word := (c :: r).takeWhile solid
      let rest := (c :: r).dropWhile solid
      have hparts : word ++ rest = c :: r := List.takeWhile_append_dropWhile
      have hword : IsUnbroken word := by
        refine ⟨by simp [word, solid, hc], fun d hd => ?_⟩
        simpa [solid] using List.mem_takeWhile_imp hd
      have hend : ∀ d ∈ rest.head?, isBlank d = true := by
        intro d hd
        have hstop := any_head?_dropWhile solid (c :: r)
        simpa [rest, solid, Option.mem_def.mp hd] using hstop
      have hshorter : rest.length < n := by
        have hlength := congrArg List.length hparts
        have hpos := List.length_pos_of_ne_nil hword.nonempty
        rw [List.length_append] at hlength
        omega
      rw [← hparts, words_append hword hend]
      exact .word hword hend (ih rest.length hshorter rest rfl)

/-- A text has one layout. -/
theorem isLayout_iff : IsLayout ws t ↔ words t = ws :=
  ⟨words_of_isLayout, fun h => h ▸ isLayout_words t⟩

theorem isUnbroken_of_isLayout (h : IsLayout ws t) : ∀ w ∈ ws, IsUnbroken w := by
  induction h with
  | nil => simp
  | blank _ _ ih => exact ih
  | word hw _ _ ih => simpa using ⟨hw, ih⟩

end Text

namespace Keyword

/-! ### Words in a text -/

abbrev IsCased (w u : List Char) : Prop := List.Forall₂ (fun a b => sameFold a b = true) w u

/-- A text that is one or more words, case aside, with blanks between them. -/
inductive IsSpelled : List (List Char) → List Char → Prop
  | word {w u} (hu : IsCased w u) : IsSpelled [w] u
  | more {w u gap ws t} (hu : IsCased w u) (hgap : gap ≠ [])
      (hblank : ∀ c ∈ gap, isBlank c = true) (h : IsSpelled ws t) :
      IsSpelled (w :: ws) (u ++ gap ++ t)

def firstOf (ws : List (List Char)) : Option Char := ws.head?.bind (·.head?)

def lastOf (ws : List (List Char)) : Option Char := ws.getLast?.bind (·.getLast?)

/-- The words stand in a text, and where they begin or end with a letter, a digit or an underscore
no word character is next to them. -/
def OccursWhole (ws : List (List Char)) (text : List Char) : Prop :=
  ∃ ahead mid behind, text = ahead ++ mid ++ behind ∧ IsSpelled ws mid ∧
    ((firstOf ws).any isNameChar = true → touchesWord ahead.getLast? = false) ∧
    ((lastOf ws).any isNameChar = true → touchesWord behind.head? = false)

variable {w u t rest mid behind : List Char} {ws : List (List Char)}

theorem dropWord_eq_some_iff :
    dropWord w t = some rest ↔ ∃ u, t = u ++ rest ∧ IsCased w u := by
  induction w generalizing t with
  | nil => simp [dropWord, eq_comm]
  | cons a w ih =>
    cases t with
    | nil => simp [dropWord, List.forall₂_cons_left_iff]
    | cons c t =>
      simp only [dropWord, List.forall₂_cons_left_iff]
      constructor
      · intro h
        split at h
        · rename_i hc
          obtain ⟨u, rfl, hu⟩ := ih.mp h
          exact ⟨c :: u, rfl, c, u, hc, hu, rfl⟩
        · cases h
      · rintro ⟨_, ht, d, u, hd, hu, rfl⟩
        obtain ⟨rfl, rfl⟩ : c = d ∧ t = u ++ rest := by simpa using ht
        rw [if_pos hd]
        exact ih.mpr ⟨u, rfl, hu⟩

theorem IsCased.head? (h : IsCased w u) (hne : w ≠ []) :
    ∃ a b, w.head? = some a ∧ u.head? = some b ∧ sameFold a b = true := by
  cases h with
  | nil => exact absurd rfl hne
  | cons hab _ => exact ⟨_, _, rfl, rfl, hab⟩

theorem IsCased.getLast? (h : IsCased w u) (hne : w ≠ []) :
    ∃ a b, w.getLast? = some a ∧ u.getLast? = some b ∧ sameFold a b = true := by
  rw [← List.head?_reverse, ← List.head?_reverse]
  exact IsCased.head? (List.forall₂_reverse_iff.mpr h) (by simpa using hne)

namespace IsSpelled

theorem ne_nil (h : IsSpelled ws t) : ws ≠ [] := by cases h <;> simp

theorem head? (h : IsSpelled ws t) (hws : ∀ w ∈ ws, Text.IsUnbroken w) :
    ∃ a b, firstOf ws = some a ∧ t.head? = some b ∧ sameFold a b = true := by
  cases h with
  | word hu =>
    obtain ⟨a, b, ha, hb, hab⟩ := hu.head? (hws _ (by simp)).nonempty
    exact ⟨a, b, by simp [firstOf, ha], hb, hab⟩
  | more hu _ _ _ =>
    obtain ⟨a, b, ha, hb, hab⟩ := hu.head? (hws _ (by simp)).nonempty
    exact ⟨a, b, by simp [firstOf, ha], by simp [hb], hab⟩

theorem getLast? (h : IsSpelled ws t) (hws : ∀ w ∈ ws, Text.IsUnbroken w) :
    ∃ a b, lastOf ws = some a ∧ t.getLast? = some b ∧ sameFold a b = true := by
  induction h with
  | word hu =>
    obtain ⟨a, b, ha, hb, hab⟩ := hu.getLast? (hws _ (by simp)).nonempty
    exact ⟨a, b, by simp [lastOf, ha], hb, hab⟩
  | more _ _ _ h ih =>
    obtain ⟨a, b, ha, hb, hab⟩ := ih fun w hw => hws w (by simp [hw])
    refine ⟨a, b, ?_, by simp [hb], hab⟩
    simpa [lastOf, List.getLast?_cons_of_ne_nil h.ne_nil] using ha

theorem not_isBlank_head? (h : IsSpelled ws t) (hws : ∀ w ∈ ws, Text.IsUnbroken w) :
    (t ++ rest).head?.any isBlank = false := by
  obtain ⟨a, b, ha, hb, hab⟩ := h.head? hws
  obtain ⟨w, hw, haw⟩ := Option.bind_eq_some_iff.mp ha
  have hsolid := (hws w (List.mem_of_head? hw)).solid a (List.mem_of_head? haw)
  simp [hb, Text.isBlank_eq_of_sameFold hab, hsolid]

end IsSpelled

theorem dropWords_cons_eq_some_iff (hne : ws ≠ []) :
    dropWords (w :: ws) t = some rest ↔
      ∃ u c r, t = u ++ c :: r ∧ IsCased w u ∧ isBlank c = true ∧
        dropWords ws (r.dropWhile isBlank) = some rest := by
  rw [dropWords]
  case x_2 => exact hne
  constructor
  · intro h
    split at h
    · rename_i c r hword
      obtain ⟨hc, h⟩ := Option.ite_none_right_eq_some.mp h
      obtain ⟨u, ht, hu⟩ := dropWord_eq_some_iff.mp hword
      exact ⟨u, c, r, ht, hu, hc, h⟩
    · cases h
  · rintro ⟨u, c, r, rfl, hu, hc, h⟩
    have hword : dropWord w (u ++ c :: r) = some (c :: r) := dropWord_eq_some_iff.mpr ⟨u, rfl, hu⟩
    simp only [hword, hc, if_true, h]

theorem dropWords_eq_some_iff (hne : ws ≠ []) (hws : ∀ w ∈ ws, Text.IsUnbroken w) :
    dropWords ws t = some rest ↔ ∃ mid, t = mid ++ rest ∧ IsSpelled ws mid := by
  induction ws generalizing t with
  | nil => exact absurd rfl hne
  | cons w ws ih =>
    by_cases hlast : ws = []
    · subst hlast
      simp only [dropWords, dropWord_eq_some_iff]
      constructor
      · rintro ⟨u, ht, hu⟩
        exact ⟨u, ht, .word hu⟩
      · rintro ⟨mid, ht, hmid⟩
        cases hmid with
        | word hu => exact ⟨mid, ht, hu⟩
        | more _ _ _ h => exact absurd rfl h.ne_nil
    · have hws' : ∀ w ∈ ws, Text.IsUnbroken w := fun w hw => hws w (by simp [hw])
      rw [dropWords_cons_eq_some_iff hlast]
      constructor
      · rintro ⟨u, c, r, rfl, hu, hc, h⟩
        obtain ⟨mid, hmid, hspelled⟩ := (ih hlast hws').mp h
        have hr : r = r.takeWhile isBlank ++ (mid ++ rest) := by
          rw [← hmid, List.takeWhile_append_dropWhile]
        have hgap : ∀ d ∈ c :: r.takeWhile isBlank, isBlank d = true := by
          simpa [hc] using fun d hd => List.mem_takeWhile_imp hd
        exact ⟨_, by simpa using hr, .more hu (by simp) hgap hspelled⟩
      · rintro ⟨mid, rfl, hmid⟩
        cases hmid with
        | word => exact absurd rfl hlast
        | @more _ u gap _ mid hu hgap hblank hspelled =>
          obtain ⟨c, gap, rfl⟩ := List.exists_cons_of_ne_nil hgap
          obtain ⟨hc, hblank⟩ := List.forall_mem_cons.mp hblank
          have hskip : (gap ++ (mid ++ rest)).dropWhile isBlank = mid ++ rest :=
            Text.dropWhile_append_stop hblank (hspelled.not_isBlank_head? hws')
          refine ⟨u, c, gap ++ (mid ++ rest), by simp, hu, hc, ?_⟩
          rw [hskip]
          exact (ih hlast hws').mpr ⟨mid, rfl, hspelled⟩

/-! ### Places of a keyword -/

variable {k : Keyword}

/-- A text with a keyword at its start, between boundaries where they are asked for. -/
theorem standsAt_iff (hws : ∀ w ∈ k.words, Text.IsUnbroken w) {before : Option Char} :
    k.standsAt before t = true ↔
      ∃ mid behind, t = mid ++ behind ∧ IsSpelled k.words mid ∧
        (k.leads = true → isBoundary before mid.head? = true) ∧
        (k.trails = true → isBoundary mid.getLast? behind.head? = true) := by
  have hparts : ∀ {mid behind : List Char}, IsSpelled k.words mid →
      ((mid ++ behind).take ((mid ++ behind).length - behind.length)).getLast? = mid.getLast? ∧
        (mid ++ behind).head? = mid.head? := by
    intro mid behind hmid
    obtain ⟨_, b, _, hb, _⟩ := hmid.head? hws
    simp [hb]
  have himp : ∀ {a b : Bool}, (!a || b) = true ↔ (a = true → b = true) := by decide
  constructor
  · intro h
    simp only [standsAt] at h
    split at h
    · rename_i behind hdrop
      obtain ⟨mid, rfl, hmid⟩ := (dropWords_eq_some_iff k.nonempty hws).mp hdrop
      rw [Bool.and_eq_true, himp, himp, (hparts hmid).1, (hparts hmid).2] at h
      exact ⟨mid, behind, rfl, hmid, h⟩
    · cases h
  · rintro ⟨mid, behind, rfl, hmid, h⟩
    have hdrop : dropWords k.words (mid ++ behind) = some behind :=
      (dropWords_eq_some_iff k.nonempty hws).mpr ⟨mid, rfl, hmid⟩
    simp only [standsAt, hdrop]
    rw [Bool.and_eq_true, himp, himp, (hparts hmid).1, (hparts hmid).2]
    exact h

theorem standsFrom_iff {before : Option Char} :
    k.standsFrom before t = true ↔
      ∃ ahead rest, t = ahead ++ rest ∧ k.standsAt (ahead.getLast?.or before) rest = true := by
  induction t generalizing before with
  | nil => simp [standsFrom]
  | cons c r ih =>
    simp only [standsFrom, Bool.or_eq_true, ih]
    constructor
    · rintro (h | ⟨ahead, rest, rfl, h⟩)
      · exact ⟨[], c :: r, rfl, h⟩
      · exact ⟨c :: ahead, rest, rfl, by rwa [Text.getLast?_cons_or]⟩
    · rintro ⟨ahead, rest, ht, h⟩
      cases ahead with
      | nil => exact .inl (by simpa [ht] using h)
      | cons d ahead =>
        obtain ⟨rfl, rfl⟩ : c = d ∧ r = ahead ++ rest := by simpa using ht
        exact .inr ⟨ahead, rest, rfl, by rwa [Text.getLast?_cons_or] at h⟩

/-- A keyword stands in a text where its words do, between boundaries where they are asked for. -/
theorem standsIn_iff (hws : ∀ w ∈ k.words, Text.IsUnbroken w) {text : String} :
    k.standsIn text = true ↔
      ∃ ahead mid behind, text.toList = ahead ++ mid ++ behind ∧ IsSpelled k.words mid ∧
        (k.leads = true → isBoundary ahead.getLast? mid.head? = true) ∧
        (k.trails = true → isBoundary mid.getLast? behind.head? = true) := by
  simp only [standsIn, standsFrom_iff, standsAt_iff hws, Option.or_none]
  constructor
  · rintro ⟨ahead, _, htext, mid, behind, rfl, h⟩
    exact ⟨ahead, mid, behind, by simpa using htext, h⟩
  · rintro ⟨ahead, mid, behind, htext, h⟩
    exact ⟨ahead, mid ++ behind, by simpa using htext, mid, behind, rfl, h⟩

/-! ### Edges in ASCII -/

/-- The code points of ASCII that are no letter, no digit and no underscore. -/
def signIntervals : List Text.Interval :=
  [(0x0, 0x2F), (0x3A, 0x40), (0x5B, 0x5E), (0x60, 0x60), (0x7B, 0x7F)]

theorem isWhole_some_of_ascii {c : Char} (h : c.toNat < 128) :
    isWhole (some c) = isNameChar c := by
  have hascii : ∀ n < 128, if isNameChar (Char.ofNat n) then isWhole (some (Char.ofNat n)) = true
      else Text.Interval.covers signIntervals (Char.ofNat n) = true ∧ Char.ofNat n ≠ '_' := by
    decide +kernel
  have hc := hascii c.toNat h
  rw [Char.ofNat_toNat] at hc
  cases hname : isNameChar c with
  | true => simpa [hname] using hc
  | false =>
    obtain ⟨hsign, hunderscore⟩ : _ ∧ _ := by simpa [hname] using hc
    have halphabetic : Text.isAlphabetic c = false :=
      Text.Interval.covers_eq_false_of_areApart (by decide +kernel) hsign
    have hdecimal : Text.isDecimal c = false :=
      Text.Interval.covers_eq_false_of_areApart (by decide +kernel) hsign
    have hother : Text.Interval.covers Text.otherNumberIntervals c = false :=
      Text.Interval.covers_eq_false_of_areApart (by decide +kernel) hsign
    simp [isWhole, Text.isAlphanumeric, Text.isNumber, halphabetic, hdecimal, hother, hunderscore]

/-- At an edge in ASCII a boundary is asked for beside a letter, a digit or an underscore, and the
copy of such a character is a word character in any case. -/
theorem edge_iff {a b : Char} (ha : a.toNat < 128) (hab : sameFold a b = true)
    (next : Option Char) :
    ((isWhole (some a) = true → isBoundary next (some b) = true) ↔
        (isNameChar a = true → touchesWord next = false)) ∧
      ((isWhole (some a) = true → isBoundary (some b) next = true) ↔
        (isNameChar a = true → touchesWord next = false)) := by
  rw [isWhole_some_of_ascii ha]
  cases hname : isNameChar a with
  | false => simp
  | true =>
    have hb : isWord b = true :=
      (Text.isWord_eq_of_sameFold hab).trans (Text.isWord_of_isNameChar hname)
    simp [isBoundary, hb]

theorem ofText?_eq_some_iff {entry : String} :
    ofText? entry = some k ↔ Text.words entry.toList = k.words := by
  refine ⟨fun h => (words_of_ofText? h).symm, fun h => ?_⟩
  obtain ⟨ws, hne⟩ := k
  subst h
  simp [ofText?, hne]

/-- An entry has one reading as words with blanks around them. The keyword of the entry is spelled
with one space between these, is the same for every entry of the same words, and stands in just
the texts in which the words stand, in any case, as whole words with blanks between them. -/
theorem standsIn_iff_of_isLayout (entry : String) :
    ∃ ws, (∀ vs, Text.IsLayout vs entry.toList ↔ vs = ws) ∧
      (ofText? entry = none ↔ ws = []) ∧
      ∀ k, ofText? entry = some k →
        k.spelling = .ofList ([' '].intercalate ws) ∧
        (∀ other : String, Text.IsLayout ws other.toList → ofText? other = some k) ∧
        ((∀ c ∈ firstOf ws, c.toNat < 128) → (∀ c ∈ lastOf ws, c.toNat < 128) →
          ∀ text : String, k.standsIn text = true ↔ OccursWhole ws text.toList) := by
  refine ⟨Text.words entry.toList, fun vs => Text.isLayout_iff.trans eq_comm, ?_, fun k hk => ?_⟩
  · simp [ofText?]
  · have hwords := ofText?_eq_some_iff.mp hk
    have hws := Text.isUnbroken_of_isLayout (Text.isLayout_words entry.toList)
    rw [hwords] at hws ⊢
    refine ⟨rfl, fun other hother => ?_, fun hfirst hlast text => ?_⟩
    · exact ofText?_eq_some_iff.mpr (Text.words_of_isLayout hother)
    · rw [standsIn_iff hws]
      refine exists_congr fun ahead => exists_congr fun mid => exists_congr fun behind =>
        and_congr_right fun _ => and_congr_right fun hmid => ?_
      obtain ⟨a, b, ha, hb, hab⟩ := hmid.head? hws
      obtain ⟨y, z, hy, hz, hyz⟩ := hmid.getLast? hws
      have hleads : k.leads = isWhole (some a) := congrArg isWhole ha
      have htrails : k.trails = isWhole (some y) := congrArg isWhole hy
      rw [hleads, htrails, ha, hy, hb, hz, Option.any_some, Option.any_some]
      exact and_congr (edge_iff (hfirst a ha) hab _).1 (edge_iff (hlast y hy) hyz _).2

/-- The words are found in small letters and across the end of a line. -/
theorem standsIn_orderBy : ∃ k, ofText? " ORDER \t BY" = some k ∧ k.spelling = "ORDER BY" ∧
    k.standsIn "then order\n  by date" = true := by
  obtain ⟨ws, hlayout, hnone, hkeyword⟩ := standsIn_iff_of_isLayout " ORDER \t BY"
  have hws : ws = ["ORDER".toList, "BY".toList] := by
    refine ((hlayout _).mp (Text.isLayout_iff.mpr ?_)).symm
    decide
  subst hws
  obtain ⟨k, hk⟩ := Option.ne_none_iff_exists'.mp (mt hnone.mp (List.cons_ne_nil _ _))
  obtain ⟨hspelling, -, hiff⟩ := hkeyword k hk
  have hfirst : ∀ c ∈ firstOf ["ORDER".toList, "BY".toList], c.toNat < 128 := by
    rintro _ ⟨⟩
    decide
  have hlast : ∀ c ∈ lastOf ["ORDER".toList, "BY".toList], c.toNat < 128 := by
    rintro _ ⟨⟩
    decide
  have horder : IsCased "ORDER".toList "order".toList := by decide
  have hby : IsCased "BY".toList "by".toList := by decide
  have hgap : ∀ c ∈ "\n  ".toList, isBlank c = true := List.all_eq_true.mp (by decide)
  have hapart : touchesWord (some ' ') = false := by
    rw [Text.touchesWord_some, Text.isWord_of_isBlank (by decide)]
  exact ⟨k, hk, hspelling, (hiff hfirst hlast _).mpr ⟨"then ".toList,
    "order".toList ++ "\n  ".toList ++ "by".toList, " date".toList, by decide,
    .more horder (by decide) hgap (.word hby), fun _ => hapart, fun _ => hapart⟩⟩

end Keyword
end ProcessLint
