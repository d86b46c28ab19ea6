import Mathlib.Data.List.TakeWhile
import ProcessLint.Text.Word

/-! The maximal runs of word characters in a text, from left to right. -/
namespace ProcessLint
namespace Text

/-- A run of word characters, and the text behind it. -/
structure WordRun where
  word : List Char
  behind : List Char
  deriving DecidableEq

namespace WordRun

/-- The run is a part of the text, not empty, with no word character next to it on either side. -/
def IsMaximalIn (run : WordRun) (text : List Char) : Prop :=
  ∃ ahead, text = ahead ++ run.word ++ run.behind ∧
    run.word ≠ [] ∧ (∀ c ∈ run.word, isWord c = true) ∧
    touchesWord ahead.getLast? = false ∧ touchesWord run.behind.head? = false

/-- The runs are all the maximal ones of the text, from left to right. -/
structure AreAllOf (runs : List WordRun) (text : List Char) : Prop where
  mem_iff : ∀ run, run ∈ runs ↔ run.IsMaximalIn text
  ordered : runs.Pairwise fun r q => q.behind.length < r.behind.length

end WordRun

/-- The maximal runs of a text, unless the first characters continue a word that the character in
front of the text belongs to. -/
def wordRuns : Option Char → List Char → List WordRun
  | _, [] => []
  | before, c :: r =>
    if isWord c && !touchesWord before then
      ⟨(c :: r).takeWhile isWord, (c :: r).dropWhile isWord⟩ :: wordRuns (some c) r
    else wordRuns (some c) r

/-! ### Where runs end -/

section

variable {p : Char → Bool} {run rest : List Char}

theorem any_head?_dropWhile (p : Char → Bool) (cs : List Char) :
    (cs.dropWhile p).head?.any p = false := by
  have h := List.head?_dropWhile_not p cs
  cases hd : (cs.dropWhile p).head? with
  | none => rfl
  | some c => simpa [hd] using h

theorem takeWhile_append_stop (hrun : ∀ c ∈ run, p c = true) (hrest : rest.head?.any p = false) :
    (run ++ rest).takeWhile p = run := by
  rw [List.takeWhile_append_of_pos hrun]
  cases rest with
  | nil => simp
  | cons c r => simp [show p c = false from hrest]

theorem dropWhile_append_stop (hrun : ∀ c ∈ run, p c = true) (hrest : rest.head?.any p = false) :
    (run ++ rest).dropWhile p = rest := by
  rw [List.dropWhile_append_of_pos hrun]
  cases rest with
  | nil => simp
  | cons c r => simp [show p c = false from hrest]

end

theorem touchesWord_head?_dropWhile (cs : List Char) :
    touchesWord (cs.dropWhile isWord).head? = false := any_head?_dropWhile isWord cs

/-! ### Runs of a text by its parts -/

theorem wordRuns_congr {b b' : Option Char} (h : touchesWord b = touchesWord b') (cs : List Char) :
    wordRuns b cs = wordRuns b' cs := by
  cases cs with
  | nil => rfl
  | cons c r => simp only [wordRuns, h]

theorem wordRuns_of_apart {cs : List Char} (h : touchesWord cs.head? = false)
    (b b' : Option Char) : wordRuns b cs = wordRuns b' cs := by
  cases cs with
  | nil => rfl
  | cons c r => simp [wordRuns, show isWord c = false from h]

theorem wordRuns_of_not_isWord {xs : List Char} (h : ∀ c ∈ xs, isWord c = false)
    (rest : List Char) : wordRuns none (xs ++ rest) = wordRuns none rest := by
  induction xs with
  | nil => rfl
  | cons c xs ih =>
    obtain ⟨hc, hxs⟩ := List.forall_mem_cons.mp h
    have hnone : touchesWord (some c) = touchesWord none := hc
    simp only [List.cons_append, wordRuns, hc, Bool.false_and, Bool.false_eq_true, if_false]
    rw [wordRuns_congr hnone, ih hxs]

section

variable {w rest : List Char} {before : Option Char}

theorem wordRuns_inside (hw : ∀ c ∈ w, isWord c = true) (hrest : touchesWord rest.head? = false)
    (hbefore : touchesWord before = true) : wordRuns before (w ++ rest) = wordRuns none rest := by
  induction w generalizing before with
  | nil => exact wordRuns_of_apart hrest _ _
  | cons c w ih =>
    obtain ⟨hc, hw⟩ := List.forall_mem_cons.mp hw
    simp only [List.cons_append, wordRuns, hbefore, Bool.not_true, Bool.and_false,
      Bool.false_eq_true, if_false]
    exact ih hw hc

theorem wordRuns_word (hw : ∀ c ∈ w, isWord c = true) (hne : w ≠ [])
    (hrest : touchesWord rest.head? = false) (hbefore : touchesWord before = false) :
    wordRuns before (w ++ rest) = ⟨w, rest⟩ :: wordRuns none rest := by
  have htake := takeWhile_append_stop hw hrest
  have hdrop := dropWhile_append_stop hw hrest
  obtain ⟨c, w, rfl⟩ := List.exists_cons_of_ne_nil hne
  obtain ⟨hc, hw⟩ := List.forall_mem_cons.mp hw
  have hinside : wordRuns (some c) (w ++ rest) = wordRuns none rest := wordRuns_inside hw hrest hc
  rw [List.cons_append] at htake hdrop
  simp only [List.cons_append, wordRuns, hc, hbefore, Bool.not_false, Bool.and_true, if_true,
    htake, hdrop, hinside]

end

/-! ### All maximal runs -/

theorem getLast?_cons_or (c : Char) (l : List Char) (b : Option Char) :
    (c :: l).getLast?.or b = l.getLast?.or (some c) := by
  rw [List.getLast?_cons]
  cases l.getLast? <;> rfl

theorem mem_wordRuns_iff {run : WordRun} {before : Option Char} {text : List Char} :
    run ∈ wordRuns before text ↔ ∃ ahead, text = ahead ++ run.word ++ run.behind ∧
      run.word ≠ [] ∧ (∀ c ∈ run.word, isWord c = true) ∧
      touchesWord (ahead.getLast?.or before) = false ∧
      touchesWord run.behind.head? = false := by
  induction text generalizing before with
  | nil => simp +contextual [wordRuns]
  | cons c r ih =>
    constructor
    · intro h
      have hcases : (isWord c = true ∧ touchesWord before = false ∧
          run = ⟨(c :: r).takeWhile isWord, (c :: r).dropWhile isWord⟩) ∨
          run ∈ wordRuns (some c) r := by
        simp only [wordRuns] at h
        split at h
        · rename_i hstart
          simp only [Bool.and_eq_true, Bool.not_eq_true'] at hstart
          rcases List.mem_cons.mp h with h | h
          · exact Or.inl ⟨hstart.1, hstart.2, h⟩
          · exact Or.inr h
        · exact Or.inr h
      rcases hcases with ⟨hc, hbefore, rfl⟩ | hrun
      · refine ⟨[], by simp, ?_, fun d hd => List.mem_takeWhile_imp hd, by simpa using hbefore,
          touchesWord_head?_dropWhile _⟩
        simp [hc]
      · obtain ⟨ahead, rfl, hne, hw, hahead, hbehind⟩ := ih.mp hrun
        exact ⟨c :: ahead, by simp, hne, hw, by rwa [getLast?_cons_or], hbehind⟩
    · rintro ⟨ahead, htext, hne, hw, hahead, hbehind⟩
      cases ahead with
      | nil =>
        have hbefore : touchesWord before = false := hahead
        rw [htext, List.nil_append, wordRuns_word hw hne hbehind hbefore]
        exact List.mem_cons_self
      | cons d ahead =>
        simp only [List.cons_append, List.cons.injEq] at htext
        obtain ⟨rfl, rfl⟩ := htext
        rw [getLast?_cons_or] at hahead
        have hrun := ih.mpr ⟨ahead, rfl, hne, hw, hahead, hbehind⟩
        simp only [wordRuns]
        split
        · exact List.mem_cons_of_mem _ hrun
        · exact hrun

theorem behind_lt_of_mem_wordRuns {run : WordRun} {before : Option Char} {text : List Char}
    (h : run ∈ wordRuns before text) : run.behind.length < text.length := by
  obtain ⟨ahead, rfl, hne, -⟩ := mem_wordRuns_iff.mp h
  have hpos := List.length_pos_iff.mpr hne
  simp only [List.length_append]
  omega

theorem pairwise_wordRuns (before : Option Char) (text : List Char) :
    (wordRuns before text).Pairwise fun r q => q.behind.length < r.behind.length := by
  induction text generalizing before with
  | nil => exact List.Pairwise.nil
  | cons c r ih =>
    simp only [wordRuns]
    split
    · rename_i hstart
      simp only [Bool.and_eq_true] at hstart
      refine List.pairwise_cons.mpr ⟨fun q hq => ?_, ih _⟩
      have hword : ∀ d ∈ r.takeWhile isWord, isWord d = true := fun d => List.mem_takeWhile_imp
      have hbefore : touchesWord (some c) = true := hstart.1
      have hinside := wordRuns_inside hword (touchesWord_head?_dropWhile r) hbefore
      rw [List.takeWhile_append_dropWhile] at hinside
      rw [hinside] at hq
      rw [List.dropWhile_cons_of_pos hstart.1]
      exact behind_lt_of_mem_wordRuns hq
    · exact ih _

theorem areAllOf_wordRuns (text : List Char) : WordRun.AreAllOf (wordRuns none text) text where
  mem_iff run := by simp only [mem_wordRuns_iff, Option.or_none, WordRun.IsMaximalIn]
  ordered := pairwise_wordRuns none text

end Text
end ProcessLint
