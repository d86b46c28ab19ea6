import ProcessLint.Proofs.WordRuns
import ProcessLint.Validation.DataToken

/-! The data objects of an action line, word by word. The scan, which skips what a match has taken
and may take blanks and a tag with a name, finds what a look at each word on its own finds. -/
namespace ProcessLint

open Text (WordRun wordRuns isWord isBlank isNameChar touchesWord)

namespace DataToken

/-- What names of data objects may start with: some name characters with which no tag starts, a
whole tag aside. -/
structure IsMark (mark : String) : Prop where
  nonempty : mark ≠ ""
  names : ∀ c ∈ mark.toList, isNameChar c = true
  apart : ∀ tag ∈ ["Input", "Output"], mark.toList <+: tag.toList → mark = tag

theorem IsMark.exists_cons {mark : String} (hmark : IsMark mark) :
    ∃ c r, mark.toList = c :: r ∧ isWord c = true := by
  obtain ⟨c, r, hcr⟩ := List.exists_cons_of_ne_nil (mt String.toList_eq_nil_iff.mp hmark.nonempty)
  exact ⟨c, r, hcr, Text.isWord_of_isNameChar (hmark.names c (by simp [hcr]))⟩

theorem IsMark.touchesWord_head? {mark : String} (hmark : IsMark mark) :
    touchesWord mark.toList.head? = true := by
  obtain ⟨c, r, hcr, hc⟩ := hmark.exists_cons
  rw [hcr]
  exact hc

/-! ### Words and the words behind them -/

/-- The tag behind a word: blanks, at least one, and then the tag as a word of its own. -/
def tagBehind? (behind : List Char) : Option Access :=
  let word := (Text.trimStart behind).takeWhile isWord
  if !behind.head?.any isBlank then none
  else if word = "Input".toList then some .write
  else if word = "Output".toList then some .read
  else none

/-- The data object that a word names: the mark and at least one more character, all of these name
characters. -/
def ofRun? (mark : List Char) (run : WordRun) : Option DataToken :=
  let name := run.word.drop mark.length
  if mark.isPrefixOf run.word && !name.isEmpty && name.all isNameChar then
    some ⟨.ofList run.word, tagBehind? run.behind⟩
  else none

/-! ### Tags -/

def tagWord : Access → List Char
  | .write => "Input".toList
  | .read => "Output".toList

theorem length_tagWord (a : Access) : (tagWord a).length = tagLength a := by cases a <;> rfl

theorem isWord_of_mem_tagWord (a : Access) : ∀ c ∈ tagWord a, isWord c = true := by
  have hnames : (tagWord a).all isNameChar = true := by cases a <;> decide
  exact fun c hc => Text.isWord_of_isNameChar (List.all_eq_true.mp hnames c hc)

/-- A text starts with a word that ends there when this is all of its first word. -/
theorem starts_and_ends_iff {word cs : List Char} (hword : ∀ c ∈ word, isWord c = true) :
    (word.isPrefixOf cs && !touchesWord cs[word.length]?) = true ↔ cs.takeWhile isWord = word := by
  have hnext (rest : List Char) : (word ++ rest)[word.length]? = rest.head? := by
    rw [List.getElem?_append_right (Nat.le_refl _), Nat.sub_self, List.head?_eq_getElem?]
  rw [Bool.and_eq_true, List.isPrefixOf_iff_prefix, Bool.not_eq_true']
  constructor
  · rintro ⟨⟨rest, rfl⟩, hends⟩
    rw [hnext] at hends
    exact Text.takeWhile_append_stop hword hends
  · intro h
    have hends := Text.touchesWord_head?_dropWhile cs
    have hcs : word ++ cs.dropWhile isWord = cs := by
      rw [← h, List.takeWhile_append_dropWhile]
    rw [← hnext, hcs] at hends
    exact ⟨⟨_, hcs⟩, hends⟩

theorem tagHere?_eq (cs : List Char) :
    tagHere? cs = if cs.takeWhile isWord = "Input".toList then some .write
      else if cs.takeWhile isWord = "Output".toList then some .read else none := by
  have hinput : ("Input".toList.isPrefixOf cs && !touchesWord cs[5]?) = true ↔
      cs.takeWhile isWord = "Input".toList := starts_and_ends_iff (isWord_of_mem_tagWord .write)
  have houtput : ("Output".toList.isPrefixOf cs && !touchesWord cs[6]?) = true ↔
      cs.takeWhile isWord = "Output".toList := starts_and_ends_iff (isWord_of_mem_tagWord .read)
  simp only [tagHere?, hinput, houtput]

theorem takeWhile_of_tagHere? {cs : List Char} {a : Access} (h : tagHere? cs = some a) :
    cs.takeWhile isWord = tagWord a := by
  rw [tagHere?_eq] at h
  split at h
  · obtain rfl := Option.some.inj h
    assumption
  · split at h
    · obtain rfl := Option.some.inj h
      assumption
    · cases h

theorem eq_tagWord_append {cs : List Char} {a : Access} (h : tagHere? cs = some a) :
    cs = tagWord a ++ cs.dropWhile isWord := by
  rw [← takeWhile_of_tagHere? h, List.takeWhile_append_dropWhile]

theorem tagBehind?_append {gap rest : List Char} (hgap : ∀ c ∈ gap, isBlank c = true)
    (hrest : rest.head?.any isBlank = false) :
    tagBehind? (gap ++ rest) = if gap = [] then none else tagHere? rest := by
  have hdrop := Text.dropWhile_append_stop hgap hrest
  rw [tagBehind?, Text.trimStart, hdrop, tagHere?_eq]
  cases gap with
  | nil => simp only [List.nil_append, hrest, Bool.not_false, if_true]
  | cons c gap =>
    have hc := hgap c List.mem_cons_self
    simp only [List.cons_append, List.head?_cons, Option.any_some, hc, Bool.not_true,
      Bool.false_eq_true, if_false, reduceCtorEq]

/-! ### Matches -/

/-- The tag behind a name, if there is one, and how many characters a match takes behind the name;
none if the name goes on. -/
def tagAfter? (behind : List Char) : Option (Option Access × Nat) :=
  let gap := (behind.takeWhile isBlank).length
  if gap = 0 then
    if touchesWord behind.head? then none else some (none, 0)
  else
    match tagHere? (behind.drop gap) with
    | some a => some (some a, gap + tagLength a)
    | none => if touchesWord (behind.drop gap).head? then some (none, gap) else some (none, 0)

theorem here?_eq (mark : List Char) (before : Option Char) (cs : List Char) :
    here? mark before cs =
      if mark.isPrefixOf cs && Text.isBoundary before cs.head? then
        let run := (cs.drop mark.length).takeWhile isNameChar
        let length := mark.length + run.length
        if run.isEmpty then none
        else (tagAfter? (cs.drop length)).map fun x =>
          (⟨String.ofList (cs.take length), x.1⟩, length + x.2)
      else none := by
  by_cases hstart : mark.isPrefixOf cs && Text.isBoundary before cs.head?
  · simp only [here?, hstart, if_true]
    generalize (cs.drop mark.length).takeWhile isNameChar = run
    generalize cs.drop (mark.length + run.length) = behind
    by_cases hrun : run.isEmpty
    · simp only [hrun, if_true]
    · simp only [hrun, tagAfter?]
      generalize (behind.takeWhile isBlank).length = gap
      by_cases hgap : gap = 0
      · by_cases hends : touchesWord behind.head? <;> simp [hgap, hends]
      · cases htag : tagHere? (behind.drop gap) with
        | none =>
          generalize touchesWord (behind.drop gap).head? = next
          cases next <;> simp [hgap]
        | some a => simp [hgap, Nat.add_assoc]
  · rw [if_neg hstart, here?, if_neg hstart]

/-! ### What a match takes -/

def ofRuns (mark : List Char) (before : Option Char) (cs : List Char) : List DataToken :=
  (wordRuns before cs).filterMap (ofRun? mark)

/-- Of what a match has taken behind a name, nothing names a data object, and nothing of it
matters for what comes behind. -/
def Passes (mark : List Char) (passed left : List Char) : Prop :=
  ∀ before, ofRuns mark (passed.getLast?.or before) left = ofRuns mark none (passed ++ left)

section

variable {mark : String} {left : List Char}

theorem passes_nil (h : touchesWord left.head? = false) : Passes mark.toList [] left := by
  intro before
  simp only [ofRuns, List.nil_append]
  rw [Text.wordRuns_of_apart h]

theorem passes_blanks {gap : List Char} (hgap : ∀ c ∈ gap, isBlank c = true) (hne : gap ≠ []) :
    Passes mark.toList gap left := by
  intro before
  have hword : ∀ c ∈ gap, isWord c = false := fun c hc => Text.isWord_of_isBlank (hgap c hc)
  have hlast : touchesWord (gap.getLast?.or before) = touchesWord none := by
    rw [List.getLast?_eq_some_getLast hne, Option.some_or]
    exact hword _ (List.getLast_mem hne)
  simp only [ofRuns]
  rw [Text.wordRuns_of_not_isWord hword, Text.wordRuns_congr hlast]

theorem ofRun?_tagWord (hmark : IsMark mark) (a : Access) (behind : List Char) :
    ofRun? mark.toList ⟨tagWord a, behind⟩ = none := by
  have hnot : ∀ tag ∈ ["Input", "Output"], ofRun? mark.toList ⟨tag.toList, behind⟩ = none := by
    intro tag htag
    by_cases hstarts : mark.toList <+: tag.toList
    · obtain rfl := hmark.apart tag htag hstarts
      simp [ofRun?]
    · simp [ofRun?, List.isPrefixOf_iff_prefix, hstarts]
  cases a with
  | write => exact hnot "Input" (by simp)
  | read => exact hnot "Output" (by simp)

theorem passes_tag (hmark : IsMark mark) {gap : List Char} (hgap : ∀ c ∈ gap, isBlank c = true)
    (a : Access) (h : touchesWord left.head? = false) :
    Passes mark.toList (gap ++ tagWord a) left := by
  intro before
  have hword : ∀ c ∈ gap, isWord c = false := fun c hc => Text.isWord_of_isBlank (hgap c hc)
  have hne : tagWord a ≠ [] := by cases a <;> decide
  have hruns := Text.wordRuns_word (isWord_of_mem_tagWord a) hne h Text.touchesWord_none
  simp only [ofRuns, List.append_assoc]
  rw [Text.wordRuns_of_not_isWord hword, hruns,
    List.filterMap_cons_none (ofRun?_tagWord hmark a left), Text.wordRuns_of_apart h]

/-- Where a word ends, a match takes nothing behind it, or the blanks, or these and a tag. -/
theorem exists_tagAfter? (hmark : IsMark mark) {behind : List Char}
    (h : touchesWord behind.head? = false) :
    ∃ passed left, behind = passed ++ left ∧
      tagAfter? behind = some (tagBehind? behind, passed.length) ∧
      Passes mark.toList passed left := by
  obtain ⟨gap, rest, rfl, hgap, hrest⟩ : ∃ gap rest, behind = gap ++ rest ∧
      (∀ c ∈ gap, isBlank c = true) ∧ rest.head?.any isBlank = false :=
    ⟨_, _, List.takeWhile_append_dropWhile.symm, fun c => List.mem_takeWhile_imp,
      Text.any_head?_dropWhile isBlank behind⟩
  have htake := Text.takeWhile_append_stop hgap hrest
  simp only [tagAfter?, htake, List.drop_left, tagBehind?_append hgap hrest, List.length_eq_zero_iff]
  by_cases hnil : gap = []
  · subst hnil
    exact ⟨[], rest, rfl, by simpa using h, passes_nil h⟩
  · simp only [hnil, if_false]
    cases htag : tagHere? rest with
    | some a =>
      have hends := Text.touchesWord_head?_dropWhile rest
      refine ⟨gap ++ tagWord a, rest.dropWhile isWord, ?_, ?_, passes_tag hmark hgap a hends⟩
      · rw [List.append_assoc, ← eq_tagWord_append htag]
      · simp [length_tagWord]
    | none =>
      by_cases hnext : touchesWord rest.head? = true
      · exact ⟨gap, rest, rfl, by simp only [hnext, if_true], passes_blanks hgap hnil⟩
      · exact ⟨[], gap ++ rest, rfl, by simp [hnext], passes_nil h⟩

theorem tagAfter?_eq_none {c : Char} (hc : isWord c = true) (r : List Char) :
    tagAfter? (c :: r) = none := by
  simp [tagAfter?, Text.isBlank_of_isWord hc, hc]

/-- A name that goes on with another word character is not over there, and neither is a match. -/
theorem tagAfter?_inside {name : List Char} (hword : ∀ c ∈ name, isWord c = true)
    (hother : ¬ ∀ c ∈ name, isNameChar c = true) (rest : List Char) :
    tagAfter? ((name ++ rest).dropWhile isNameChar) = none := by
  have hsplit : name.takeWhile isNameChar ++ name.dropWhile isNameChar = name :=
    List.takeWhile_append_dropWhile
  have hne : name.dropWhile isNameChar ≠ [] := fun h => hother (List.dropWhile_eq_nil_iff.mp h)
  obtain ⟨c, r, hcr⟩ := List.exists_cons_of_ne_nil hne
  have hstop : isNameChar c = false := by
    have h := Text.any_head?_dropWhile isNameChar name
    rwa [hcr] at h
  have hdrop : (name ++ rest).dropWhile isNameChar = c :: (r ++ rest) := by
    rw [← hsplit, hcr, List.append_assoc, List.cons_append]
    exact Text.dropWhile_append_stop (fun d => List.mem_takeWhile_imp) hstop
  rw [hdrop, tagAfter?_eq_none (hword c (by rw [← hsplit, hcr]; simp))]

/-! ### One word -/

theorem here?_mark {mark : List Char} (hmark : touchesWord mark.head? = true) {before : Option Char}
    (hbefore : touchesWord before = false) (cs : List Char) :
    here? mark before (mark ++ cs) =
      if (cs.takeWhile isNameChar).isEmpty then none
      else (tagAfter? (cs.dropWhile isNameChar)).map fun x =>
        (⟨String.ofList (mark ++ cs.takeWhile isNameChar), x.1⟩,
          mark.length + (cs.takeWhile isNameChar).length + x.2) := by
  have hstarts : mark.isPrefixOf (mark ++ cs) = true := by simp [List.isPrefixOf_iff_prefix]
  have hboundary : Text.isBoundary before (mark ++ cs).head? = true := by
    cases mark with
    | nil => cases hmark
    | cons c r => simpa [Text.isBoundary, hbefore] using hmark
  have htake : cs.take (cs.takeWhile isNameChar).length = cs.takeWhile isNameChar :=
    (List.prefix_iff_eq_take.mp (List.takeWhile_prefix _)).symm
  have hdrop : cs.drop (cs.takeWhile isNameChar).length = cs.dropWhile isNameChar := by
    have hparts := List.take_append_drop (cs.takeWhile isNameChar).length cs
    rw [htake] at hparts
    exact List.append_cancel_left (hparts.trans List.takeWhile_append_dropWhile.symm)
  rw [here?_eq, hstarts, hboundary]
  simp only [Bool.and_self, if_true, List.drop_left, List.drop_length_add_append,
    List.take_length_add_append, htake, hdrop]

theorem tag_of_ofRun? {mark : List Char} {run : WordRun} {t : DataToken}
    (h : ofRun? mark run = some t) : t.tag = tagBehind? run.behind := by
  simp only [ofRun?, Option.ite_none_right_eq_some, Option.some.injEq] at h
  rw [← h.2]

theorem ofRun?_mark (mark name behind : List Char) :
    ofRun? mark ⟨mark ++ name, behind⟩ =
      if !name.isEmpty && name.all isNameChar then
        some ⟨.ofList (mark ++ name), tagBehind? behind⟩
      else none := by
  have hstarts : mark.isPrefixOf (mark ++ name) = true := by simp [List.isPrefixOf_iff_prefix]
  simp only [ofRun?, hstarts, List.drop_left, Bool.true_and]

theorem prefix_word (hmark : IsMark mark) {w rest : List Char} (hw : ∀ c ∈ w, isWord c = true)
    (hends : touchesWord rest.head? = false) (h : mark.toList <+: w ++ rest) :
    mark.toList <+: w := by
  obtain ⟨r, hr⟩ := h
  have hword : ∀ c ∈ mark.toList, isWord c = true := fun c hc =>
    Text.isWord_of_isNameChar (hmark.names c hc)
  rw [← Text.takeWhile_append_stop hw hends, ← hr, List.takeWhile_append_of_pos hword]
  exact List.prefix_append _ _

theorem here?_word (hmark : IsMark mark) {before : Option Char}
    (hbefore : touchesWord before = false) {w rest : List Char}
    (hw : ∀ c ∈ w, isWord c = true) (hends : touchesWord rest.head? = false) :
    here? mark.toList before (w ++ rest) =
      (ofRun? mark.toList ⟨w, rest⟩).bind fun t =>
        (tagAfter? rest).map fun x => (⟨t.name, x.1⟩, w.length + x.2) := by
  by_cases hstarts : mark.toList <+: w
  · obtain ⟨name, rfl⟩ := hstarts
    rw [List.append_assoc, here?_mark hmark.touchesWord_head? hbefore, ofRun?_mark]
    by_cases hall : ∀ c ∈ name, isNameChar c = true
    · have hstop := Text.any_isNameChar_of_touchesWord hends
      rw [Text.takeWhile_append_stop hall hstop, Text.dropWhile_append_stop hall hstop]
      have hname : name.all isNameChar = true := List.all_eq_true.mpr hall
      cases hempty : name.isEmpty with
      | true => simp
      | false => simp [hname, List.length_append]
    · have hname : name.all isNameChar = false := by
        rw [← Bool.not_eq_true, List.all_eq_true]
        exact hall
      have hword : ∀ c ∈ name, isWord c = true := fun c hc => hw c (List.mem_append_right _ hc)
      simp [tagAfter?_inside hword hall, hname]
  · have hnot : mark.toList.isPrefixOf (w ++ rest) = false := by
      rw [← Bool.not_eq_true, List.isPrefixOf_iff_prefix]
      exact mt (prefix_word hmark hw hends) hstarts
    have hnone : mark.toList.isPrefixOf w = false := by
      rw [← Bool.not_eq_true, List.isPrefixOf_iff_prefix]
      exact hstarts
    simp [here?_eq, ofRun?, hnot, hnone]

theorem here?_eq_none (hmark : IsMark mark) {before : Option Char} {c : Char}
    (h : (isWord c && !touchesWord before) = false) (r : List Char) :
    here? mark.toList before (c :: r) = none := by
  rw [here?_eq, if_neg]
  simp only [Bool.and_eq_true, List.isPrefixOf_iff_prefix, Text.isBoundary, List.head?_cons,
    Text.touchesWord_some]
  rintro ⟨⟨rest, hrest⟩, hboundary⟩
  have hc : isWord c = true := by
    obtain ⟨d, name, hdn, hd⟩ := hmark.exists_cons
    rw [hdn, List.cons_append, List.cons.injEq] at hrest
    exact hrest.1 ▸ hd
  have hbefore : touchesWord before = true := by simpa [hc] using h
  simp [hc, hbefore] at hboundary

/-! ### Lines -/

theorem scanFrom_append (mark xs cs : List Char) (before : Option Char) :
    scanFrom mark xs.length before (xs ++ cs) = scanFrom mark 0 (xs.getLast?.or before) cs := by
  induction xs generalizing before with
  | nil => simp
  | cons c xs ih =>
    rw [List.length_cons, List.cons_append, scanFrom, ih, Text.getLast?_cons_or]

theorem scanFrom_match {mark : List Char} {before : Option Char} {c : Char}
    {w passed left : List Char} {t : DataToken}
    (h : here? mark before (c :: (w ++ (passed ++ left))) =
      some (t, (c :: w).length + passed.length)) :
    scanFrom mark 0 before (c :: (w ++ (passed ++ left))) =
      t :: scanFrom mark 0 (passed.getLast?.or (w.getLast?.or (some c))) left := by
  have hlength : (c :: w).length + passed.length - 1 = (w ++ passed).length := by
    simp only [List.length_cons, List.length_append]
    omega
  have hskip := scanFrom_append mark (w ++ passed) left (some c)
  rw [List.append_assoc, List.getLast?_append, Option.or_assoc] at hskip
  simp only [scanFrom, h, hlength, hskip]

/-- The scan of a text finds the data objects of its words. -/
theorem scanFrom_eq (hmark : IsMark mark) (before : Option Char) (cs : List Char) :
    scanFrom mark.toList 0 before cs = ofRuns mark.toList before cs := by
  -- a match may take more than one character, so that what is left is any shorter text
  induction hn : cs.length using Nat.strongRecOn generalizing before cs with
  | ind n ih =>
    cases cs with
    | nil => rfl
    | cons c r =>
      cases hstart : isWord c && !touchesWord before with
      | false =>
        have hr := ih r.length (by simp [← hn]) (some c) r rfl
        simp only [scanFrom, here?_eq_none hmark hstart, hr, ofRuns, wordRuns, hstart,
          Bool.false_eq_true, if_false]
      | true =>
        simp only [Bool.and_eq_true, Bool.not_eq_true'] at hstart
        obtain ⟨hc, hbefore⟩ := hstart
        obtain ⟨w, rest, rfl, hw, hends⟩ : ∃ w rest, r = w ++ rest ∧
            (∀ d ∈ w, isWord d = true) ∧ touchesWord rest.head? = false :=
          ⟨_, _, List.takeWhile_append_dropWhile.symm, fun d => List.mem_takeWhile_imp,
            Text.touchesWord_head?_dropWhile r⟩
        have hword : ∀ d ∈ c :: w, isWord d = true := List.forall_mem_cons.mpr ⟨hc, hw⟩
        have hruns : wordRuns before (c :: (w ++ rest)) = ⟨c :: w, rest⟩ :: wordRuns none rest :=
          Text.wordRuns_word hword (List.cons_ne_nil c w) hends hbefore
        have hhere := here?_word hmark hbefore hword hends
        rw [List.cons_append] at hhere
        cases ht : ofRun? mark.toList ⟨c :: w, rest⟩ with
        | none =>
          have hinside : wordRuns (some c) (w ++ rest) = wordRuns none rest :=
            Text.wordRuns_inside hw hends hc
          have hr := ih (w ++ rest).length (by simp [← hn]) (some c) (w ++ rest) rfl
          rw [ht, Option.bind_none] at hhere
          simp only [scanFrom, hhere, hr, ofRuns, hinside, hruns, List.filterMap_cons_none ht]
        | some t =>
          obtain ⟨passed, left, rfl, hafter, hpasses⟩ := exists_tagAfter? hmark hends
          have htag : (⟨t.name, tagBehind? (passed ++ left)⟩ : DataToken) = t := by
            rw [← tag_of_ofRun? ht]
          rw [ht, Option.bind_some, hafter, Option.map_some, htag] at hhere
          have hshorter : left.length < n := by
            simp only [← hn, List.length_cons, List.length_append]
            omega
          have hleft := ih left.length hshorter
            (passed.getLast?.or (w.getLast?.or (some c))) left rfl
          calc scanFrom mark.toList 0 before (c :: (w ++ (passed ++ left)))
              = t :: scanFrom mark.toList 0 (passed.getLast?.or (w.getLast?.or (some c))) left :=
                  scanFrom_match hhere
            _ = t :: ofRuns mark.toList none (passed ++ left) := by rw [hleft, hpasses]
            _ = ofRuns mark.toList before (c :: (w ++ (passed ++ left))) := by
                  simp only [ofRuns, hruns, List.filterMap_cons_some ht]

theorem scan_eq (hmark : IsMark mark) (line : String) :
    scan mark line = (wordRuns none line.toList).filterMap (ofRun? mark.toList) :=
  scanFrom_eq hmark none line.toList

end

end DataToken
end ProcessLint
