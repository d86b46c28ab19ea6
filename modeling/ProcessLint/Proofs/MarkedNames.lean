import ProcessLint.Proofs.ActionLines
import ProcessLint.Proofs.DataPermissions

/-! A data object behind the verb of an action, whatever characters its mark is made of: the scan
comes to it, and finds it when the mark starts with a word character. -/
namespace ProcessLint

open Text (isBlank isNameChar isWord touchesWord)

/-- Characters that pass a test, around a part that starts with one that does not, fix where the
part stands. -/
theorem Text.eq_of_append_eq_append {p : Char → Bool} {d : Char} {m xs zs us vs : List Char}
    (hx : ∀ c ∈ xs, p c = true) (hz : ∀ c ∈ zs, p c = true) (hd : p d = false)
    (h : xs ++ (d :: m ++ zs) = us ++ (d :: m ++ vs)) : us = xs := by
  -- all other characters belong to the part, which is the same on both sides
  have hcount := congrArg (List.countP fun c => !p c) h
  have hxzero : xs.countP (fun c => !p c) = 0 :=
    List.countP_eq_zero.mpr fun c hc => by simp [hx c hc]
  have hzzero : zs.countP (fun c => !p c) = 0 :=
    List.countP_eq_zero.mpr fun c hc => by simp [hz c hc]
  simp only [List.countP_append, hxzero, hzzero] at hcount
  have huzero : us.countP (fun c => !p c) = 0 := by omega
  have hu : ∀ c ∈ us, p c = true := by
    intro c hc
    simpa using List.countP_eq_zero.mp huzero c hc
  have hstop (ws : List Char) : (d :: m ++ ws).head?.any p = false := hd
  exact (append_inj_of_stop hu hx (hstop vs) (hstop zs) h.symm).1

theorem Text.isWord_space : isWord ' ' = false := isWord_of_isBlank (by decide)

theorem Text.touchesWord_space (cs : List Char) : touchesWord (' ' :: cs).head? = false := by
  rw [List.head?_cons, touchesWord_some, isWord_space]

namespace DataToken

variable {mark : List Char}

/-! ### Where nothing is found -/

theorem here?_eq_none_of_inside {before : Option Char} {cs : List Char}
    (h : Text.isBoundary before cs.head? = false) : here? mark before cs = none := by
  rw [here?_eq, if_neg (by simp [h])]

theorem here?_eq_none_of_absent {before : Option Char} {cs : List Char} (h : ¬mark <+: cs) :
    here? mark before cs = none := by
  rw [here?_eq, if_neg (by simp [List.isPrefixOf_iff_prefix, h])]

theorem scanFrom_eq_nil {before : Option Char} {text : List Char}
    (h : ∀ ahead rest, text = ahead ++ (mark ++ rest) →
      Text.isBoundary (ahead.getLast?.or before) (mark ++ rest).head? = false) :
    scanFrom mark 0 before text = [] := by
  induction text generalizing before with
  | nil => rfl
  | cons c r ih =>
    have hhere : here? mark before (c :: r) = none := by
      by_cases hstarts : mark <+: c :: r
      · obtain ⟨rest, hrest⟩ := hstarts
        refine here?_eq_none_of_inside ?_
        rw [← hrest]
        exact h [] rest hrest.symm
      · exact here?_eq_none_of_absent hstarts
    simp only [scanFrom, hhere]
    refine ih fun ahead rest hr => ?_
    have hboundary := h (c :: ahead) rest (by rw [hr]; rfl)
    rwa [Text.getLast?_cons_or] at hboundary

/-! ### Tags and matches -/

theorem tagHere?_tagWord (a : Access) {rest : List Char} (hrest : touchesWord rest.head? = false) :
    tagHere? (tagWord a ++ rest) = some a := by
  rw [tagHere?_eq, Text.takeWhile_append_stop (isWord_of_mem_tagWord a) hrest]
  cases a <;> rfl

theorem tagHere?_word {w rest : List Char} (hw : ∀ c ∈ w, isWord c = true)
    (hrest : touchesWord rest.head? = false) (hapart : ∀ a, w ≠ tagWord a) :
    tagHere? (w ++ rest) = none := by
  by_contra h
  obtain ⟨a, ha⟩ := Option.ne_none_iff_exists'.mp h
  have htag := takeWhile_of_tagHere? ha
  rw [Text.takeWhile_append_stop hw hrest] at htag
  exact hapart a htag

/-- Behind one blank a match takes the tag, or the blank if a word follows. -/
theorem tagAfter?_blank {cs : List Char} (hcs : cs.head?.any isBlank = false) :
    tagAfter? (' ' :: cs) = match tagHere? cs with
      | some a => some (some a, 1 + tagLength a)
      | none => some (none, if touchesWord cs.head? then 1 else 0) := by
  have hgap : (' ' :: cs).takeWhile isBlank = [' '] := by
    rw [List.takeWhile_cons_of_pos (by decide), ← List.nil_append cs,
      Text.takeWhile_append_stop (List.forall_mem_nil _) hcs]
  simp only [tagAfter?, hgap, List.length_singleton, Nat.one_ne_zero, if_false, List.drop_succ_cons,
    List.drop_zero]
  cases tagHere? cs with
  | none => cases touchesWord cs.head? <;> rfl
  | some a => rfl

theorem suffix_scanFrom_match {w : List Char} (passed left : List Char) (hne : w ≠ [])
    {before : Option Char} {t : DataToken}
    (h : here? mark before (w ++ (passed ++ left)) = some (t, w.length + passed.length)) :
    scanFrom mark 0 (passed.getLast?.or w.getLast?) left <:+
      scanFrom mark 0 before (w ++ (passed ++ left)) := by
  obtain ⟨c, w, rfl⟩ := List.exists_cons_of_ne_nil hne
  have hlast := Text.getLast?_cons_or c w none
  rw [Option.or_none] at hlast
  rw [List.cons_append] at h ⊢
  rw [scanFrom_match h, hlast]
  exact List.suffix_cons _ _

theorem prefix_of_prefix_blank (hsolid : ∀ c ∈ mark, isBlank c = false) {w cs : List Char}
    (h : mark <+: w ++ ' ' :: cs) : mark <+: w := by
  rcases List.prefix_or_prefix_of_prefix h (List.prefix_append w (' ' :: cs)) with hw | ⟨r, hr⟩
  · exact hw
  · subst hr
    cases r with
    | nil => simp
    | cons c r =>
      have hc : c = ' ' := by
        obtain ⟨rest, hrest⟩ := h
        rw [List.append_assoc] at hrest
        exact (List.cons.inj (List.append_cancel_left hrest)).1
      have hblank := hsolid c (by simp)
      rw [hc] at hblank
      exact absurd hblank (by decide)

/-! ### Words in front of a blank -/

section

variable (hmark : touchesWord mark.head? = true)
include hmark

theorem scanFrom_cons_of_not_isWord {c : Char} (hc : isWord c = false) (before : Option Char)
    (cs : List Char) : scanFrom mark 0 before (c :: cs) = scanFrom mark 0 (some c) cs := by
  have hhere : here? mark before (c :: cs) = none := by
    refine here?_eq_none_of_absent fun hstarts => ?_
    cases mark with
    | nil => cases hmark
    | cons d mark =>
      obtain rfl := (List.cons_prefix_cons.mp hstarts).1
      have hd : isWord d = true := hmark
      rw [hc] at hd
      cases hd
  simp only [scanFrom, hhere]

theorem scanFrom_inside {w : List Char} (hw : ∀ c ∈ w, isWord c = true) {before : Option Char}
    (hbefore : touchesWord before = true) (cs : List Char) :
    scanFrom mark 0 before (w ++ ' ' :: cs) = scanFrom mark 0 (some ' ') cs := by
  induction w generalizing before with
  | nil => exact scanFrom_cons_of_not_isWord hmark Text.isWord_space before cs
  | cons c w ih =>
    obtain ⟨hc, hw⟩ := List.forall_mem_cons.mp hw
    have hhere : here? mark before (c :: (w ++ ' ' :: cs)) = none := by
      refine here?_eq_none_of_inside ?_
      simp [Text.isBoundary, hbefore, hc]
    simp only [List.cons_append, scanFrom, hhere]
    exact ih hw hc

variable (hsolid : ∀ c ∈ mark, isBlank c = false)
include hsolid

theorem here?_name {w : List Char} (hw : ∀ c ∈ w, isNameChar c = true) {before : Option Char}
    (hbefore : touchesWord before = false) (cs : List Char) :
    here? mark before (w ++ ' ' :: cs) =
      if mark <+: w ∧ mark ≠ w then
        (tagAfter? (' ' :: cs)).map fun x => (⟨.ofList w, x.1⟩, w.length + x.2)
      else none := by
  by_cases hstarts : mark <+: w
  · obtain ⟨name, rfl⟩ := hstarts
    have hname : ∀ c ∈ name, isNameChar c = true := fun c hc => hw c (List.mem_append_right _ hc)
    have hstop : (' ' :: cs).head?.any isNameChar = false := rfl
    rw [List.append_assoc, here?_mark hmark hbefore, Text.takeWhile_append_stop hname hstop,
      Text.dropWhile_append_stop hname hstop]
    cases name with
    | nil => simp
    | cons c name => simp [List.length_append]
  · rw [here?_eq_none_of_absent (mt (prefix_of_prefix_blank hsolid) hstarts),
      if_neg fun h => hstarts h.1]

/-- The scan comes to what stands behind a word, if this is not the tag of the word. -/
theorem suffix_scanFrom_name {w cs : List Char} (hne : w ≠ []) (hw : ∀ c ∈ w, isNameChar c = true)
    {before : Option Char} (hbefore : touchesWord before = false)
    (hcs : cs.head?.any isBlank = false) (hfree : mark <+: w → mark ≠ w → tagHere? cs = none) :
    scanFrom mark 0 (some ' ') cs <:+ scanFrom mark 0 before (w ++ ' ' :: cs) := by
  have hhere := here?_name hmark hsolid hw hbefore cs
  by_cases hmore : mark <+: w ∧ mark ≠ w
  · rw [if_pos hmore, tagAfter?_blank hcs, hfree hmore.1 hmore.2] at hhere
    cases hnext : touchesWord cs.head? with
    | true =>
      rw [hnext] at hhere
      exact suffix_scanFrom_match [' '] cs hne hhere
    | false =>
      rw [hnext] at hhere
      have hbehind := suffix_scanFrom_match [] (' ' :: cs) hne hhere
      rwa [scanFrom_cons_of_not_isWord hmark Text.isWord_space] at hbehind
  · rw [if_neg hmore] at hhere
    obtain ⟨c, w, rfl⟩ := List.exists_cons_of_ne_nil hne
    obtain ⟨hc, hw⟩ := List.forall_mem_cons.mp hw
    have hbefore : touchesWord (some c) = true := Text.isWord_of_isNameChar hc
    have hinside :=
      scanFrom_inside hmark (fun d hd => Text.isWord_of_isNameChar (hw d hd)) hbefore cs
    rw [List.cons_append] at hhere ⊢
    simp only [scanFrom, hhere, hinside, List.suffix_rfl]

theorem suffix_scanFrom_tag {w : List Char} (hne : w ≠ []) (hw : ∀ c ∈ w, isNameChar c = true)
    {before : Option Char} (hbefore : touchesWord before = false) (hmore : mark <+: w ∧ mark ≠ w)
    (a : Access) (cs : List Char) :
    scanFrom mark 0 (some ' ') cs <:+
      scanFrom mark 0 before (w ++ ' ' :: (tagWord a ++ ' ' :: cs)) := by
  have htag := tagHere?_tagWord a (Text.touchesWord_space cs)
  have hblank : (tagWord a ++ ' ' :: cs).head?.any isBlank = false := by cases a <;> rfl
  have hhere := here?_name hmark hsolid hw hbefore (tagWord a ++ ' ' :: cs)
  rw [if_pos hmore, tagAfter?_blank hblank, htag] at hhere
  have hmatch : here? mark before (w ++ (' ' :: tagWord a ++ ' ' :: cs)) =
      some (⟨.ofList w, some a⟩, w.length + (' ' :: tagWord a).length) := by
    rw [List.length_cons, length_tagWord, Nat.add_comm (tagLength a)]
    exact hhere
  have hbehind := suffix_scanFrom_match (' ' :: tagWord a) (' ' :: cs) hne hmatch
  rwa [scanFrom_cons_of_not_isWord hmark Text.isWord_space] at hbehind

theorem suffix_scanFrom_action {actor verb tail : List Char}
    (hactor : Action.IsName Text.isNameStart actor) (hverb : Action.IsName Char.isAlpha verb)
    (htail : tail.head?.any isBlank = false)
    (hfree : mark <+: verb → mark ≠ verb → tagHere? tail = none) :
    scanFrom mark 0 (some ' ') tail <:+
      scanFrom mark 0 none ('-' :: ' ' :: (actor ++ ' ' :: (verb ++ ' ' :: tail))) := by
  have hspace : touchesWord (some ' ') = false := Text.touchesWord_space []
  have hends : touchesWord (' ' :: tail).head? = false := Text.touchesWord_space tail
  rw [scanFrom_cons_of_not_isWord hmark (by decide +kernel),
    scanFrom_cons_of_not_isWord hmark Text.isWord_space]
  have hbehind := suffix_scanFrom_name hmark hsolid hverb.ne_nil hverb.names hspace htail hfree
  by_cases htag : mark <+: actor ∧ mark ≠ actor ∧ tagHere? (verb ++ ' ' :: tail) ≠ none
  -- the verb may itself be the tag of the actor
  · obtain ⟨hstarts, hne, htag⟩ := htag
    obtain ⟨a, ha⟩ := Option.ne_none_iff_exists'.mp htag
    have hverb : verb = tagWord a := by
      rw [← takeWhile_of_tagHere? ha]
      have hword : ∀ c ∈ verb, isWord c = true := fun c hc =>
        Text.isWord_of_isNameChar (hverb.names c hc)
      exact (Text.takeWhile_append_stop hword hends).symm
    rw [hverb]
    exact suffix_scanFrom_tag hmark hsolid hactor.ne_nil hactor.names hspace ⟨hstarts, hne⟩ a tail
  · refine hbehind.trans (suffix_scanFrom_name hmark hsolid hactor.ne_nil hactor.names hspace
      (hverb.any_isBlank _) fun hstarts hne => ?_)
    by_contra h
    exact htag ⟨hstarts, hne, h⟩

end

/-! ### A data object behind the verb -/

/-- Behind a blank a mark that starts with a word character is found with what follows it. -/
theorem mem_scanFrom_object (hmark : touchesWord mark.head? = true) {name : List Char}
    (hne : name ≠ []) (hname : ∀ c ∈ name, isNameChar c = true) :
    (⟨.ofList (mark ++ name), some .write⟩ : DataToken) ∈
      scanFrom mark 0 (some ' ') (mark ++ name ++ ' ' :: tagWord .write) := by
  have hspace : touchesWord (some ' ') = false := Text.touchesWord_space []
  have hstop : (' ' :: tagWord .write).head?.any isNameChar = false := rfl
  have hhere := here?_mark hmark hspace (name ++ ' ' :: tagWord .write)
  have htag : tagAfter? (' ' :: tagWord .write) = some (some .write, 6) := by
    have hhere := tagHere?_tagWord .write (List.head?_nil ▸ Text.touchesWord_none)
    rw [List.append_nil] at hhere
    rw [tagAfter?_blank rfl, hhere]
    rfl
  rw [Text.takeWhile_append_stop hname hstop, Text.dropWhile_append_stop hname hstop, htag,
    if_neg (by simpa using hne), ← List.append_assoc] at hhere
  obtain ⟨c, r, hcr⟩ := List.exists_cons_of_ne_nil (List.append_ne_nil_of_right_ne_nil mark hne)
  rw [hcr] at hhere ⊢
  rw [List.cons_append] at hhere ⊢
  simp only [scanFrom, hhere, Option.map_some, List.mem_cons, true_or]

/-- An action with a dash in front, and behind the verb a data object with a tag. -/
def taggedLine (actor verb object : List Char) : List Char :=
  '-' :: ' ' :: (actor ++ ' ' :: (verb ++ ' ' :: (object ++ ' ' :: tagWord .write)))

section

variable {actor verb name : List Char} (hactor : Action.IsName Text.isNameStart actor)
  (hverb : Action.IsName Char.isAlpha verb) (hsolid : ∀ c ∈ mark, isBlank c = false)
  (hname : ∀ c ∈ name, isNameChar c = true)
include hactor hverb hsolid hname

/-- With a mark that starts with a word character the data object is found, unless it is a tag and
the verb is the mark and more. -/
theorem mem_scanFrom_taggedLine (hmark : touchesWord mark.head? = true) (hne : name ≠ [])
    (hapart : ∀ a, mark ++ name = tagWord a → mark <+: verb → mark = verb) :
    (⟨.ofList (mark ++ name), some .write⟩ : DataToken) ∈
      scanFrom mark 0 none (taggedLine actor verb (mark ++ name)) := by
  have hblank : (mark ++ name ++ ' ' :: tagWord .write).head?.any isBlank = false := by
    cases mark with
    | nil => cases hmark
    | cons c m => exact hsolid c List.mem_cons_self
  have hfree : mark <+: verb → mark ≠ verb →
      tagHere? (mark ++ name ++ ' ' :: tagWord .write) = none := by
    intro hstarts hmore
    refine tagHere?_word (fun c hc => Text.isWord_of_isNameChar ?_)
      (Text.touchesWord_space _)
      fun a ha => hmore (hapart a ha hstarts)
    rcases List.mem_append.mp hc with hc | hc
    · exact hverb.names c (hstarts.subset hc)
    · exact hname c hc
  have hreached := suffix_scanFrom_action hmark hsolid hactor hverb hblank hfree
  exact hreached.subset (mem_scanFrom_object hmark hne hname)

omit hsolid hname in
/-- Between the dash and the data object stand name characters and blanks, of which the last is a
blank. -/
theorem exists_taggedLine_eq (object : List Char) :
    ∃ front, taggedLine actor verb object = '-' :: (front ++ (object ++ ' ' :: tagWord .write)) ∧
      front.getLast? = some ' ' ∧ ∀ c ∈ front, (isNameChar c || isBlank c) = true := by
  refine ⟨' ' :: (actor ++ ' ' :: verb) ++ [' '], by simp [taggedLine], List.getLast?_concat,
    fun c hc => ?_⟩
  simp only [List.mem_append, List.mem_cons, List.not_mem_nil, or_false] at hc
  rcases hc with (rfl | hc | rfl | hc) | rfl
  · decide
  · simp [hactor.names c hc]
  · decide
  · simp [hverb.names c hc]
  · decide

/-- With a mark that starts with another character nothing is found. -/
theorem scanFrom_taggedLine_eq_nil (hmark : touchesWord mark.head? = false) (hne : mark ≠ []) :
    scanFrom mark 0 none (taggedLine actor verb (mark ++ name)) = [] := by
  obtain ⟨d, m, rfl⟩ := List.exists_cons_of_ne_nil hne
  have hd : isWord d = false := hmark
  have hodd : (isNameChar d || isBlank d) = false := by
    rw [hsolid d List.mem_cons_self, Bool.or_false, ← Bool.not_eq_true]
    exact fun h => absurd (Text.isWord_of_isNameChar h) (by simp [hd])
  have hbehind : ∀ c ∈ name ++ ' ' :: tagWord .write, (isNameChar c || isBlank c) = true := by
    have htag : ∀ c ∈ ' ' :: tagWord .write, (isNameChar c || isBlank c) = true :=
      List.all_eq_true.mp (by decide)
    intro c hc
    rcases List.mem_append.mp hc with hc | hc
    · simp [hname c hc]
    · exact htag c hc
  obtain ⟨front, hline, hlast, hfront⟩ := exists_taggedLine_eq hactor hverb (d :: m ++ name)
  refine scanFrom_eq_nil fun ahead rest h => ?_
  cases ahead with
  | nil => simp [Text.isBoundary, hd]
  | cons e ahead =>
    rw [hline, List.append_assoc, List.cons_append] at h
    obtain ⟨-, h⟩ := List.cons.inj h
    have hahead : ahead = front := Text.eq_of_append_eq_append hfront hbehind hodd h
    simp [hahead, hlast, Text.isBoundary, hd, Text.isWord_space, List.getLast?_cons]

end

end DataToken

theorem Action.ofLine?_taggedLine {line : String} {actor verb object : List Char}
    (hactor : IsName Text.isNameStart actor) (hverb : IsName Char.isAlpha verb)
    (hline : line.toList = DataToken.taggedLine actor verb object) :
    ofLine? line = some ⟨.ofList actor, .ofList verb⟩ := by
  have hspace : isBlank ' ' = true := by decide
  let p : Parts :=
    ⟨[], ['-', ' '], actor, [' '], verb, ' ' :: (object ++ ' ' :: DataToken.tagWord .write)⟩
  have hp : p.IsReadingOf line.toList := {
    line_eq := by simp [hline, DataToken.taggedLine, p]
    indent := List.forall_mem_nil _
    bullet := Or.inr ⟨[' '], rfl, by simp [hspace]⟩
    actor := hactor
    gap_ne_nil := List.cons_ne_nil _ _
    gap := by simp [p, hspace]
    verb := hverb
    rest := Text.touchesWord_space _ }
  exact hp.ofLine?_eq

namespace Validator

/-- Where no data object is named, no missing permission is told. -/
theorem not_mem_findings_of_scan_eq_nil {v : Validator} {line : String} {a : Action}
    (haction : Action.ofLine? line = some a)
    (hscan : DataToken.scan v.options.dataObjectPrefix line = []) (actor verb object : String)
    (access : Access) : (Flag.dataPermission actor verb object access).finding ∉
      v.findings (v.actionFlags line) := by
  intro htold
  have hnone := v.filter_actionFlags haction
  rw [hscan, List.flatMap_nil] at hnone
  obtain ⟨f, hf, -, hfinding⟩ := mem_findings.mp htold
  have hrule : f.finding.isOf .dataPermission = true := by
    rw [hfinding, Flag.isOf_finding]
    exact decide_eq_true rfl
  rw [Flag.isOf_finding] at hrule
  exact List.filter_eq_nil_iff.mp hnone f hf hrule

/-- The permission is told that is missing for the access of a tag. -/
theorem mem_findings_of_mem_scan {v : Validator} {line actor verb object : String} {access : Access}
    (hwanted : .dataPermission ∉ v.disabled)
    (haction : Action.ofLine? line = some ⟨actor, verb⟩)
    (htoken : ⟨object, some access⟩ ∈ DataToken.scan v.options.dataObjectPrefix line)
    (hpermits : v.dictionary.permits access actor object = false) :
    (Flag.dataPermission actor verb object access).finding ∈ v.findings (v.actionFlags line) := by
  have hflag : .dataPermission actor verb object access ∈
      v.tokenFlags ⟨actor, verb⟩ ⟨object, some access⟩ := by
    simp [tokenFlags, hpermits]
  refine mem_findings.mpr ⟨_, ?_, ?_, rfl⟩
  · simp only [actionFlags, haction]
    exact List.mem_append_right _ (List.mem_flatMap.mpr ⟨_, htoken, hflag⟩)
  · simpa [wants, Flag.rule, Rule.isOptIn] using hwanted

/-- Of an action with a tagged data object behind the verb, to which the actor is denied write
access, the missing permission is told if and only if the mark of data objects starts with a word
character. The mark may be any text without blanks; only where mark and name together are themselves
a tag, the verb must not be the mark and more. -/
theorem dataPermission_of_mark (v : Validator) {mark actor verb name : String}
    (hmark : v.options.dataObjectPrefix = mark)
    (hwanted : .dataPermission ∉ v.disabled)
    (hactor : Action.IsName Text.isNameStart actor.toList)
    (hverb : Action.IsName Char.isAlpha verb.toList)
    (hne : mark ≠ "") (hsolid : ∀ c ∈ mark.toList, isBlank c = false)
    (hname : name ≠ "") (hchars : ∀ c ∈ name.toList, isNameChar c = true)
    (hrestricted : v.dictionary.writes.namesOf (.of actor) ≠ [])
    (hdenied : .of (mark ++ name) ∉ v.dictionary.writes.namesOf (.of actor))
    (hapart : mark ++ name ∈ ["Input", "Output"] → mark.toList <+: verb.toList → mark = verb) :
    let line := "- " ++ actor ++ " " ++ verb ++ " " ++ (mark ++ name) ++ " Input"
    ∀ s : Session, ∃ told : List Finding,
      (v.step s (.action line)).report = { s.report with warnings := s.report.warnings ++ told } ∧
        ((Flag.dataPermission actor verb (mark ++ name) .write).finding ∈ told ↔
          touchesWord mark.toList.head? = true) := by
  intro line s
  have hline : line.toList =
      DataToken.taggedLine actor.toList verb.toList (mark.toList ++ name.toList) := by
    have hdash : "- ".toList = ['-', ' '] := rfl
    have hspace : " ".toList = [' '] := rfl
    have htag : " Input".toList = ' ' :: DataToken.tagWord .write := rfl
    simp only [line, String.toList_append, hdash, hspace, htag, DataToken.taggedLine,
      List.append_assoc, List.cons_append, List.nil_append]
  have haction : Action.ofLine? line = some ⟨actor, verb⟩ := by
    rw [Action.ofLine?_taggedLine hactor hverb hline, String.ofList_toList, String.ofList_toList]
  refine ⟨v.findings (v.actionFlags line), v.addTo_actionFlags s.report line, ?_⟩
  have hscan : DataToken.scan v.options.dataObjectPrefix line =
      DataToken.scanFrom mark.toList 0 none
        (DataToken.taggedLine actor.toList verb.toList (mark.toList ++ name.toList)) := by
    rw [hmark, DataToken.scan, hline]
  constructor
  · intro htold
    by_contra hodd
    rw [Bool.not_eq_true] at hodd
    refine not_mem_findings_of_scan_eq_nil haction ?_ _ _ _ _ htold
    rw [hscan]
    exact DataToken.scanFrom_taggedLine_eq_nil hactor hverb hsolid hchars hodd
      (mt String.toList_eq_nil_iff.mp hne)
  · intro hword
    have htag : ∀ a, mark.toList ++ name.toList = DataToken.tagWord a →
        mark.toList <+: verb.toList → mark.toList = verb.toList := by
      intro a ha hstarts
      rw [← String.toList_append] at ha
      have hobject : mark ++ name ∈ ["Input", "Output"] := by
        cases a with
        | write => simp [String.toList_injective (ha.trans rfl : _ = "Input".toList)]
        | read => simp [String.toList_injective (ha.trans rfl : _ = "Output".toList)]
      rw [hapart hobject hstarts]
    have htoken := DataToken.mem_scanFrom_taggedLine hactor hverb hsolid hchars hword
      (mt String.toList_eq_nil_iff.mp hname) htag
    rw [← hscan, ← String.toList_append, String.ofList_toList] at htoken
    have hpermits : v.dictionary.permits .write actor (mark ++ name) = false := by
      rw [← Bool.not_eq_true, Dictionary.permits, Dictionary.canWrite, Restrictions.permits_iff]
      exact fun h => h.elim hrestricted hdenied
    exact mem_findings_of_mem_scan hwanted haction htoken hpermits

/-! ### Data of an office -/

abbrev officeMark : Options := { dataObjectPrefix := "büro-" }

theorem dataPermission_of_officeMark : ∃ d, Dictionary.ofSource tillTeller = .ok d ∧
    let v : Validator := { dictionary := d, options := officeMark }
    d.writes.namesOf (.of "Teller") ≠ [] ∧
      .of "büro-Safe" ∉ d.writes.namesOf (.of "Teller") ∧
      ∀ s : Session, ∃ told : List Finding,
        (v.step s (.action "- Teller Pay büro-Safe Input")).report =
          { s.report with warnings := s.report.warnings ++ told } ∧
          (Flag.dataPermission "Teller" "Pay" "büro-Safe" .write).finding ∈ told := by
  obtain ⟨d, hd⟩ : ∃ d, Dictionary.ofSource tillTeller = .ok d := ⟨_, rfl⟩
  have hobject : "büro-" ++ "Safe" = "büro-Safe" := by decide
  have hline : "- " ++ "Teller" ++ " " ++ "Pay" ++ " " ++ "büro-Safe" ++ " Input" =
      "- Teller Pay büro-Safe Input" := by decide
  have hrestricted : d.writes.namesOf (.of "Teller") ≠ [] := by
    cases hd
    decide
  have hdenied : .of "büro-Safe" ∉ d.writes.namesOf (.of "Teller") := by
    cases hd
    decide
  let v : Validator := { dictionary := d, options := officeMark }
  have hmark : v.options.dataObjectPrefix = "büro-" := rfl
  have hactor : Action.IsName Text.isNameStart "Teller".toList :=
    ⟨by decide, List.all_eq_true.mp (by decide)⟩
  have hverb : Action.IsName Char.isAlpha "Pay".toList :=
    ⟨by decide, List.all_eq_true.mp (by decide)⟩
  have hsolid : ∀ c ∈ "büro-".toList, isBlank c = false := by
    have hblank : "büro-".toList.any isBlank = false := by decide
    simpa using List.any_eq_false.mp hblank
  have hname : ∀ c ∈ "Safe".toList, isNameChar c = true := List.all_eq_true.mp (by decide)
  have hiff := dataPermission_of_mark v hmark List.not_mem_nil hactor hverb (by decide) hsolid
    (by decide) hname hrestricted (hobject ▸ hdenied) (by decide)
  rw [hobject, hline] at hiff
  refine ⟨d, hd, hrestricted, hdenied, fun s => ?_⟩
  obtain ⟨told, hreport, htold⟩ := hiff s
  exact ⟨told, hreport, htold.mpr (by decide +kernel)⟩

/-- With a mark that starts with a dollar nothing is told of a data object that may not be
written. -/
theorem dollarMark_silent : ∃ d, Dictionary.ofSource tillTeller = .ok d ∧
    d.writes.namesOf (.of "Teller") ≠ [] ∧ .of "$Safe" ∉ d.writes.namesOf (.of "Teller") ∧
      Action.ofLine? "- Teller Pay $Safe Input" = some ⟨"Teller", "Pay"⟩ ∧
      ({ dictionary := d, options.dataObjectPrefix := "$" } : Validator).step {}
        (.action "- Teller Pay $Safe Input") = {} := by
  exact ⟨_, rfl, by decide +kernel⟩

end Validator
end ProcessLint
