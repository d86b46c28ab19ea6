import ProcessLint.Heuristic.Banking
import ProcessLint.Proofs.WrittenOut

/-! The first list of actors in a text. In a definition written out it is the list of the first
process, so that a wire transfer is told to lack a second approver just when that process declares
fewer than two actors. -/
namespace ProcessLint

namespace Text

variable {needle a b : List Char} {c : Char}

theorem prefix_of_prefix_append_cons (hc : c ∉ needle) (h : needle <+: a ++ c :: b) :
    needle <+: a := by
  induction a generalizing needle with
  | nil =>
    cases needle with
    | nil => exact List.prefix_rfl
    | cons d needle =>
      obtain ⟨rfl, -⟩ := List.cons_prefix_cons.mp h
      exact absurd List.mem_cons_self hc
  | cons x a ih =>
    cases needle with
    | nil => exact List.nil_prefix
    | cons d needle =>
      obtain ⟨rfl, hrest⟩ := List.cons_prefix_cons.mp h
      have hshort := ih (List.not_mem_of_not_mem_cons hc) hrest
      exact List.cons_prefix_cons.mpr ⟨rfl, hshort⟩

/-- A needle is not found across a character that it does not have. -/
theorem infix_of_infix_append_cons (hc : c ∉ needle) (h : needle <:+: a ++ c :: b) :
    needle <:+: a ∨ needle <:+: b := by
  induction a with
  | nil =>
    rcases List.infix_cons_iff.mp h with hstart | hrest
    · exact .inl (prefix_of_prefix_append_cons hc hstart).isInfix
    · exact .inr hrest
  | cons x a ih =>
    rcases List.infix_cons_iff.mp h with hstart | hrest
    · exact .inl (prefix_of_prefix_append_cons hc hstart).isInfix
    · exact (ih hrest).imp_left List.infix_cons

end Text

/-! ### Texts without a header -/

/-- No header of actors begins anywhere in the text. -/
def Lacks (s : String) : Prop := ¬Within "Actors" s

/-- What may stand between two phrases: it is no part of a header at its ends and has none inside. -/
def isGlue (g : String) : Bool :=
  g.toList.head?.any (fun c => c ∉ "Actors".toList) &&
    g.toList.getLast?.any (fun c => c ∉ "Actors".toList) &&
    !Text.occurs "Actors".toList g.toList

namespace Lacks

variable {s t g : String}

theorem of_isGlue (hg : isGlue g = true) : Lacks g := by
  simp only [isGlue, Bool.and_eq_true, Bool.not_eq_true'] at hg
  intro h
  rw [Text.occurs_iff.mpr h] at hg
  exact absurd hg.2 (by decide)

theorem empty : Lacks "" := by
  intro h
  exact absurd (List.eq_nil_of_infix_nil h) (by decide)

theorem between (hs : Lacks s) (hg : isGlue g = true) (ht : Lacks t) : Lacks (s ++ g ++ t) := by
  have hlacks := of_isGlue hg
  simp only [isGlue, Bool.and_eq_true, Option.any_eq_true, decide_eq_true_eq] at hg
  obtain ⟨⟨⟨c, hfirst, hc⟩, d, hlast, hd⟩, -⟩ := hg
  obtain ⟨r, hr⟩ := List.head?_eq_some_iff.mp hfirst
  obtain ⟨q, hq⟩ := List.getLast?_eq_some_iff.mp hlast
  intro h
  -- the first character of the glue cuts the text, and the last one cuts what is behind
  rw [Within, String.toList_append, String.toList_append, hr, List.append_assoc] at h
  rcases Text.infix_of_infix_append_cons hc h with h | h
  · exact hs h
  · have hbehind : "Actors".toList <:+: g.toList ++ t.toList := by
      rw [hr]
      exact h.trans (List.suffix_cons c _).isInfix
    rw [hq, List.append_assoc] at hbehind
    rcases Text.infix_of_infix_append_cons hd hbehind with h | h
    · apply hlacks
      rw [Within, hq]
      exact h.trans (List.prefix_append _ _).isInfix
    · exact ht h

theorem behind (ht : Lacks t) (hg : isGlue g = true) : Lacks (g ++ t) := by
  have h := empty.between hg ht
  rwa [String.empty_append] at h

theorem before (hs : Lacks s) (hg : isGlue g = true) : Lacks (s ++ g) := by
  have h := hs.between hg empty
  rwa [String.append_empty] at h

end Lacks

theorem lacks_commaList {words : List String} (h : ∀ w ∈ words, Lacks w) :
    Lacks (commaList words) := by
  induction words with
  | nil => exact Lacks.empty
  | cons w ws ih =>
    obtain ⟨hw, hws⟩ := List.forall_mem_cons.mp h
    cases ws with
    | nil => rwa [commaList_singleton]
    | cons v ws =>
      rw [commaList_cons_cons]
      exact hw.between (by decide) (ih hws)

theorem lacks_withAttributes {head : String} {attributes : List String} (hhead : Lacks head)
    (h : ∀ a ∈ attributes, Lacks a) : Lacks (withAttributes head attributes) := by
  rw [withAttributes]
  split
  · exact hhead
  · exact (hhead.between (by decide) (lacks_commaList h)).before (by decide)

theorem lacks_brackets {label : String} {words : List String} (hlabel : isGlue label = true)
    (h : ∀ w ∈ words, Lacks w) : Lacks (label ++ commaList words ++ "]") :=
  ((lacks_commaList h).behind hlabel).before (by decide)

theorem Binary64.lacks_plainText (x : Binary64) : Lacks x.plainText := by
  have hdigit (n : Nat) : 'A' ∉ Nat.toDigits 10 n := by
    intro h
    exact absurd (Nat.isDigit_of_mem_toDigits (by decide) (by decide) h) (by decide)
  have hnone : 'A' ∉ x.plainText.toList := by
    simp only [plainText, String.toList_ofList, List.mem_append, not_or]
    constructor
    · split <;> decide
    · split
      · have hzeros (n : Nat) : 'A' ∉ List.replicate n '0' := by simp
        split <;> simp [hdigit, hzeros]
      · split
        · have htake (n : Nat) := mt (List.mem_of_mem_take (i := n)) (hdigit (x.shortest .up).digits)
          have hdrop (n : Nat) := mt (List.mem_of_mem_drop (i := n)) (hdigit (x.shortest .up).digits)
          simp [htake, hdrop]
        · simp [hdigit]
  intro h
  exact hnone (h.subset (by decide))

/-! ### Declarations without a process -/

theorem Field.lacks_line {f : Field} (h : ∀ s ∈ f.phrases, Lacks s) : Lacks f.line := by
  simp only [phrases, List.cons_append, List.forall_mem_cons, List.forall_mem_append] at h
  obtain ⟨hname, htype, hvalues, hattrs⟩ := h
  apply lacks_withAttributes (hname.between (by decide) htype)
  intro a ha
  simp only [attributes, List.mem_append, List.mem_map, Option.mem_toList] at ha
  rcases ha with ((⟨x, -, rfl⟩ | ⟨x, -, rfl⟩) | ⟨vs, hvs, rfl⟩) | ha
  · exact x.lacks_plainText.behind (by decide)
  · exact x.lacks_plainText.behind (by decide)
  · rw [hvs, Option.getD_some] at hvalues
    exact lacks_brackets (by decide) hvalues
  · exact hattrs a ha

theorem Property.lacks_line {p : Property} (h : ∀ s ∈ p.phrases, Lacks s) : Lacks p.line := by
  simp only [phrases, List.cons_append, List.forall_mem_cons, List.forall_mem_append] at h
  obtain ⟨hname, htype, hvalues, hdefault⟩ := h
  apply lacks_withAttributes (hname.between (by decide) htype)
  intro a ha
  simp only [attributes, List.mem_append, List.mem_map, Option.mem_toList] at ha
  rcases ha with ⟨vs, hvs, rfl⟩ | ⟨d, hd, rfl⟩
  · rw [hvs, Option.getD_some] at hvalues
    exact lacks_brackets (by decide) hvalues
  · have hd := hdefault d (Option.mem_toList.mpr hd)
    exact hd.behind (by decide)

theorem lacks_indentLine {l : String} (h : Lacks l) : Lacks (indentLine l) := h.behind (by decide)

theorem lacks_block {head : String} {body : List String} (hhead : Lacks head)
    (hbody : ∀ l ∈ body, Lacks l) : ∀ l ∈ block head body, Lacks l := by
  have hend : Lacks "\x7d" := .of_isGlue (by decide)
  simp only [block, List.cons_append, List.forall_mem_cons, List.forall_mem_append,
    List.forall_mem_map]
  exact ⟨hhead.before (by decide), fun l hl => lacks_indentLine (hbody l hl), hend,
    List.forall_mem_nil _⟩

namespace Item

def process? : Item → Option Process
  | .process p => some p
  | _ => none

theorem eq_of_process? {i : Item} {p : Process} (h : i.process? = some p) : i = .process p := by
  cases i <;> cases h
  rfl

theorem lacks_lines {i : Item} (hother : i.process? = none) (h : ∀ s ∈ i.phrases, Lacks s) :
    ∀ l ∈ i.lines, Lacks l := by
  cases i with
  | dataObject d =>
    obtain ⟨hname, hfields⟩ := List.forall_mem_cons.mp h
    apply lacks_block (hname.behind (by decide))
    rw [List.forall_mem_cons, List.forall_mem_map]
    refine ⟨.of_isGlue (by decide), fun f hf => lacks_indentLine ?_⟩
    exact Field.lacks_line fun s hs => hfields s (List.mem_flatMap_of_mem hf hs)
  | entity e =>
    simp only [phrases, List.forall_mem_cons] at h
    obtain ⟨hname, href, hproperties⟩ := h
    apply lacks_block (hname.behind (by decide))
    rw [List.forall_mem_cons]
    refine ⟨href.behind (by decide), ?_⟩
    split
    · exact List.forall_mem_nil _
    · rw [List.forall_mem_cons, List.forall_mem_map]
      refine ⟨.of_isGlue (by decide), fun p hp => lacks_indentLine ?_⟩
      exact Property.lacks_line fun s hs => hproperties s (List.mem_flatMap_of_mem hp hs)
  | asset a =>
    simp only [phrases, lines, List.forall_mem_cons] at h ⊢
    exact ⟨(h.1.behind (by decide)).before (by decide), List.forall_mem_nil _⟩
  | relationship r =>
    simp only [phrases, List.forall_mem_cons] at h
    obtain ⟨hname, hsource, htarget, htype, -⟩ := h
    apply lacks_block (hname.behind (by decide))
    simp only [List.forall_mem_cons]
    exact ⟨hsource.behind (by decide), htarget.behind (by decide), htype.behind (by decide),
      List.forall_mem_nil _⟩
  | process p => cases hother
  | rule r =>
    simp only [phrases, List.forall_mem_cons] at h
    obtain ⟨hname, hdescription, htrigger, -⟩ := h
    apply lacks_block (hname.behind (by decide))
    simp only [List.forall_mem_cons]
    exact ⟨(hdescription.behind (by decide)).before (by decide), htrigger.behind (by decide),
      List.forall_mem_nil _⟩
  | report r =>
    simp only [phrases, List.forall_mem_cons] at h
    obtain ⟨hname, hquery, -⟩ := h
    apply lacks_block (hname.behind (by decide))
    simp only [List.forall_mem_cons]
    exact ⟨hquery.behind (by decide), List.forall_mem_nil _⟩

end Item

/-! ### Lists of words -/

theorem forall_mem_commaList {P : Char → Prop} {words : List String} (hcomma : P ',')
    (hblank : P ' ') (h : ∀ w ∈ words, ∀ c ∈ w.toList, P c) :
    ∀ c ∈ (commaList words).toList, P c := by
  induction words with
  | nil => nofun
  | cons w ws ih =>
    obtain ⟨hw, hws⟩ := List.forall_mem_cons.mp h
    cases ws with
    | nil => rwa [commaList_singleton]
    | cons v ws =>
      have hglue : ∀ c ∈ ", ".toList, P c := by simp [hcomma, hblank]
      rw [commaList_cons_cons, String.toList_append, String.toList_append]
      simp only [List.forall_mem_append]
      exact ⟨⟨hw, hglue⟩, ih hws⟩

/-- Commas between the words, and none inside, leave a piece for each word; no word leaves one
empty piece. -/
theorem length_pieces_commaList {words : List String} (h : ∀ w ∈ words, ∀ c ∈ w.toList, c ≠ ',') :
    (Text.pieces (· == ',') (commaList words).toList).length = max 1 words.length := by
  induction words with
  | nil => rfl
  | cons w ws ih =>
    obtain ⟨hw, hws⟩ := List.forall_mem_cons.mp h
    have hsolid : ∀ c ∈ w.toList, (c == ',') = false := by simpa using hw
    cases ws with
    | nil =>
      rw [commaList_singleton, Text.pieces_of_solid hsolid]
      rfl
    | cons v ws =>
      have htext : (commaList (w :: v :: ws)).toList =
          w.toList ++ ',' :: ' ' :: (commaList (v :: ws)).toList := by
        simp [commaList_cons_cons]
      rw [htext, Text.pieces_append_cons _ hsolid rfl, List.length_cons,
        Text.length_pieces_cons (by decide), ih hws]
      simp

/-! ### The search for a header -/

namespace Heuristic.Banking

variable {t r : List Char} {c : Char} {l : String}

theorem actorsHere?_eq_none (h : ¬"Actors".toList <+: t) : actorsHere? t = none := by
  rw [actorsHere?, if_neg]
  rwa [List.isPrefixOf_iff_prefix]

theorem actors?_eq_some {inner : List Char} (h : actorsHere? t = some inner) :
    actors? t = some inner := by
  cases t with
  | nil => cases h
  | cons c t => rw [actors?, h]

/-- The search passes over a text without a header, up to a character that no header has. -/
theorem actors?_append_cons (hc : c ∉ "Actors".toList) (h : Lacks l) :
    actors? (l.toList ++ c :: r) = actors? r := by
  have hpass (t : List Char) (ht : ¬"Actors".toList <:+: t) :
      actors? (t ++ c :: r) = actors? r := by
    induction t with
    | nil =>
      have hnone : actorsHere? (c :: r) = none := actorsHere?_eq_none fun hstart =>
        absurd (Text.prefix_of_prefix_append_cons (a := []) hc hstart) (by decide)
      rw [List.nil_append, actors?, hnone]
    | cons d t ih =>
      rw [List.infix_cons_iff, not_or] at ht
      have hnone : actorsHere? (d :: (t ++ c :: r)) = none := actorsHere?_eq_none fun hstart =>
        ht.1 (Text.prefix_of_prefix_append_cons (a := d :: t) hc hstart)
      rw [List.cons_append, actors?, hnone, ih ht.2]
  exact hpass l.toList h

theorem actors?_joinLines {ls : List String} (h : ∀ l ∈ ls, Lacks l) :
    actors? (joinLines ls ++ r) = actors? r := by
  induction ls with
  | nil => rfl
  | cons l ls ih =>
    obtain ⟨hl, hls⟩ := List.forall_mem_cons.mp h
    rw [joinLines_cons, List.append_assoc, List.cons_append, actors?_append_cons (by decide) hl,
      ih hls]

theorem actorsHere?_header {inner : List Char} (h : ∀ c ∈ inner, c ∉ [']', '\n']) :
    actorsHere? ("Actors: [".toList ++ (inner ++ ']' :: r)) = some inner := by
  have hstart : "Actors".toList.isPrefixOf ("Actors: [".toList ++ (inner ++ ']' :: r)) = true := rfl
  have hcolon : Text.trimStart (("Actors: [".toList ++ (inner ++ ']' :: r)).drop "Actors".length) =
      ':' :: " [".toList ++ (inner ++ ']' :: r) := rfl
  have hbracket : Text.trimStart (" [".toList ++ (inner ++ ']' :: r)) =
      '[' :: (inner ++ ']' :: r) := rfl
  have hinner : (inner ++ ']' :: r).takeWhile (fun c => c != ']' && c != '\n') = inner := by
    rw [List.takeWhile_append_of_pos (by simpa using h)]
    simp
  rw [actorsHere?, if_pos hstart, hcolon]
  simp only [List.cons_append, hbracket, hinner]
  simp

/-- The header of a process comes first in its lines. -/
theorem actors?_process {p : Process} (hname : Lacks p.name)
    (hactors : ∀ a ∈ p.actors, ∀ c ∈ a.toList, c ∉ [']', '\n']) :
    actors? (joinLines p.lines ++ r) = some (commaList p.actors).toList := by
  have hlines : ∃ rest, p.lines = ("Process " ++ p.name ++ " \x7b") ::
      indentLine ("Actors: [" ++ commaList p.actors ++ "]") :: rest := by
    cases p
    exact ⟨_, rfl⟩
  have hhead : Lacks ("Process " ++ p.name ++ " \x7b") :=
    (hname.behind (by decide)).before (by decide)
  have hindent : Lacks "   " := .of_isGlue (by decide)
  have hinner := forall_mem_commaList (by decide) (by decide) hactors
  obtain ⟨rest, hrest⟩ := hlines
  have htext : joinLines p.lines ++ r = ("Process " ++ p.name ++ " \x7b").toList ++ '\n' ::
      ("   ".toList ++ ' ' :: ("Actors: [".toList ++ ((commaList p.actors).toList ++ ']' ::
        ('\n' :: (joinLines rest ++ r))))) := by
    simp [hrest, indentLine]
  rw [htext, actors?_append_cons (by decide) hhead, actors?_append_cons (by decide) hindent]
  exact actors?_eq_some (actorsHere?_header hinner)

end Heuristic.Banking

namespace Document

def firstProcess? (d : Document) : Option Process := d.items.findSome? Item.process?

/-- The first list of actors in a definition written out is that of its first process. -/
theorem actors?_rendering {d : Document} (hphrases : ∀ s ∈ d.phrases, Lacks s)
    (hactors : ∀ p, d.firstProcess? = some p →
      ∀ a ∈ p.actors, ∀ c ∈ a.toList, c ∉ [']', '\n']) :
    Heuristic.Banking.actors? d.rendering.toList =
      d.firstProcess?.map fun p => (commaList p.actors).toList := by
  obtain ⟨source, items⟩ := d
  rw [toList_rendering]
  induction items with
  | nil => rfl
  | cons i is ih =>
    obtain ⟨hi, his⟩ := List.forall_mem_append.mp hphrases
    rw [lines_cons, joinLines_append]
    cases hprocess : i.process? with
    | some p =>
      have hfirst : firstProcess? ⟨source, i :: is⟩ = some p := by simp [firstProcess?, hprocess]
      obtain rfl := Item.eq_of_process? hprocess
      have hname : Lacks p.name := hi p.name p.name_mem_phrases
      rw [hfirst, Item.lines, Heuristic.Banking.actors?_process hname (hactors p hfirst)]
      rfl
    | none =>
      -- any other declaration is passed over, and so is the empty line behind it
      have hfirst : firstProcess? ⟨source, i :: is⟩ = firstProcess? ⟨source, is⟩ := by
        simp [firstProcess?, hprocess]
      rw [Heuristic.Banking.actors?_joinLines (Item.lacks_lines hprocess hi), hfirst]
      cases is with
      | nil => rfl
      | cons j is =>
        rw [if_neg (List.cons_ne_nil _ _), joinLines_cons,
          Heuristic.Banking.actors?_append_cons (by decide) .empty]
        exact ih his (by rwa [hfirst] at hactors)

end Document

namespace Heuristic.Banking

theorem lacksApprover_iff (s : Scan) : (∃ f ∈ wireTransfer.check s, f.code = "WIRE-001") ↔
    s.hasAny ["WireTransfer", "SWIFT", "Fedwire"] = true ∧ s.has "Approve" = true ∧
      singleApprover s = true := by
  simp only [check, List.mem_append, mem_when, List.mem_singleton, Bool.and_eq_true, and_assoc]
  constructor
  · rintro ⟨f, ⟨hwire, happrove, hsingle, rfl⟩ | ⟨-, -, rfl⟩, hcode⟩
    · exact ⟨hwire, happrove, hsingle⟩
    · exact absurd hcode (by decide)
  · rintro ⟨hwire, happrove, hsingle⟩
    exact ⟨_, .inl ⟨hwire, happrove, hsingle, rfl⟩, rfl⟩

theorem singleApprover_iff {d : Document} (hphrases : ∀ s ∈ d.phrases, Lacks s)
    (hactors : ∀ p, d.firstProcess? = some p →
      ∀ a ∈ p.actors, ∀ c ∈ a.toList, c ∉ [',', ']', '\n']) :
    singleApprover (.ofText d.rendering) = true ↔
      ∃ p, d.firstProcess? = some p ∧ p.actors.length < 2 := by
  have hfound := d.actors?_rendering hphrases fun p hp a ha c hc =>
    List.not_mem_of_not_mem_cons (hactors p hp a ha c hc)
  rw [singleApprover, Scan.ofText, hfound]
  cases hfirst : d.firstProcess? with
  | none => simp
  | some p =>
    have hcommas : ∀ a ∈ p.actors, ∀ c ∈ a.toList, c ≠ ',' := fun a ha c hc =>
      List.ne_of_not_mem_cons (hactors p hfirst a ha c hc)
    -- no actor and one actor leave one piece alike, and both are fewer than two
    simp only [Option.map_some, Option.any_some, decide_eq_true_eq,
      length_pieces_commaList hcommas, Option.some.injEq, exists_eq_left']
    omega

end Heuristic.Banking

namespace Document

/-- Where no phrase has a header of actors inside, the text of a definition that was kept as a tree
only is told to lack a second approver just when it speaks of a wire transfer and of an approval,
and its first process declares fewer than two actors. -/
theorem secondApprover_of_firstProcess {d : Document} (hsource : d.source = none)
    (hphrases : ∀ s ∈ d.phrases, ¬"Actors".toList <:+: s.toList)
    (hactors : ∀ p, d.firstProcess? = some p →
      ∀ a ∈ p.actors, ∀ c ∈ a.toList, c ∉ [',', ']', '\n']) :
    (∃ f ∈ Heuristic.Banking.wireTransfer.check (.ofText d.text), f.code = "WIRE-001") ↔
      (∃ word ∈ ["WireTransfer", "SWIFT", "Fedwire"], word.toList <:+: d.text.toList) ∧
        "Approve".toList <:+: d.text.toList ∧
        ∃ p, d.firstProcess? = some p ∧ p.actors.length < 2 := by
  have hsingle := Heuristic.Banking.singleApprover_iff hphrases hactors
  rw [Heuristic.Banking.lacksApprover_iff, Heuristic.Scan.hasAny, List.any_eq_true,
    Heuristic.Scan.has_iff]
  simp only [Heuristic.Scan.has_iff]
  rw [text_of_no_source hsource, hsingle]

/-- A transfer with one approver, and two processes more with two actors each. -/
abbrev approvedTransfer : Document where
  items := [
    .asset { name := "SWIFT" },
    .process
      { name := "Transfer", actors := ["Treasurer"], actions := ["Treasurer Approve DO_Wire"],
        processes := [{ name := "Release", actors := ["Treasurer", "Clerk"] }] },
    .process { name := "Audit", actors := ["Auditor", "Controller"] }]

theorem secondApprover_of_approvedTransfer :
    approvedTransfer.source = none ∧
      (∀ s ∈ approvedTransfer.phrases, ¬"Actors".toList <:+: s.toList) ∧
      (∀ p, approvedTransfer.firstProcess? = some p →
        ∀ a ∈ p.actors, ∀ c ∈ a.toList, c ∉ [',', ']', '\n']) ∧
      ∃ f ∈ Heuristic.Banking.wireTransfer.check (.ofText approvedTransfer.text),
        f.code = "WIRE-001" := by
  have hphrases : ∀ s ∈ approvedTransfer.phrases, ¬"Actors".toList <:+: s.toList := by
    decide +kernel
  have hactors : ∀ p, approvedTransfer.firstProcess? = some p →
      ∀ a ∈ p.actors, ∀ c ∈ a.toList, c ∉ [',', ']', '\n'] := by
    rintro _ ⟨⟩
    simp
  have hwire : Within "SWIFT" approvedTransfer.text :=
    within_text_of_mem_phrases rfl (by decide +kernel)
  have hline : Within "Treasurer Approve DO_Wire" approvedTransfer.text :=
    within_text_of_mem_phrases rfl (by decide +kernel)
  have happrove : Within "Approve" "Treasurer Approve DO_Wire" :=
    Text.occurs_iff.mp (by decide +kernel)
  have htold := (secondApprover_of_firstProcess rfl hphrases hactors).mpr
    ⟨⟨"SWIFT", by decide, hwire⟩, happrove.trans hline, _, rfl, by decide⟩
  exact ⟨rfl, hphrases, hactors, htold⟩

end Document

end ProcessLint
