import ProcessLint.Document.Rendering
import ProcessLint.Heuristic.Scan

/-! A definition that is written out keeps every phrase: each name, type, value, actor and line of
its declarations stands somewhere in the text, so what is looked for in a phrase is found. -/
namespace ProcessLint

/-! ### Phrases -/

def trimmedLine (line : String) : String := .ofList (Text.trim line.toList)

namespace Field

def phrases (f : Field) : List String := f.name :: f.type :: f.values.getD [] ++ f.attrs

end Field

namespace Property

def phrases (p : Property) : List String := p.name :: p.type :: p.values.getD [] ++ p.default.toList

end Property

namespace Step

def freeLines (s : Step) : List String :=
  s.inputs ++ s.validations ++ s.actions ++ s.onError ++ s.outputs

def phrases (s : Step) : List String := s.name :: s.freeLines.map trimmedLine

end Step

namespace Process

mutual

/-- The phrases of a process and of the processes inside. -/
def phrases : Process → List String
  | ⟨name, actors, steps, actions, processes⟩ =>
    name :: actors ++ steps.flatMap Step.phrases ++ actions.map trimmedLine ++ allPhrases processes

def allPhrases : List Process → List String
  | [] => []
  | p :: ps => phrases p ++ allPhrases ps

end

theorem name_mem_phrases (p : Process) : p.name ∈ p.phrases := by
  cases p
  exact List.mem_cons_self

end Process

def Item.phrases : Item → List String
  | .dataObject d => d.name :: d.fields.flatMap Field.phrases
  | .entity e => e.name :: e.dataRef :: e.properties.flatMap Property.phrases
  | .asset a => [a.name]
  | .relationship r => [r.name, r.source, r.target, r.type]
  | .process p => p.phrases
  | .rule r => [r.name, r.description, r.trigger]
  | .report r => [r.name, r.query]

/-- Everything that the declarations say in words: names, types, values, attributes and defaults,
references, ends of relationships, actors, free texts, and the lines of processes and their steps
without the blanks around them. -/
def Document.phrases (d : Document) : List String := d.items.flatMap Item.phrases

/-! ### Texts within texts -/

/-- The first text stands somewhere in the second one. -/
def Within (s t : String) : Prop := s.toList <:+: t.toList

namespace Within

variable {r s t : String}

theorem refl (s : String) : Within s s := List.infix_rfl

theorem trans (h : Within r s) (k : Within s t) : Within r t := List.IsInfix.trans h k

theorem behind (h : Within s t) (a : String) : Within s (a ++ t) := by
  rw [Within, String.toList_append]
  exact List.IsInfix.trans h (List.suffix_append _ _).isInfix

theorem before (h : Within s t) (b : String) : Within s (t ++ b) := by
  rw [Within, String.toList_append]
  exact List.IsInfix.trans h (List.prefix_append _ _).isInfix

end Within

theorem within_append_left (s b : String) : Within s (s ++ b) := (Within.refl s).before b

theorem within_append_right (a s : String) : Within s (a ++ s) := (Within.refl s).behind a

/-- One of the lines has the text in it. -/
def Shows (lines : List String) (s : String) : Prop := ∃ l ∈ lines, Within s l

section

variable {ls ks : List String} {l s : String}

@[simp] theorem shows_cons : Shows (l :: ls) s ↔ Within s l ∨ Shows ls s := by simp [Shows]

@[simp] theorem shows_append : Shows (ks ++ ls) s ↔ Shows ks s ∨ Shows ls s := by
  simp only [Shows, List.mem_append, or_and_right, exists_or]

theorem Shows.of_mem (hl : l ∈ ls) (h : Within s l) : Shows ls s := ⟨l, hl, h⟩

theorem Shows.flatMap {α : Type} {f : α → List String} {as : List α} {a : α} (ha : a ∈ as)
    (h : Shows (f a) s) : Shows (as.flatMap f) s :=
  h.imp fun _ hl => ⟨List.mem_flatMap_of_mem ha hl.1, hl.2⟩

theorem Shows.indented (h : Shows ls s) : Shows (ls.map indentLine) s := by
  obtain ⟨l, hl, hs⟩ := h
  exact of_mem (List.mem_map_of_mem hl) (hs.behind _)

theorem shows_block_head (h : Within s l) (body : List String) : Shows (block l body) s :=
  .of_mem List.mem_cons_self (h.before _)

theorem shows_block_body (h : Shows ls s) (head : String) : Shows (block head ls) s := by
  rw [block, shows_append, shows_cons]
  exact .inl (.inr h.indented)

end

/-! ### Lines -/

theorem within_commaList {s : String} {words : List String} (h : s ∈ words) :
    Within s (commaList words) := by
  induction words with
  | nil => cases h
  | cons w ws ih =>
    cases ws with
    | nil =>
      obtain rfl := List.mem_singleton.mp h
      rw [commaList_singleton]
      exact .refl s
    | cons v ws =>
      rw [commaList_cons_cons]
      by_cases hs : s = w
      · rw [hs]
        exact (within_append_left ..).before _
      · exact (ih ((List.mem_cons.mp h).resolve_left hs)).behind _

theorem within_brackets {s : String} {words : List String} (h : s ∈ words) (label : String) :
    Within s (label ++ commaList words ++ "]") := ((within_commaList h).behind _).before _

theorem within_withAttributes_head {s head : String} (h : Within s head)
    (attributes : List String) : Within s (withAttributes head attributes) := by
  rw [withAttributes]
  split
  · exact h
  · rw [String.append_assoc, String.append_assoc]
    exact h.before _

theorem within_withAttributes {s a : String} {attributes : List String} (ha : a ∈ attributes)
    (h : Within s a) (head : String) : Within s (withAttributes head attributes) := by
  have hsome : attributes.isEmpty = false :=
    List.isEmpty_eq_false_iff.mpr (List.ne_nil_of_mem ha)
  rw [withAttributes, hsome, if_neg Bool.false_ne_true]
  exact ((h.trans (within_commaList ha)).behind _).before _

theorem within_dashed (line : String) : Within (trimmedLine line) (dashed line) := by
  rw [dashed, trimmedLine]
  split
  · rename_i h
    rw [h]
    exact .refl _
  · exact (Within.refl _).behind _

theorem shows_labelled {line : String} {lines : List String} (h : line ∈ lines) (label : String) :
    Shows (labelled label lines) (trimmedLine line) := by
  have hsome : lines.isEmpty = false := List.isEmpty_eq_false_iff.mpr (List.ne_nil_of_mem h)
  rw [labelled, hsome, if_neg Bool.false_ne_true]
  apply Shows.of_mem (List.mem_cons_of_mem _ (List.mem_map_of_mem h))
  exact (within_dashed line).behind _

theorem exists_of_mem_getD {α : Type} {o : Option (List α)} {a : α} (h : a ∈ o.getD []) :
    ∃ as, o = some as ∧ a ∈ as := by
  cases o with
  | none => cases h
  | some as => exact ⟨as, rfl, h⟩

theorem Field.within_line (f : Field) : ∀ s ∈ f.phrases, Within s f.line := by
  intro s hs
  simp only [phrases, List.cons_append, List.mem_cons, List.mem_append] at hs
  rcases hs with rfl | rfl | hvalue | hattr
  · apply within_withAttributes_head
    exact (within_append_left ..).before _
  · apply within_withAttributes_head
    exact within_append_right ..
  · obtain ⟨vs, hvalues, hs⟩ := exists_of_mem_getD hvalue
    have hlisted : "values=[" ++ commaList vs ++ "]" ∈ f.attributes := by
      simp [attributes, hvalues]
    exact within_withAttributes hlisted (within_brackets hs _) _
  · have hlisted : s ∈ f.attributes := List.mem_append_right _ hattr
    exact within_withAttributes hlisted (.refl s) _

theorem Property.within_line (p : Property) : ∀ s ∈ p.phrases, Within s p.line := by
  intro s hs
  simp only [phrases, List.cons_append, List.mem_cons, List.mem_append] at hs
  rcases hs with rfl | rfl | hvalue | hdefault
  · apply within_withAttributes_head
    exact (within_append_left ..).before _
  · apply within_withAttributes_head
    exact within_append_right ..
  · obtain ⟨vs, hvalues, hs⟩ := exists_of_mem_getD hvalue
    have hlisted : "values: [" ++ commaList vs ++ "]" ∈ p.attributes := by
      simp [attributes, hvalues]
    exact within_withAttributes hlisted (within_brackets hs _) _
  · have hlisted : "default: " ++ s ∈ p.attributes :=
      List.mem_append_right _ (List.mem_map_of_mem hdefault)
    exact within_withAttributes hlisted (within_append_right ..) _

/-! ### Declarations -/

theorem Step.shows_lines (s : Step) : ∀ t ∈ s.phrases, Shows s.lines t := by
  intro t ht
  rcases List.mem_cons.mp ht with rfl | ht
  · exact shows_block_head (within_append_right ..) _
  · obtain ⟨line, hline, rfl⟩ := List.mem_map.mp ht
    apply shows_block_body
    simp only [freeLines, List.mem_append] at hline
    rcases hline with (((h | h) | h) | h) | h
    · simp [shows_labelled h "Input"]
    · simp [shows_labelled h "Validation"]
    · simp [shows_labelled h "Action"]
    · simp [shows_labelled h "OnError"]
    · simp [shows_labelled h "Output"]

namespace Process

mutual

theorem shows_lines : ∀ p : Process, ∀ s ∈ p.phrases, Shows p.lines s
  | ⟨name, actors, steps, actions, processes⟩ => by
    intro s hs
    simp only [phrases, List.cons_append, List.mem_cons, List.mem_append] at hs
    rw [lines]
    rcases hs with rfl | ((hactor | hstep) | haction) | hinside
    · exact shows_block_head (within_append_right ..) _
    · have hheader := within_brackets hactor "Actors: ["
      exact shows_block_body (by simp [hheader]) _
    · obtain ⟨step, hmem, hs⟩ := List.mem_flatMap.mp hstep
      have hsteps : Shows (steps.flatMap Step.lines) s := .flatMap hmem (step.shows_lines s hs)
      exact shows_block_body (by simp [hsteps]) _
    · obtain ⟨line, hline, rfl⟩ := List.mem_map.mp haction
      exact shows_block_body (by simp [shows_labelled hline "Action"]) _
    · have hprocesses := shows_allLines processes s hinside
      exact shows_block_body (by simp [hprocesses]) _

theorem shows_allLines : ∀ ps : List Process, ∀ s ∈ allPhrases ps, Shows (allLines ps) s
  | [] => by simp [allPhrases]
  | p :: ps => by
    intro s hs
    rw [allLines, shows_append]
    exact (List.mem_append.mp hs).imp (shows_lines p s) (shows_allLines ps s)

end

end Process

theorem Item.shows_lines (i : Item) : ∀ s ∈ i.phrases, Shows i.lines s := by
  intro s hs
  cases i with
  | dataObject d =>
    rcases List.mem_cons.mp hs with rfl | hs
    · exact shows_block_head (within_append_right ..) _
    · obtain ⟨f, hf, hs⟩ := List.mem_flatMap.mp hs
      have hline : Shows (d.fields.map fun f => indentLine f.line) s :=
        .of_mem (List.mem_map_of_mem hf) ((f.within_line s hs).behind _)
      exact shows_block_body (by simp [hline]) _
  | entity e =>
    simp only [phrases, List.mem_cons] at hs
    rcases hs with rfl | rfl | hs
    · exact shows_block_head (within_append_right ..) _
    · apply shows_block_body
      exact .of_mem List.mem_cons_self (within_append_right ..)
    · obtain ⟨p, hp, hs⟩ := List.mem_flatMap.mp hs
      have hsome : e.properties.isEmpty = false :=
        List.isEmpty_eq_false_iff.mpr (List.ne_nil_of_mem hp)
      have hline : Shows (e.properties.map fun p => indentLine p.line) s :=
        .of_mem (List.mem_map_of_mem hp) ((p.within_line s hs).behind _)
      exact shows_block_body (by simp [hsome, hline]) _
  | asset a =>
    obtain rfl := List.mem_singleton.mp hs
    exact .of_mem List.mem_cons_self ((within_append_right ..).before _)
  | relationship r =>
    simp only [phrases, List.mem_cons, List.not_mem_nil, or_false] at hs
    rcases hs with rfl | rfl | rfl | rfl
    · exact shows_block_head (within_append_right ..) _
    · exact shows_block_body (by simp [within_append_right]) _
    · exact shows_block_body (by simp [within_append_right]) _
    · exact shows_block_body (by simp [within_append_right]) _
  | process p => exact p.shows_lines s hs
  | rule r =>
    simp only [phrases, List.mem_cons, List.not_mem_nil, or_false] at hs
    rcases hs with rfl | rfl | rfl
    · exact shows_block_head (within_append_right ..) _
    · have hquoted := (within_append_right "Description: \"" r.description).before "\""
      exact shows_block_body (by simp [hquoted]) _
    · exact shows_block_body (by simp [within_append_right]) _
  | report r =>
    simp only [phrases, List.mem_cons, List.not_mem_nil, or_false] at hs
    rcases hs with rfl | rfl
    · exact shows_block_head (within_append_right ..) _
    · exact shows_block_body (by simp [within_append_right]) _

/-! ### Definitions -/

def joinLines (lines : List String) : List Char := lines.flatMap fun l => l.toList ++ ['\n']

@[simp] theorem joinLines_nil : joinLines [] = [] := rfl

@[simp] theorem joinLines_cons (l : String) (ls : List String) :
    joinLines (l :: ls) = l.toList ++ '\n' :: joinLines ls := by simp [joinLines]

@[simp] theorem joinLines_append (ks ls : List String) :
    joinLines (ks ++ ls) = joinLines ks ++ joinLines ls := by simp [joinLines]

namespace Document

theorem lines_cons (source : Option String) (i : Item) (is : List Item) :
    lines ⟨source, i :: is⟩ = i.lines ++ if is = [] then [] else "" :: lines ⟨source, is⟩ := by
  cases is with
  | nil => simp [lines]
  | cons j is => simp [lines, List.intercalate_cons_cons]

theorem shows_lines (d : Document) : ∀ s ∈ d.phrases, Shows d.lines s := by
  obtain ⟨source, items⟩ := d
  induction items with
  | nil => simp [phrases]
  | cons i is ih =>
    intro s hs
    rw [lines_cons, shows_append]
    rcases List.mem_append.mp hs with h | h
    · exact .inl (i.shows_lines s h)
    · cases is with
      | nil => cases h
      | cons j is =>
        -- an empty line stands before the declarations that follow
        rw [if_neg (List.cons_ne_nil _ _), shows_cons]
        exact .inr (.inr (ih s h))

theorem toList_rendering (d : Document) : d.rendering.toList = joinLines d.lines := by
  simp [rendering, joinLines, List.flatMap_map]

theorem within_rendering {d : Document} {s : String} (h : Shows d.lines s) :
    Within s d.rendering := by
  obtain ⟨l, hl, hs⟩ := h
  obtain ⟨before, after, hlines⟩ := List.append_of_mem hl
  have hline : l.toList <:+: joinLines d.lines := by
    rw [hlines, joinLines_append, joinLines_cons]
    exact List.infix_append' ..
  rw [Within, toList_rendering]
  exact List.IsInfix.trans hs hline

theorem within_rendering_of_mem_phrases {d : Document} {s : String} (hs : s ∈ d.phrases) :
    Within s d.rendering := within_rendering (d.shows_lines s hs)

theorem text_of_no_source {d : Document} (h : d.source = none) : d.text = d.rendering := by
  rw [text, h, Option.getD_none]

theorem within_text_of_mem_phrases {d : Document} {s : String} (hsource : d.source = none)
    (hs : s ∈ d.phrases) : Within s d.text := by
  rw [text_of_no_source hsource]
  exact within_rendering_of_mem_phrases hs

/-- Every phrase of a definition stands in the definition written out. What is looked for in the
text of a definition that was kept as a tree only is found if it stands in one of its phrases. -/
theorem phrases_within_rendering (d : Document) : ∀ s ∈ d.phrases,
    s.toList <:+: d.rendering.toList ∧ (d.source = none → ∀ needle : String,
      needle.toList <:+: s.toList → (Heuristic.Scan.ofText d.text).has needle = true) := by
  intro s hs
  refine ⟨within_rendering_of_mem_phrases hs, fun hsource needle hneedle => ?_⟩
  rw [Heuristic.Scan.has_iff]
  exact hneedle.trans (within_text_of_mem_phrases hsource hs)

/-- A transfer, and a reversal inside of it that can fail. -/
abbrev reversedTransfer : Document where
  items := [
    .dataObject { name := "DO_Wire", fields := [{ name := "amount", type := "Decimal" }] },
    .process
      { name := "Transfer", actors := ["Treasurer"],
        processes := [
          { name := "Reversal",
            steps := [{ name := "Undo", onError := ["  - Clerk Rollback DO_Wire "] }] }] }]

theorem phrases_within_reversedTransfer :
    "- Clerk Rollback DO_Wire" ∈ reversedTransfer.phrases ∧ reversedTransfer.source = none ∧
      "Rollback".toList <:+: "- Clerk Rollback DO_Wire".toList ∧
      "- Clerk Rollback DO_Wire".toList <:+: reversedTransfer.rendering.toList ∧
      (Heuristic.Scan.ofText reversedTransfer.text).has "Rollback" = true := by
  have hphrase : "- Clerk Rollback DO_Wire" ∈ reversedTransfer.phrases := by decide +kernel
  have hneedle : "Rollback".toList <:+: "- Clerk Rollback DO_Wire".toList := by decide +kernel
  obtain ⟨hwithin, hfound⟩ := phrases_within_rendering reversedTransfer _ hphrase
  exact ⟨hphrase, rfl, hneedle, hwithin, hfound rfl "Rollback" hneedle⟩

end Document

end ProcessLint
