import ProcessLint.Proofs.EventRules
import ProcessLint.Proofs.Filtering
import ProcessLint.Proofs.WordRuns

/-! Action lines and their parts: a line is accepted when it can be taken apart into an actor, a
verb and what stands around them, and there is only one way to do it. -/
namespace ProcessLint

open Text (isBlank isNameChar isNameStart isWord touchesWord)

namespace Text

/-- A text is cut in one way only into characters that pass a test and a remainder that starts with
none. -/
theorem append_inj_of_stop {p : Char → Bool} {xs xs' ys ys' : List Char}
    (hx : ∀ c ∈ xs, p c = true) (hx' : ∀ c ∈ xs', p c = true) (hy : ys.head?.any p = false)
    (hy' : ys'.head?.any p = false) (h : xs ++ ys = xs' ++ ys') : xs = xs' ∧ ys = ys' := by
  have htake := congrArg (List.takeWhile p) h
  have hdrop := congrArg (List.dropWhile p) h
  rw [takeWhile_append_stop hx hy, takeWhile_append_stop hx' hy'] at htake
  rw [dropWhile_append_stop hx hy, dropWhile_append_stop hx' hy'] at hdrop
  exact ⟨htake, hdrop⟩

theorem isBlank_of_isNameChar {c : Char} (h : isNameChar c = true) : isBlank c = false :=
  isBlank_of_isWord (isWord_of_isNameChar h)

theorem isNameChar_of_isBlank {c : Char} (h : isBlank c = true) : isNameChar c = false := by
  rw [← Bool.not_eq_true]
  intro hname
  rw [isBlank_of_isNameChar hname] at h
  cases h

theorem isNameChar_of_isAlpha {c : Char} (h : c.isAlpha = true) : isNameChar c = true := by
  simp [isNameChar, Char.isAlphanum, h]

theorem isNameChar_of_isNameStart {c : Char} (h : isNameStart c = true) : isNameChar c = true := by
  simp only [isNameStart, Bool.or_eq_true] at h
  rcases h with h | h
  · exact isNameChar_of_isAlpha h
  · simp [isNameChar, h]

end Text

namespace Action

/-- Name characters, of which there is a first one that passes the test. -/
structure IsName (starts : Char → Bool) (w : List Char) : Prop where
  starts : w.head?.any starts = true
  names : ∀ c ∈ w, isNameChar c = true

structure Parts where
  indent : List Char
  bullet : List Char
  actor : List Char
  gap : List Char
  verb : List Char
  rest : List Char

/-- The parts are those of the line: blanks, a dash with blanks behind it or nothing, the actor,
blanks, at least one, the verb, and what follows, which does not go on with the word. -/
structure Parts.IsReadingOf (p : Parts) (line : List Char) : Prop where
  line_eq : line = p.indent ++ (p.bullet ++ (p.actor ++ (p.gap ++ (p.verb ++ p.rest))))
  indent : ∀ c ∈ p.indent, isBlank c = true
  bullet : p.bullet = [] ∨ ∃ blanks, p.bullet = '-' :: blanks ∧ ∀ c ∈ blanks, isBlank c = true
  actor : IsName isNameStart p.actor
  gap_ne_nil : p.gap ≠ []
  gap : ∀ c ∈ p.gap, isBlank c = true
  verb : IsName Char.isAlpha p.verb
  rest : touchesWord p.rest.head? = false

def Parts.action (p : Parts) : Action := ⟨.ofList p.actor, .ofList p.verb⟩

/-! ### Names -/

namespace IsName

variable {starts : Char → Bool} {w : List Char}

theorem exists_cons (h : IsName starts w) : ∃ c r, w = c :: r ∧ starts c = true := by
  cases w with
  | nil => simpa using h.starts
  | cons c r => exact ⟨c, r, rfl, h.starts⟩

theorem ne_nil (h : IsName starts w) : w ≠ [] := by
  obtain ⟨c, r, rfl, -⟩ := h.exists_cons
  exact List.cons_ne_nil c r

theorem any_isBlank (h : IsName starts w) (rest : List Char) :
    (w ++ rest).head?.any isBlank = false := by
  obtain ⟨c, r, rfl, -⟩ := h.exists_cons
  exact Text.isBlank_of_isNameChar (h.names c List.mem_cons_self)

end IsName

theorem word?_eq_some_iff {starts : Char → Bool}
    (hstarts : ∀ c, starts c = true → isNameChar c = true) {cs w r : List Char} :
    word? starts cs = some (w, r) ↔
      cs = w ++ r ∧ IsName starts w ∧ r.head?.any isNameChar = false := by
  constructor
  · intro h
    cases cs with
    | nil => cases h
    | cons c cs =>
      simp only [word?, Option.ite_none_right_eq_some, Option.some.injEq, Prod.mk.injEq] at h
      obtain ⟨hc, rfl, rfl⟩ := h
      refine ⟨List.takeWhile_append_dropWhile.symm, ⟨?_, fun d => List.mem_takeWhile_imp⟩,
        Text.any_head?_dropWhile _ _⟩
      rw [List.takeWhile_cons_of_pos (hstarts c hc)]
      exact hc
  · rintro ⟨rfl, hw, hr⟩
    have htake := Text.takeWhile_append_stop hw.names hr
    have hdrop := Text.dropWhile_append_stop hw.names hr
    obtain ⟨c, w, rfl, hc⟩ := hw.exists_cons
    rw [List.cons_append] at htake hdrop ⊢
    rw [word?, if_pos hc, htake, hdrop]

/-! ### Lines -/

theorem ofLine?_eq_some_iff {line : String} {a : Action} :
    ofLine? line = some a ↔ ∃ actor r verb rest,
      word? isNameStart (body line.toList) = some (actor, r) ∧ r.head?.any isBlank = true ∧
        word? Char.isAlpha (Text.trimStart r) = some (verb, rest) ∧
        touchesWord rest.head? = false ∧ ⟨.ofList actor, .ofList verb⟩ = a := by
  have hsteps : ofLine? line = (word? isNameStart (body line.toList)).bind fun x =>
      if x.2.head?.any isBlank then
        (word? Char.isAlpha (Text.trimStart x.2)).bind fun y =>
          if touchesWord y.2.head? then none else some ⟨.ofList x.1, .ofList y.1⟩
      else none := by
    simp only [ofLine?]
    cases word? isNameStart (body line.toList) with
    | none => rfl
    | some x => cases hx : x.2.head?.any isBlank <;> simp [hx]
  simp only [hsteps, Option.bind_eq_some_iff, Prod.exists, Option.ite_none_right_eq_some,
    Option.ite_none_left_eq_some, Option.some.injEq, Bool.not_eq_true]
  constructor
  · rintro ⟨actor, r, hactor, hr, verb, rest, hverb, hrest, ha⟩
    exact ⟨actor, r, verb, rest, hactor, hr, hverb, hrest, ha⟩
  · rintro ⟨actor, r, verb, rest, hactor, hr, hverb, hrest, ha⟩
    exact ⟨actor, r, hactor, hr, verb, rest, hverb, hrest, ha⟩

namespace Parts.IsReadingOf

variable {p q : Parts} {line : List Char}

theorem any_isBlank_bullet (h : p.IsReadingOf line) :
    (p.bullet ++ (p.actor ++ (p.gap ++ (p.verb ++ p.rest)))).head?.any isBlank = false := by
  rcases h.bullet with hb | ⟨blanks, hb, -⟩
  · rw [hb, List.nil_append]
    exact h.actor.any_isBlank _
  · rw [hb]
    rfl

theorem any_isNameChar_gap (h : p.IsReadingOf line) :
    (p.gap ++ (p.verb ++ p.rest)).head?.any isNameChar = false := by
  obtain ⟨c, r, hcr⟩ := List.exists_cons_of_ne_nil h.gap_ne_nil
  have hc : isBlank c = true := h.gap c (by simp [hcr])
  rw [hcr]
  exact Text.isNameChar_of_isBlank hc

theorem body_eq (h : p.IsReadingOf line) :
    body line = p.actor ++ (p.gap ++ (p.verb ++ p.rest)) := by
  have htrim : Text.trimStart line = p.bullet ++ (p.actor ++ (p.gap ++ (p.verb ++ p.rest))) := by
    rw [h.line_eq, Text.trimStart, Text.dropWhile_append_stop h.indent h.any_isBlank_bullet]
  rw [body, htrim]
  rcases h.bullet with hb | ⟨blanks, hb, hblanks⟩
  · obtain ⟨c, r, hcr, hc⟩ := h.actor.exists_cons
    have hdash : c ≠ '-' := by
      rintro rfl
      exact absurd hc (by decide)
    rw [hb, hcr, List.nil_append, List.cons_append]
    split
    · rename_i heq
      exact absurd (List.cons.inj heq).1 hdash
    · rfl
  · rw [hb, List.cons_append]
    exact Text.dropWhile_append_stop hblanks (h.actor.any_isBlank _)

theorem ofLine?_eq {line : String} (h : p.IsReadingOf line.toList) :
    ofLine? line = some p.action := by
  have hgap : (p.gap ++ (p.verb ++ p.rest)).head?.any isBlank = true := by
    obtain ⟨c, r, hcr⟩ := List.exists_cons_of_ne_nil h.gap_ne_nil
    rw [hcr]
    exact h.gap c (by simp [hcr])
  have htrim : Text.trimStart (p.gap ++ (p.verb ++ p.rest)) = p.verb ++ p.rest :=
    Text.dropWhile_append_stop h.gap (h.verb.any_isBlank _)
  have hactor := (word?_eq_some_iff (fun _ => Text.isNameChar_of_isNameStart)).mpr
    ⟨h.body_eq, h.actor, h.any_isNameChar_gap⟩
  have hverb := (word?_eq_some_iff (fun _ => Text.isNameChar_of_isAlpha)).mpr
    ⟨htrim, h.verb, Text.any_isNameChar_of_touchesWord h.rest⟩
  exact ofLine?_eq_some_iff.mpr ⟨_, _, _, _, hactor, hgap, hverb, h.rest, rfl⟩

/-- A line can be taken apart in one way only. -/
theorem unique (hp : p.IsReadingOf line) (hq : q.IsReadingOf line) : p = q := by
  obtain ⟨hindent, hline⟩ := Text.append_inj_of_stop hp.indent hq.indent hp.any_isBlank_bullet
    hq.any_isBlank_bullet (hp.line_eq.symm.trans hq.line_eq)
  have hbody := hp.body_eq.symm.trans hq.body_eq
  have hbullet : p.bullet = q.bullet := by
    rw [hbody] at hline
    exact List.append_cancel_right hline
  obtain ⟨hactor, hbody⟩ := Text.append_inj_of_stop hp.actor.names hq.actor.names
    hp.any_isNameChar_gap hq.any_isNameChar_gap hbody
  obtain ⟨hgap, hbody⟩ := Text.append_inj_of_stop hp.gap hq.gap (hp.verb.any_isBlank _)
    (hq.verb.any_isBlank _) hbody
  obtain ⟨hverb, hrest⟩ := Text.append_inj_of_stop hp.verb.names hq.verb.names
    (Text.any_isNameChar_of_touchesWord hp.rest) (Text.any_isNameChar_of_touchesWord hq.rest) hbody
  cases p
  cases q
  simp_all

end Parts.IsReadingOf

theorem exists_eq_append_body (line : List Char) :
    ∃ indent bullet, line = indent ++ (bullet ++ body line) ∧
      (∀ c ∈ indent, isBlank c = true) ∧
      (bullet = [] ∨ ∃ blanks, bullet = '-' :: blanks ∧ ∀ c ∈ blanks, isBlank c = true) := by
  have hline : line = line.takeWhile isBlank ++ Text.trimStart line :=
    List.takeWhile_append_dropWhile.symm
  have hindent : ∀ c ∈ line.takeWhile isBlank, isBlank c = true := fun c => List.mem_takeWhile_imp
  rw [body]
  split
  · rename_i r hr
    refine ⟨line.takeWhile isBlank, '-' :: r.takeWhile isBlank, ?_, hindent,
      Or.inr ⟨_, rfl, fun c => List.mem_takeWhile_imp⟩⟩
    rw [List.cons_append, Text.trimStart, List.takeWhile_append_dropWhile, ← hr]
    exact hline
  · exact ⟨line.takeWhile isBlank, [], hline, hindent, Or.inl rfl⟩

theorem exists_reading {line : String} {a : Action} (h : ofLine? line = some a) :
    ∃ p : Parts, p.IsReadingOf line.toList := by
  obtain ⟨actor, r, verb, rest, hactor, hr, hverb, hrest, -⟩ := ofLine?_eq_some_iff.mp h
  obtain ⟨hbody, hactor, -⟩ :=
    (word?_eq_some_iff fun _ => Text.isNameChar_of_isNameStart).mp hactor
  obtain ⟨htrim, hverb, -⟩ := (word?_eq_some_iff fun _ => Text.isNameChar_of_isAlpha).mp hverb
  obtain ⟨indent, bullet, hline, hindent, hbullet⟩ := exists_eq_append_body line.toList
  have hgap : r = r.takeWhile isBlank ++ (verb ++ rest) := by
    rw [← htrim]
    exact List.takeWhile_append_dropWhile.symm
  refine ⟨⟨indent, bullet, actor, r.takeWhile isBlank, verb, rest⟩, ?_, hindent, hbullet, hactor,
    ?_, fun c => List.mem_takeWhile_imp, hverb, hrest⟩
  · rw [← hgap, ← hbody]
    exact hline
  · cases r with
    | nil => cases hr
    | cons c r =>
      have hc : isBlank c = true := hr
      simp [hc]

theorem ofLine?_eq_none {line : String} (h : ¬∃ p : Parts, p.IsReadingOf line.toList) :
    ofLine? line = none :=
  Option.eq_none_iff_forall_ne_some.mpr fun _ ha => h (exists_reading ha)

end Action

/-- A finding on an action, word for word: it names the actor, the verb or both. -/
inductive Finding.IsAbout (actor verb : String) : Finding → Prop
  | unknownActor : IsAbout actor verb ⟨"EBL007", "unknown-actor", .warning,
      "Action actor '" ++ actor ++ "' not in dictionary.", none⟩
  | unknownVerb : IsAbout actor verb ⟨"EBL008", "unknown-verb", .warning,
      "Verb '" ++ verb ++ "' not in domain verb list.", none⟩
  | neverPermitted : IsAbout actor verb ⟨"EBL009", "verb-never-permitted", .warning,
      "Verb '" ++ verb ++ "' is never permitted by any actor in the domain whitelist.", none⟩
  | notAllowed : IsAbout actor verb ⟨"EBL010", "actor-verb-not-allowed", .warning,
      "Actor '" ++ actor ++ "' not allowed to perform '" ++ verb ++ "'.",
      some ("Add '" ++ verb ++ "' to actor '" ++ actor ++ "' permissions in dictionary")⟩
  | noPermission (dataObject : String) {access title : String}
      (h : (access, title) ∈ [("read", "READ"), ("write", "WRITE")]) :
      IsAbout actor verb ⟨"EBL011", "data-permission", .warning,
        "Actor '" ++ actor ++ "' lacks " ++ title ++ " permission on '" ++ dataObject ++
          "' (verb '" ++ verb ++ "').",
        some ("Add " ++ access ++ " permission for '" ++ actor ++ "' on '" ++ dataObject ++
          "' in actorDataPerms")⟩

theorem Finding.IsAbout.isOf_actionShape {actor verb : String} {x : Finding}
    (h : x.IsAbout actor verb) : x.isOf .actionShape = false := by
  cases h <;> rfl

namespace Validator

variable {v : Validator} {line : String}

theorem isAbout_of_mem_tokenFlags {a : Action} {t : DataToken} {f : Flag}
    (h : f ∈ v.tokenFlags a t) : f.finding.IsAbout a.actor a.verb := by
  simp only [tokenFlags] at h
  split at h
  · rename_i access _
    obtain ⟨-, rfl⟩ := mem_flagIf.mp h
    exact .noPermission t.name (by cases access <;> decide)
  · simp at h

theorem isAbout_of_mem_actionFlags {a : Action} (ha : Action.ofLine? line = some a) {f : Flag}
    (h : f ∈ v.actionFlags line) : f.finding.IsAbout a.actor a.verb := by
  simp only [actionFlags, ha, List.mem_append, mem_flagIf, List.mem_flatMap] at h
  rcases h with h | ⟨t, -, ht⟩
  · rcases h with ((⟨-, rfl⟩ | ⟨-, rfl⟩) | ⟨-, rfl⟩) | ⟨-, rfl⟩
    · exact .unknownActor
    · exact .unknownVerb
    · exact .neverPermitted
    · exact .notAllowed
  · exact isAbout_of_mem_tokenFlags ht

theorem addTo_actionFlags (v : Validator) (r : Report) (line : String) :
    v.addTo r (v.actionFlags line) =
      { r with warnings := r.warnings ++ v.findings (v.actionFlags line) } := by
  have hwarning : ∀ f ∈ v.actionFlags line, f.rule.severity ≠ .error := by
    intro f hf
    have hrule := rule_mem_of_mem_actionFlags hf
    simp only [Event.rules, List.mem_cons, List.not_mem_nil, or_false] at hrule
    rcases hrule with h | h | h | h | h | h <;> (rw [h]; decide)
  rw [addTo_eq, errorsOf_eq_nil hwarning, warningsOf_eq_findings hwarning, List.append_nil]

/-- An action is marked in the innermost scope. -/
theorem step_action (v : Validator) {p : Action.Parts} (hp : p.IsReadingOf line.toList)
    (s : Session) :
    ∃ xs : List Finding, (∀ x ∈ xs, x.IsAbout (.ofList p.actor) (.ofList p.verb)) ∧
      v.step s (.action line) =
        { memory :=
            { s.memory with
              scopes := match s.memory.scopes with
                | [] => []
                | t :: ts => { t with used := .ofList p.actor :: t.used } :: ts }
          report := { s.report with warnings := s.report.warnings ++ xs } } := by
  refine ⟨v.findings (v.actionFlags line), fun x hx => ?_, ?_⟩
  · obtain ⟨f, hf, -, rfl⟩ := mem_findings.mp hx
    exact isAbout_of_mem_actionFlags hp.ofLine?_eq hf
  have hmemory : s.memory.note (.action line) = s.memory.use (.ofList p.actor) := by
    rw [Memory.note, hp.ofLine?_eq]
    rfl
  rw [step, hmemory, flags, addTo_actionFlags, Memory.use]
  cases hs : s.memory.scopes with
  | nil => simp [← hs]
  | cons t ts => simp

/-- A line that is no action is told and leaves the scopes alone. -/
theorem step_no_action (v : Validator)
    (h : ¬∃ p : Action.Parts, p.IsReadingOf line.toList) (s : Session) :
    v.step s (.action line) =
      { s with
        report :=
          { s.report with
            warnings := s.report.warnings ++
              if v.disabled.contains .actionShape then []
              else [(Flag.actionShape line).finding] } } := by
  have hnone := Action.ofLine?_eq_none h
  have hflags : v.actionFlags line = [.actionShape line] := by rw [actionFlags, hnone]
  have htold : v.findings [.actionShape line] =
      if v.disabled.contains .actionShape then [] else [(Flag.actionShape line).finding] :=
    v.findings_unless_disabled rfl (by simp [Flag.rule])
  have hmemory : s.memory.note (.action line) = s.memory := by rw [Memory.note, hnone]
  rw [step, hmemory, flags, addTo_actionFlags, hflags, htold]

/-- A line is an action when it can be taken apart into blanks, a dash or none, an actor, blanks, a
verb and a remainder that does not go on with the word. It can be taken apart in one way at most.
The findings on an action name this actor and this verb, and the actor is marked in the innermost
scope. Of a line that is no action it is told that it is none, once, and nothing else happens. -/
theorem actions_of_lines (v : Validator) (line : String) :
    (∀ p q : Action.Parts, p.IsReadingOf line.toList → q.IsReadingOf line.toList → p = q) ∧
    (∀ s : Session,
      (v.step s (.action line)).report.filter (·.isOf .actionShape) =
        s.report.filter (·.isOf .actionShape) ↔
          v.disabled.contains .actionShape ∨ ∃ p : Action.Parts, p.IsReadingOf line.toList) ∧
    (∀ p : Action.Parts, p.IsReadingOf line.toList → ∀ s : Session,
      ∃ xs : List Finding, (∀ x ∈ xs, x.IsAbout (.ofList p.actor) (.ofList p.verb)) ∧
        v.step s (.action line) =
          { memory :=
              { s.memory with
                scopes := match s.memory.scopes with
                  | [] => []
                  | t :: ts => { t with used := .ofList p.actor :: t.used } :: ts }
            report := { s.report with warnings := s.report.warnings ++ xs } }) ∧
    ((¬∃ p : Action.Parts, p.IsReadingOf line.toList) → ∀ s : Session,
      v.step s (.action line) =
        { s with
          report :=
            { s.report with
              warnings := s.report.warnings ++
                if v.disabled.contains .actionShape then []
                else [(Flag.actionShape line).finding] } }) := by
  refine ⟨fun p q => Action.Parts.IsReadingOf.unique, fun s => ?_, fun p hp => v.step_action hp,
    v.step_no_action⟩
  by_cases hp : ∃ p : Action.Parts, p.IsReadingOf line.toList
  · obtain ⟨p, hp⟩ := hp
    obtain ⟨xs, hxs, hstep⟩ := v.step_action hp s
    have hnone : xs.filter (·.isOf .actionShape) = [] :=
      List.filter_eq_nil_iff.mpr fun x hx => by simp [(hxs x hx).isOf_actionShape]
    rw [hstep]
    simp only [Report.filter, List.filter_append, hnone, List.append_nil, true_iff]
    exact Or.inr ⟨p, hp⟩
  · rw [v.step_no_action hp]
    cases hd : v.disabled.contains .actionShape <;>
      simp [Report.filter, hp, Flag.rule]

def clerks : Validator where
  dictionary :=
    { actors := [.of "Clerk"], verbs := [.of "Read"], permitted := [.of "Read"]
      verbAccess := [(.of "Pay", .write)]
      performs := ⟨[(.of "Teller", [.of "Read"])],
        List.forall_mem_singleton.mpr (List.cons_ne_nil _ _)⟩
      reads := ⟨[(.of "Teller", [.of "DO_Till"])],
        List.forall_mem_singleton.mpr (List.cons_ne_nil _ _)⟩
      writes := ⟨[(.of "Teller", [.of "DO_Till"])],
        List.forall_mem_singleton.mpr (List.cons_ne_nil _ _)⟩ }

theorem actions_of_lines_teller :
    let s := clerks.step { memory := { scopes := [{}] } } (.action " -\tTeller  Pay DO_Loan, then")
    (s.memory.scopes = [{ used := ["Teller"] }] ∧
      (∀ x ∈ s.report.warnings, x.IsAbout "Teller" "Pay") ∧
      s.report.warnings.map Finding.code = ["EBL007", "EBL008", "EBL009", "EBL010", "EBL011"]) ∧
    (clerks.step {} (.action "- Teller Payé")).report =
      { warnings :=
          [⟨"EBL006", "action-shape", .warning,
            "Action missing explicit 'Actor Verb' prefix; use '- <Actor> <Verb> ...'",
            some "Rewrite as '- <Actor> <Verb> Teller Payé'"⟩] } := by
  constructor
  · obtain ⟨-, -, hread, -⟩ := clerks.actions_of_lines " -\tTeller  Pay DO_Loan, then"
    let p : Action.Parts :=
      ⟨[' '], ['-', '\t'], "Teller".toList, [' ', ' '], "Pay".toList, " DO_Loan, then".toList⟩
    have hp : p.IsReadingOf " -\tTeller  Pay DO_Loan, then".toList := by
      refine ⟨rfl, List.all_eq_true.mp ?_, Or.inr ⟨['\t'], rfl, List.all_eq_true.mp ?_⟩,
        ⟨?_, List.all_eq_true.mp ?_⟩, ?_, List.all_eq_true.mp ?_, ⟨?_, List.all_eq_true.mp ?_⟩,
        ?_⟩ <;> decide +kernel
    obtain ⟨xs, hxs, hstep⟩ := hread p hp { memory := { scopes := [{}] } }
    refine ⟨?_, ?_, by decide +kernel⟩
    · rw [hstep]
      rfl
    · rw [hstep]
      exact hxs
  · obtain ⟨-, -, -, hnone⟩ := clerks.actions_of_lines "- Teller Payé"
    have hp : ¬∃ p : Action.Parts, p.IsReadingOf "- Teller Payé".toList := by
      rintro ⟨p, hp⟩
      have hunread : Action.ofLine? "- Teller Payé" = none := by decide +kernel
      rw [hp.ofLine?_eq] at hunread
      cases hunread
    rw [hnone hp]
    decide +kernel

/-- A verb does not end where a letter that is no name character goes on with the word. -/
example : Action.ofLine? "  -\tTeller  Pay, then" = some ⟨"Teller", "Pay"⟩ ∧
    Action.ofLine? "- Teller Payé" = none ∧ Action.ofLine? "-- Teller Pay" = none := by
  decide +kernel

end Validator
end ProcessLint
