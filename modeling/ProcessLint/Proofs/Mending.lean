import Mathlib.Algebra.Order.Group.Multiset
import Mathlib.Data.Multiset.Filter
import Mathlib.Tactic.Abel
import ProcessLint.Proofs.Amending
import ProcessLint.Proofs.DeclaredErrors

/-! Changes that take findings away: a larger dictionary, a data object that is declared, and a
relationship that gets another type. None brings other findings but the few that are named here. -/
namespace ProcessLint

/-! ### Findings in any order -/

/-- The finding of a flag without its help. -/
def Flag.plain (f : Flag) : Finding := f.finding.withoutSuggestion

@[simp] theorem Flag.rule_bare (f : Flag) : f.bare.rule = f.rule := by cases f <;> rfl

@[simp] theorem Flag.plain_bare (f : Flag) : f.bare.plain = f.plain := by cases f <;> rfl

/-- The findings of flags without their help, in any order. -/
def plainly (fs : List Flag) : Multiset Finding := (fs.map Flag.plain : List Finding)

@[simp] theorem plainly_nil : plainly [] = 0 := rfl

@[simp] theorem plainly_cons (f : Flag) (fs : List Flag) :
    plainly (f :: fs) = f.plain ::ₘ plainly fs := rfl

@[simp] theorem plainly_append (fs gs : List Flag) :
    plainly (fs ++ gs) = plainly fs + plainly gs := by simp [plainly]

theorem plainly_map_bare (fs : List Flag) : plainly (fs.map Flag.bare) = plainly fs := by
  simp [plainly, Function.comp_def]

theorem plainly_filter_add_le {p q : Flag → Bool} (h : ∀ f, p f = true → q f = false)
    (fs : List Flag) : plainly (fs.filter p) + plainly (fs.filter q) ≤ plainly fs := by
  induction fs with
  | nil => simp
  | cons f fs ih =>
    cases hp : p f with
    | true =>
      have hq := h f hp
      simp only [List.filter_cons, hp, hq, if_true, plainly_cons, Multiset.cons_add]
      exact (Multiset.cons_le_cons_iff _).mpr ih
    | false =>
      cases hq : q f with
      | true =>
        simp only [List.filter_cons, hp, hq, if_true, plainly_cons, Multiset.add_cons]
        exact (Multiset.cons_le_cons_iff _).mpr ih
      | false =>
        simp only [List.filter_cons, hp, hq, plainly_cons]
        exact ih.trans (Multiset.le_cons_self _ _)

def Report.plain (r : Report) : Multiset Finding :=
  (r.findings.map Finding.withoutSuggestion : List Finding)

/-- Between two reports the findings of some flags have gone, and none have come but those of
others. -/
def Mends (before after : Report) (gone come : List Flag) : Prop :=
  after.plain + plainly gone ≤ before.plain + plainly come

theorem subperm_of_new {front new back fewer : List Flag} {f : Flag} (hnew : new.Sublist [f])
    (hfewer : fewer.Sublist back) : (front ++ (new ++ fewer)).Subperm ((front ++ back) ++ [f]) := by
  have hsub : (front ++ (new ++ fewer)).Sublist (front ++ ([f] ++ back)) :=
    (hnew.append hfewer).append_left front
  have hperm : (front ++ ([f] ++ back)).Perm ((front ++ back) ++ [f]) := by
    rw [List.append_assoc]
    exact List.perm_append_comm.append_left front
  exact hsub.subperm.trans hperm.subperm

namespace Validator

theorem flagIf_sublist (holds : Bool) (f : Flag) : (flagIf holds f).Sublist [f] := by
  cases holds <;> simp [flagIf]

def wanted (v : Validator) (fs : List Flag) : List Flag := fs.filter fun f => v.wants f.rule

@[simp] theorem wanted_append (v : Validator) (fs gs : List Flag) :
    v.wanted (fs ++ gs) = v.wanted fs ++ v.wanted gs := List.filter_append ..

def raised (v : Validator) (x : Document) : List Flag := v.wanted (v.allFlags x.events)

/-- The findings of a report are those of the flags, errors first. -/
theorem findings_validate_perm (v : Validator) (x : Document) :
    (v.validate x).findings.Perm ((v.raised x).map Flag.finding) := by
  have hsplit := List.filter_append_perm (fun f => decide (f.severity = .error))
    (v.findings (v.allFlags x.events))
  have hnot : (fun f : Finding => !decide (f.severity = .error)) =
      fun f => decide (f.severity ≠ .error) := by simp
  rw [hnot] at hsplit
  rw [validate, report_eq, addTo_eq]
  exact hsplit

theorem plain_validate (v : Validator) (x : Document) :
    (v.validate x).plain = plainly (v.raised x) := by
  have hperm := (v.findings_validate_perm x).map Finding.withoutSuggestion
  rw [List.map_map] at hperm
  exact Multiset.coe_eq_coe.mpr hperm

theorem plainly_wanted_mono (v : Validator) {fs gs : List Flag} (h : fs.Subperm gs) :
    plainly (v.wanted fs) ≤ plainly (v.wanted gs) := by
  obtain ⟨hs, hperm, hsub⟩ := h.filter fun f => v.wants f.rule
  have hle : (hs.map Flag.plain).Subperm ((v.wanted gs).map Flag.plain) := (hsub.map _).subperm
  exact Multiset.coe_le.mpr ((hperm.map Flag.plain).symm.subperm.trans hle)

theorem plainly_wanted_le (v : Validator) (fs : List Flag) :
    plainly (v.wanted fs) ≤ plainly fs :=
  Multiset.coe_le.mpr (List.filter_sublist.map Flag.plain).subperm

/-- What goes is raised beside some flags that are kept, and what is raised afterwards is among
these and what comes. -/
theorem mends_of_kept {v : Validator} {x y : Document} (kept : List Flag) {gone come : List Flag}
    (hgone : plainly (v.wanted kept) + plainly gone ≤ plainly (v.raised x))
    (hcome : (v.allFlags y.events).Subperm (kept ++ come)) :
    Mends (v.validate x) (v.validate y) gone come := by
  have hraised : plainly (v.raised y) ≤ plainly (v.wanted kept) + plainly come := by
    refine (v.plainly_wanted_mono hcome).trans ?_
    rw [wanted_append, plainly_append]
    exact add_le_add_right (v.plainly_wanted_le come) _
  rw [Mends, plain_validate, plain_validate]
  calc plainly (v.raised y) + plainly gone
      ≤ plainly (v.wanted kept) + plainly come + plainly gone := add_le_add_left hraised _
    _ = plainly (v.wanted kept) + plainly gone + plainly come := add_right_comm ..
    _ ≤ plainly (v.raised x) + plainly come := add_le_add_left hgone _

/-! ### Larger dictionaries -/

section

variable {d e : Dictionary}

/-- With a larger dictionary just the flags are left that it confirms. -/
theorem map_bare_raised (v : Validator) (h : d.Within e) (x : Document) :
    ((v.withDictionary e).raised x).map Flag.bare =
      (((v.withDictionary d).raised x).filter e.confirms).map Flag.bare := by
  have hconfirmed := v.allFlags_confirmed h x.events
  have hwanted (fs : List Flag) : (v.wanted fs).map Flag.bare = v.wanted (fs.map Flag.bare) := by
    simp [wanted, List.filter_map, Function.comp_def]
  calc ((v.withDictionary e).raised x).map Flag.bare
      = v.wanted (((v.withDictionary e).allFlags x.events).map Flag.bare) := hwanted _
    _ = v.wanted ((((v.withDictionary d).allFlags x.events).filter e.confirms).map Flag.bare) := by
        rw [hconfirmed]
    _ = (v.wanted (((v.withDictionary d).allFlags x.events).filter e.confirms)).map Flag.bare :=
        (hwanted _).symm
    _ = (((v.withDictionary d).raised x).filter e.confirms).map Flag.bare := by
        rw [wanted, List.filter_comm]
        rfl

theorem confirms_of_mem_raised (v : Validator) {x : Document} (h : d.Within e) {f : Flag}
    (hf : f ∈ (v.withDictionary e).raised x) : e.confirms f = true := by
  have hmem := List.mem_map_of_mem (f := Flag.bare) hf
  rw [v.map_bare_raised h] at hmem
  obtain ⟨g, hg, hbare⟩ := List.mem_map.mp hmem
  rw [← e.confirms_bare, ← hbare, e.confirms_bare]
  exact (List.mem_filter.mp hg).2

/-- A flag that the larger dictionary does not confirm has gone, and no other has come. -/
theorem mends_of_within (v : Validator) (h : v.dictionary.Within e) (x : Document) {g : Flag}
    (hg : e.confirms g = false) :
    (∀ f ∈ (v.withDictionary e).raised x, f.bare ≠ g.bare) ∧
      Mends (v.validate x) ((v.withDictionary e).validate x)
        ((v.raised x).filter fun f => f = g) [] := by
  constructor
  · intro f hf hbare
    have hconfirms := v.confirms_of_mem_raised h hf
    rw [← e.confirms_bare, hbare, e.confirms_bare, hg] at hconfirms
    cases hconfirms
  · have hraised : plainly ((v.withDictionary e).raised x) =
        plainly ((v.raised x).filter e.confirms) := by
      rw [← plainly_map_bare, v.map_bare_raised h, plainly_map_bare]
      rfl
    rw [Mends, plain_validate, plain_validate, hraised, plainly_nil, Multiset.add_zero]
    refine plainly_filter_add_le (fun f hf => ?_) _
    refine decide_eq_false ?_
    rintro rfl
    rw [hg] at hf
    cases hf

end

/-! ### Changed definitions -/

theorem flagsOf_items_congr (v : Validator) {m m' : Memory} (h : m.names = m'.names)
    (is : List Item) :
    v.flagsOf m (is.flatMap Item.events) = v.flagsOf m' (is.flatMap Item.events) := by
  induction is generalizing m m' with
  | nil => rfl
  | cons i is ih =>
    have hnames : (i.events.foldl Memory.note m).names = (i.events.foldl Memory.note m').names := by
      have h' := h
      simp only [Memory.names, Names.mk.injEq] at h'
      rw [(Memory.foldl_note_item m i).1, (Memory.foldl_note_item m' i).1, h'.1, h'.2]
    rw [List.flatMap_cons, flagsOf_append, flagsOf_append, ih hnames, v.flagsOf_item m,
      v.flagsOf_item m', h]

theorem allFlags_events (v : Validator) (x : Document) :
    v.allFlags x.events =
      v.flagsOf {} (x.items.flatMap Item.events) ++
        (referenceFlags (.ofItems x.items) ++ (enumFlags (.ofItems x.items) ++
          v.hostingFlags (.ofItems x.items))) := by
  have hsettled : (Memory.ofItems x.items).settled = false := rfl
  rw [allFlags, Document.events, flagsOf_append, List.foldl_append, Memory.foldl_note_items_eq]
  simp [flagsOf, flags, settleFlags, Memory.note, hsettled]

theorem allFlags_append (v : Validator) {x : Document} {l r : List Item} (h : x.items = l ++ r) :
    v.allFlags x.events =
      v.flagsOf {} (l.flatMap Item.events) ++ (v.flagsOf (.ofItems l) (r.flatMap Item.events) ++
        (referenceFlags (.ofItems x.items) ++ (enumFlags (.ofItems x.items) ++
          v.hostingFlags (.ofItems x.items)))) := by
  have hitems : v.flagsOf {} (x.items.flatMap Item.events) =
      v.flagsOf {} (l.flatMap Item.events) ++ v.flagsOf (.ofItems l) (r.flatMap Item.events) := by
    rw [h, List.flatMap_append, flagsOf_append, Memory.foldl_note_items_eq]
  rw [allFlags_events, hitems, List.append_assoc]

/-- The flags of a definition, those of one item apart. -/
theorem allFlags_split (v : Validator) {x : Document} {l r : List Item} {i : Item}
    (h : x.items = l ++ i :: r) :
    v.allFlags x.events =
      v.flagsOf {} (l.flatMap Item.events) ++ (v.flagsOf (.ofItems l) i.events ++
        (v.flagsOf (.ofItems (l ++ [i])) (r.flatMap Item.events) ++
          (referenceFlags (.ofItems x.items) ++ (enumFlags (.ofItems x.items) ++
            v.hostingFlags (.ofItems x.items))))) := by
  have hbefore := Memory.foldl_note_items_eq l
  have hwith := Memory.foldl_note_items_eq (l ++ [i])
  rw [List.flatMap_append, List.flatMap_singleton, List.foldl_append, hbefore] at hwith
  rw [v.allFlags_append h, List.flatMap_cons, flagsOf_append, hwith, List.append_assoc]

end Validator

/-! ### A data object that is declared -/

def Flag.misses (o : String) : Flag → Bool
  | .missingDataRef _ missed => missed == o
  | _ => false

theorem Flag.misses_of_rule {o : String} {f : Flag} (h : f.rule ≠ .missingDataRef) :
    f.misses o = false := by
  cases f <;> first | rfl | exact absurd rfl h

/-- The definition with a data object without fields between two parts of its items. -/
def Document.declaring (x : Document) (l r : List Item) (o : String) : Document :=
  { x with items := l ++ .dataObject { name := o } :: r }

namespace Validator

theorem misses_of_mem_items {v : Validator} {m : Memory} {is : List Item} {f : Flag}
    (h : f ∈ v.flagsOf m (is.flatMap Item.events)) (o : String) : f.misses o = false := by
  obtain ⟨ev, hev, hrule⟩ := exists_rule_mem_of_mem_flagsOf h
  obtain ⟨i, -, hi⟩ := List.mem_flatMap.mp hev
  refine Flag.misses_of_rule fun hf => ?_
  rw [hf] at hrule
  by_cases hobject : ∃ d, i = .dataObject d
  · obtain ⟨d, rfl⟩ := hobject
    rw [List.mem_singleton.mp hi] at hrule
    simp [Event.rules] at hrule
  · have hwarns := Item.onlyWarns_events (fun d hd => hobject ⟨d, hd⟩) ev hi _ hrule
    simp [Rule.severity] at hwarns

variable {x : Document} {l r : List Item}

theorem ofItems_declaring (h : x.items = l ++ r) (o : String) :
    ∃ names, Memory.ofItems (x.declaring l r o).items =
        { Memory.ofItems x.items with dataObjects := names } ∧
      ∀ b, names.contains b = ((Memory.ofItems x.items).dataObjects.contains b || b == o) := by
  refine ⟨l.filterMap Item.dataObjectName? ++ o :: r.filterMap Item.dataObjectName?, ?_, ?_⟩
  · simp only [Memory.ofItems, Document.declaring, h, List.filterMap_append, List.flatMap_append]
    rfl
  · intro b
    simp only [Memory.ofItems, h, List.filterMap_append, List.contains_append, List.contains_cons]
    ac_rfl

/-- Of the missing references those to the new data object are gone. -/
theorem referenceFlags_declaring (h : x.items = l ++ r) (o : String) :
    referenceFlags (.ofItems (x.declaring l r o).items) =
      (referenceFlags (.ofItems x.items)).filter fun f => !f.misses o := by
  obtain ⟨names, hmemory, hcontains⟩ := ofItems_declaring h o
  rw [hmemory]
  simp only [referenceFlags, hcontains, List.filter_map, List.filter_filter, Function.comp_def,
    Flag.misses, Bool.not_or, Bool.and_comm]

theorem hostingFlags_declaring (v : Validator) (h : x.items = l ++ r) (o : String) :
    (v.hostingFlags (.ofItems (x.declaring l r o).items)).Sublist
      (v.hostingFlags (.ofItems x.items)) := by
  obtain ⟨names, hmemory, hcontains⟩ := ofItems_declaring h o
  rw [hmemory]
  simp only [hostingFlags]
  split
  · exact List.nil_sublist _
  · rename_i hopen
    -- a catalogue that was declared is declared still
    rw [if_neg]
    intro hclosed
    refine hopen ?_
    simp only [Bool.or_eq_true, List.any_eq_true, hcontains] at hclosed ⊢
    rcases hclosed with hnone | ⟨c, hc, hd⟩
    · exact Or.inl hnone
    · exact Or.inr ⟨c, hc, Or.inl hd⟩

/-- A new data object brings a flag if the dictionary does not have it, and takes those away that
miss it. -/
theorem allFlags_declaring (v : Validator) (h : x.items = l ++ r) (o : String) :
    v.allFlags (x.declaring l r o).events =
      v.flagsOf {} (l.flatMap Item.events) ++
        (flagIf (!v.dictionary.cataloguesDataObject o) (.dictionaryCoverage .dataObject o) ++
          (v.flagsOf (.ofItems l) (r.flatMap Item.events) ++
            ((referenceFlags (.ofItems x.items)).filter (fun f => !f.misses o) ++
              (enumFlags (.ofItems x.items) ++
                v.hostingFlags (.ofItems (x.declaring l r o).items))))) := by
  let new : Item := .dataObject { name := o }
  have hnew : v.flagsOf (.ofItems l) new.events =
      flagIf (!v.dictionary.cataloguesDataObject o) (.dictionaryCoverage .dataObject o) := by
    simp [new, Item.events, flagsOf, flags, dataObjectFlags]
  have hbehind : v.flagsOf (.ofItems (l ++ [new])) (r.flatMap Item.events) =
      v.flagsOf (.ofItems l) (r.flatMap Item.events) := by
    refine v.flagsOf_items_congr ?_ r
    simp [Memory.names, Memory.ofItems, new, Item.entityName?, Item.assetName?]
  have henums : enumFlags (.ofItems (x.declaring l r o).items) =
      enumFlags (.ofItems x.items) := by
    obtain ⟨names, hmemory, -⟩ := ofItems_declaring h o
    rw [hmemory]
    rfl
  rw [v.allFlags_split (i := new) rfl, hnew, hbehind, referenceFlags_declaring h, henums]

/-- A data object that is declared anywhere is no longer missed. -/
theorem mends_declaring (v : Validator) (h : x.items = l ++ r) (o : String) :
    (∀ f ∈ v.raised (x.declaring l r o), f.misses o = false) ∧
      Mends (v.validate x) (v.validate (x.declaring l r o))
        ((v.raised x).filter (Flag.misses o)) [.dictionaryCoverage .dataObject o] := by
  have hfront {f : Flag} (hf : f ∈ v.flagsOf {} (l.flatMap Item.events)) := misses_of_mem_items hf o
  have hbehind {f : Flag} (hf : f ∈ v.flagsOf (.ofItems l) (r.flatMap Item.events)) :=
    misses_of_mem_items hf o
  have henums {m : Memory} {f : Flag} (hf : f ∈ enumFlags m) : f.misses o = false :=
    Flag.misses_of_rule (by rw [rule_of_mem_enumFlags hf]; decide)
  have hhosting {m : Memory} {f : Flag} (hf : f ∈ v.hostingFlags m) : f.misses o = false :=
    Flag.misses_of_rule (by rw [rule_of_mem_hostingFlags hf]; decide)
  constructor
  · intro f hf
    have hmem := (List.mem_filter.mp hf).1
    rw [allFlags_declaring v h] at hmem
    simp only [List.mem_append, mem_flagIf, List.mem_filter, Bool.not_eq_true'] at hmem
    rcases hmem with hf | ⟨-, rfl⟩ | hf | ⟨-, hf⟩ | hf | hf
    · exact hfront hf
    · rfl
    · exact hbehind hf
    · exact hf
    · exact henums hf
    · exact hhosting hf
  · have hkept : (v.allFlags x.events).filter (fun f => !f.misses o) =
        v.flagsOf {} (l.flatMap Item.events) ++ (v.flagsOf (.ofItems l) (r.flatMap Item.events) ++
          ((referenceFlags (.ofItems x.items)).filter (fun f => !f.misses o) ++
            (enumFlags (.ofItems x.items) ++ v.hostingFlags (.ofItems x.items)))) := by
      have hself {fs : List Flag} (hfs : ∀ f ∈ fs, f.misses o = false) :
          fs.filter (fun f => !f.misses o) = fs :=
        List.filter_eq_self.mpr fun f hf => by rw [hfs f hf]; rfl
      rw [v.allFlags_append h]
      simp only [List.filter_append, hself fun f => hfront, hself fun f => hbehind,
        hself fun f => henums, hself fun f => hhosting]
    refine mends_of_kept ((v.allFlags x.events).filter fun f => !f.misses o) ?_ ?_
    · rw [wanted, List.filter_comm]
      exact plainly_filter_add_le (fun f hf => by simpa using hf) _
    · rw [hkept, v.allFlags_declaring h]
      refine subperm_of_new (flagIf_sublist _ _) ?_
      exact (((v.hostingFlags_declaring h o).append_left _).append_left _).append_left _

end Validator

/-! ### A relationship that gets another type -/

theorem Dictionary.isRelationshipType_of_mem_names {d : Dictionary} {name : String}
    (h : name ∈ d.relationshipTypeNames) : d.isRelationshipType name = true := by
  rw [relationshipTypeNames, List.mem_mergeSort] at h
  obtain ⟨k, hk, rfl⟩ := List.mem_map.mp h
  simpa [isRelationshipType] using hk

/-- The definition with another type for the relationship between two parts of its items. -/
def Document.retyping (x : Document) (l : List Item) (rel : Relationship) (r : List Item)
    (type : String) : Document :=
  { x with items := l ++ .relationship { rel with type } :: r }

theorem Item.relationship_mem_events {i : Item} {rel : Relationship}
    (h : .relationship rel ∈ i.events) : i = .relationship rel := by
  cases i with
  | relationship rel' =>
    cases List.mem_singleton.mp h
    rfl
  | process p =>
    have hnot := Process.forall_mem_events (P := fun e => ∀ rel, e ≠ .relationship rel)
      (fun q rel hq => by cases hq) (fun e he rel hrel => by rw [hrel] at he; cases he)
      (fun q rel hq => by cases hq) p _ h
    exact absurd rfl (hnot rel)
  | _ => simp [Item.events] at h

namespace Validator

theorem exists_relationship_of_mem_allFlags {v : Validator} {x : Document} {n t : String}
    {known : List String} (h : .unknownRelationshipType n t known ∈ v.allFlags x.events) :
    (∃ rel, .relationship rel ∈ x.items ∧ rel.name = n ∧ rel.type = t) ∧
      v.dictionary.isRelationshipType t = false ∧ known = v.dictionary.relationshipTypeNames := by
  rw [allFlags] at h
  rcases List.mem_append.mp h with h | h
  · obtain ⟨m, e, he, hf⟩ := exists_mem_flags_of_mem_flagsOf h
    have hrule := rule_mem_of_mem_flags hf
    cases e with
    | relationship rel =>
      have hflag : v.dictionary.isRelationshipType rel.type = false ∧ n = rel.name ∧
          t = rel.type ∧ known = v.dictionary.relationshipTypeNames := by
        rcases List.mem_append.mp hf with hf | hf
        · split at hf
          · cases rule_of_mem_endpointFlags hf
          · cases hf
        · simpa using hf
      obtain ⟨hbad, rfl, rfl, rfl⟩ := hflag
      have hitem : .relationship rel ∈ x.items := by
        rcases List.mem_append.mp he with he | he
        · obtain ⟨i, hi, hrel⟩ := List.mem_flatMap.mp he
          rwa [← Item.relationship_mem_events hrel]
        · simp at he
      exact ⟨⟨rel, hitem, rfl, rfl⟩, hbad, rfl⟩
    | _ => simp [Event.rules, Flag.rule] at hrule
  · have hrule := rule_mem_of_mem_settleFlags h
    simp [Event.rules, Flag.rule] at hrule

variable {x : Document} {l r : List Item} {rel : Relationship}

theorem ofItems_retyping (h : x.items = l ++ .relationship rel :: r) (type : String) :
    Memory.ofItems (x.retyping l rel r type).items =
      { Memory.ofItems x.items with
        relationships := l.filterMap Item.relationship? ++
          (rel.name, type) :: r.filterMap Item.relationship? } := by
  simp only [Memory.ofItems, Document.retyping, h, List.filterMap_append, List.flatMap_append]
  rfl

theorem hostingFlags_retyping (v : Validator) (h : x.items = l ++ .relationship rel :: r)
    (type : String) :
    (v.hostingFlags (.ofItems (x.retyping l rel r type).items)).Subperm
      (v.hostingFlags (.ofItems x.items) ++ [.hostedOnWithoutCatalog rel.name
        v.options.hostedOnType v.options.hostedOnCatalogs]) := by
  have hrelationships : (Memory.ofItems x.items).relationships =
      l.filterMap Item.relationship? ++ (rel.name, rel.type) :: r.filterMap Item.relationship? := by
    simp only [Memory.ofItems, h, List.filterMap_append]
    rfl
  let flag (r : String × String) : Flag :=
    .hostedOnWithoutCatalog r.1 v.options.hostedOnType v.options.hostedOnCatalogs
  have hflags (rs ss : List (String × String)) (t : String) :
      ((rs ++ (rel.name, t) :: ss).filter fun r => v.isHosting r.2).map flag =
        (rs.filter fun r => v.isHosting r.2).map flag ++
          (flagIf (v.isHosting t) (flag (rel.name, t)) ++
            (ss.filter fun r => v.isHosting r.2).map flag) := by
    cases ht : v.isHosting t <;> simp [flagIf, ht]
  rw [ofItems_retyping h]
  simp only [hostingFlags]
  split
  · exact List.nil_subperm
  · rw [hrelationships, hflags, hflags]
    exact subperm_of_new (flagIf_sublist _ _) (List.sublist_append_right _ _)

/-- A relationship whose type is unknown gets one of the dictionary. -/
theorem mends_retyping (v : Validator) (h : x.items = l ++ .relationship rel :: r)
    (hbad : v.dictionary.isRelationshipType rel.type = false)
    (hwants : v.wants .unknownRelationshipType = true) {type : String}
    (htype : type ∈ v.dictionary.relationshipTypeNames) :
    Mends (v.validate x) (v.validate (x.retyping l rel r type))
      [.unknownRelationshipType rel.name rel.type v.dictionary.relationshipTypeNames]
      [.hostedOnWithoutCatalog rel.name v.options.hostedOnType v.options.hostedOnCatalogs] := by
  let y := x.retyping l rel r type
  -- the ends of a relationship are looked up by their names, whatever its type
  let ends := if v.options.warnUnknownAssets then v.endpointFlags (.ofItems l) rel else []
  let unknown : Flag :=
    .unknownRelationshipType rel.name rel.type v.dictionary.relationshipTypeNames
  let front := v.flagsOf {} (l.flatMap Item.events)
  let behind := v.flagsOf (.ofItems (l ++ [.relationship rel])) (r.flatMap Item.events) ++
    (referenceFlags (.ofItems x.items) ++ enumFlags (.ofItems x.items))
  have hold : v.allFlags x.events =
      front ++ (ends ++ ([unknown] ++ (behind ++ v.hostingFlags (.ofItems x.items)))) := by
    have hrel : v.flagsOf (.ofItems l) (Item.relationship rel).events = ends ++ [unknown] := by
      simp [Item.events, flagsOf, flags, relationshipFlags, hbad, flagIf, ends, unknown]
    rw [v.allFlags_split h, hrel]
    simp only [front, behind, List.append_assoc]
  have hnew : v.allFlags y.events =
      front ++ (ends ++ (behind ++ v.hostingFlags (.ofItems y.items))) := by
    have hrel : v.flagsOf (.ofItems l) (Item.relationship { rel with type }).events = ends := by
      have hgood := Dictionary.isRelationshipType_of_mem_names htype
      simp [Item.events, flagsOf, flags, relationshipFlags, hgood, flagIf, ends, endpointFlags]
    have hbehind : v.flagsOf (.ofItems (l ++ [.relationship { rel with type }]))
        (r.flatMap Item.events) =
          v.flagsOf (.ofItems (l ++ [.relationship rel])) (r.flatMap Item.events) := by
      refine v.flagsOf_items_congr ?_ r
      simp only [Memory.names, Memory.ofItems, List.filterMap_append]
      rfl
    have hmemory := ofItems_retyping h type
    have hreferences : referenceFlags (.ofItems y.items) = referenceFlags (.ofItems x.items) := by
      rw [hmemory]
      rfl
    have henums : enumFlags (.ofItems y.items) = enumFlags (.ofItems x.items) := by
      rw [hmemory]
      rfl
    rw [v.allFlags_split (x := y) rfl, hrel, hbehind, hreferences, henums]
    simp only [front, behind, List.append_assoc]
  refine mends_of_kept
    (front ++ (ends ++ (behind ++ v.hostingFlags (.ofItems x.items)))) ?_ ?_
  · have hunknown : v.wanted [unknown] = [unknown] := by
      simp [wanted, unknown, Flag.rule, hwants]
    rw [raised, hold]
    simp only [wanted_append, plainly_append, hunknown]
    exact le_of_eq (by abel)
  · rw [hnew]
    simp only [List.append_assoc, List.subperm_append_left]
    exact v.hostingFlags_retyping h type

end Validator
end ProcessLint
