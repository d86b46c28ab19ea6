import ProcessLint.Proofs.Loosening
import ProcessLint.Proofs.Merging

/-! Configured dictionaries into whose lists names are inserted. As long as no list that leaves
everything open becomes a restriction, validation tells nothing new. -/
namespace ProcessLint
namespace Dictionary

open Identifier (canonical Key)

/-! ### Lists and where they stand -/

/-- What is listed under a name as it is written; a list that is not there is empty. -/
def listUnder (ls : List (String × List String)) (name : String) : List String :=
  (ls.lookup name).getD []

theorem lookup_eq_some_iff_mem {α : Type} {es : List (String × α)}
    (ho : es.Pairwise fun a b => a.1 < b.1) {name : String} {value : α} :
    es.lookup name = some value ↔ (name, value) ∈ es := by
  constructor
  · intro h
    obtain ⟨l, r, rfl, -⟩ := List.lookup_eq_some_iff.mp h
    simp
  · intro h
    obtain ⟨l, r, rfl⟩ := List.append_of_mem h
    refine List.lookup_eq_some_iff.mpr ⟨l, r, rfl, fun e he => ?_⟩
    have hlt := (List.pairwise_append.mp ho).2.2 e he (name, value) (by simp)
    simpa using (String.ne_of_lt hlt).symm

theorem mem_listUnder_iff {ls : List (String × List String)}
    (ho : ls.Pairwise fun a b => a.1 < b.1) {name n : String} :
    n ∈ listUnder ls name ↔ ∃ l ∈ ls, l.1 = name ∧ n ∈ l.2 := by
  unfold listUnder
  cases hl : ls.lookup name with
  | none =>
    have hnone : ∀ l ∈ ls, l.1 ≠ name := by
      rintro ⟨a, ns⟩ h rfl
      rw [(lookup_eq_some_iff_mem ho).mpr h] at hl
      cases hl
    simp only [Option.getD_none, List.not_mem_nil, false_iff]
    rintro ⟨l, h, hname, -⟩
    exact hnone l h hname
  | some ns =>
    rw [Option.getD_some]
    constructor
    · intro hn
      exact ⟨(name, ns), (lookup_eq_some_iff_mem ho).mp hl, rfl, hn⟩
    · rintro ⟨⟨a, ns'⟩, h, rfl, hn⟩
      rw [(lookup_eq_some_iff_mem ho).mpr h, Option.some.injEq] at hl
      exact hl ▸ hn

namespace Domain

theorem verbLists_ordered (x : Domain) : x.verbLists.Pairwise fun a b => a.1 < b.1 :=
  x.actorVerbs.ordered

theorem readLists_ordered (x : Domain) : x.readLists.Pairwise fun a b => a.1 < b.1 :=
  List.pairwise_map.mpr x.actorDataPerms.ordered

theorem writeLists_ordered (x : Domain) : x.writeLists.Pairwise fun a b => a.1 < b.1 :=
  List.pairwise_map.mpr x.actorDataPerms.ordered

end Domain

namespace Source

def reserved (s : Source) : List String := (s.core.map Core.reserved).getD []

def domainAt? (s : Source) : Option String → Option Domain
  | some name => (s.domains.entries.lookup name).join
  | none => s.domain

/-- What the domain at a place lists; a domain that is not there lists nothing. -/
def listAt {α : Type} (s : Source) (names : Domain → List α) (place : Option String) : List α :=
  ((s.domainAt? place).map names).getD []

theorem has_iff_domainAt? {s : Source} {x : Domain} :
    s.Has x ↔ ∃ place, s.domainAt? place = some x := by
  constructor
  · rintro (⟨name, h⟩ | h)
    · exact ⟨some name, by simp [domainAt?, (lookup_eq_some_iff_mem s.domains.ordered).mpr h]⟩
    · exact ⟨none, h⟩
  · rintro ⟨_ | name, h⟩
    · exact Or.inr h
    · exact Or.inl ⟨name, (lookup_eq_some_iff_mem s.domains.ordered).mp (Option.join_eq_some_iff.mp h)⟩

theorem mem_listAt_iff {α : Type} {s : Source} {names : Domain → List α} {place : Option String}
    {n : α} : n ∈ s.listAt names place ↔ ∃ x, s.domainAt? place = some x ∧ n ∈ names x := by
  unfold listAt
  cases s.domainAt? place <;> simp

theorem lists_iff {s : Source} {names : Domain → List String} {name : String} :
    s.Lists names name ↔ ∃ place, ∃ n ∈ s.listAt names place, canonical n = canonical name := by
  constructor
  · rintro ⟨x, hx, n, hn, he⟩
    obtain ⟨place, hplace⟩ := has_iff_domainAt?.mp hx
    exact ⟨place, n, mem_listAt_iff.mpr ⟨x, hplace, hn⟩, he⟩
  · rintro ⟨place, n, hn, he⟩
    obtain ⟨x, hplace, hn⟩ := mem_listAt_iff.mp hn
    exact ⟨x, has_iff_domainAt?.mpr ⟨place, hplace⟩, n, hn, he⟩

theorem listAt_ordered {s : Source} {lists : Domain → List (String × List String)}
    (ho : ∀ x, (lists x).Pairwise fun a b => a.1 < b.1) (place : Option String) :
    (s.listAt lists place).Pairwise fun a b => a.1 < b.1 := by
  unfold listAt
  cases s.domainAt? place with
  | none => exact .nil
  | some x => exact ho x

theorem mem_listedFor_iff {s : Source} {lists : Domain → List (String × List String)}
    (ho : ∀ x, (lists x).Pairwise fun a b => a.1 < b.1) {actor k : String} :
    k ∈ s.listedFor lists actor ↔ ∃ place a, canonical a = canonical actor ∧
      ∃ n ∈ listUnder (s.listAt lists place) a, canonical n = k := by
  constructor
  · rintro ⟨x, hx, l, hl, ha, n, hn, hk⟩
    obtain ⟨place, hplace⟩ := has_iff_domainAt?.mp hx
    have hmem := mem_listAt_iff.mpr ⟨x, hplace, hl⟩
    exact ⟨place, l.1, ha, n,
      (mem_listUnder_iff (listAt_ordered ho place)).mpr ⟨l, hmem, rfl, hn⟩, hk⟩
  · rintro ⟨place, a, ha, n, hn, hk⟩
    obtain ⟨l, hl, rfl, hmem⟩ := (mem_listUnder_iff (listAt_ordered ho place)).mp hn
    obtain ⟨x, hplace, hl⟩ := mem_listAt_iff.mp hl
    exact ⟨x, has_iff_domainAt?.mpr ⟨place, hplace⟩, l, hl, ha, n, hmem, hk⟩

end Source

/-! ### Inserted names -/

/-- Names are inserted into a list, anywhere in it, unless the list has to stay as it is. -/
def Grows (mayGrow : Prop) (names more : List String) : Prop :=
  names.Sublist more ∧ (mayGrow ∨ more = names)

/-- Names are inserted into the lists of a catalogue, if there are some in it already. -/
def CatalogueGrows (s t : Source) (names : Domain → List String) : Prop :=
  ∀ place, Grows (∃ x, s.Lists names x) (s.listAt names place) (t.listAt names place)

/-- Names are inserted into the lists of actors, if the actor is restricted already. -/
def RestrictionsGrow (s t : Source) (lists : Domain → List (String × List String)) : Prop :=
  ∀ place actor, Grows (s.listedFor lists actor).Nonempty (listUnder (s.listAt lists place) actor)
    (listUnder (t.listAt lists place) actor)

/-- Names are inserted into the lists of a source: verbs and relationship types without a
condition; actors, entities and data objects if some are catalogued already; and what an actor may
perform, read or write if the actor is restricted already. Lists that are not there count as
empty. -/
structure Source.Extends (s t : Source) : Prop where
  reserved : t.reserved = s.reserved
  accessEntries : t.accessEntries = s.accessEntries
  coreTypes : s.coreTypes.Sublist t.coreTypes
  relationships (place : Option String) :
    (s.listAt Domain.relationships place).Sublist (t.listAt Domain.relationships place)
  verbs (place : Option String) :
    (s.listAt Domain.verbs place).Sublist (t.listAt Domain.verbs place)
  actors : CatalogueGrows s t Domain.actors
  entities : CatalogueGrows s t Domain.entities
  dataObjects : CatalogueGrows s t Domain.dataObjects
  performs : RestrictionsGrow s t Domain.verbLists
  reads : RestrictionsGrow s t Domain.readLists
  writes : RestrictionsGrow s t Domain.writeLists

section

variable {s t : Source} {names : Domain → List String}

theorem lists_mono (h : ∀ place, (s.listAt names place).Sublist (t.listAt names place))
    {x : String} (hx : s.Lists names x) : t.Lists names x := by
  obtain ⟨place, n, hn, he⟩ := Source.lists_iff.mp hx
  exact Source.lists_iff.mpr ⟨place, n, (h place).subset hn, he⟩

theorem exists_lists_of_grows (h : CatalogueGrows s t names) {x : String}
    (hx : t.Lists names x) : ∃ y, s.Lists names y := by
  obtain ⟨place, n, hn, he⟩ := Source.lists_iff.mp hx
  rcases (h place).2 with hopen | hsame
  · exact hopen
  · exact ⟨x, Source.lists_iff.mpr ⟨place, n, hsame ▸ hn, he⟩⟩

/-- A catalogue in which everything is while it is empty never forgets a name. -/
theorem catalogues_mono (h : CatalogueGrows s t names) {x : String}
    (hx : (∀ y, ¬ s.Lists names y) ∨ s.Lists names x) :
    (∀ y, ¬ t.Lists names y) ∨ t.Lists names x := by
  refine hx.imp (fun hempty y hy => ?_) (lists_mono fun place => (h place).1)
  obtain ⟨z, hz⟩ := exists_lists_of_grows h hy
  exact hempty z hz

variable {lists : Domain → List (String × List String)}
  (ho : ∀ x, (lists x).Pairwise fun a b => a.1 < b.1) (h : RestrictionsGrow s t lists)

include ho h

theorem listedFor_mono (actor : String) : s.listedFor lists actor ⊆ t.listedFor lists actor := by
  intro k hk
  obtain ⟨place, a, ha, n, hn, he⟩ := (Source.mem_listedFor_iff ho).mp hk
  exact (Source.mem_listedFor_iff ho).mpr ⟨place, a, ha, n, (h place a).1.subset hn, he⟩

theorem listedFor_eq_empty (actor : String) (hs : s.listedFor lists actor = ∅) :
    t.listedFor lists actor = ∅ := by
  refine Set.eq_empty_iff_forall_notMem.mpr fun k hk => ?_
  obtain ⟨place, a, ha, n, hn, he⟩ := (Source.mem_listedFor_iff ho).mp hk
  -- a name is inserted under an actor as it is written, and the restriction is that of its key
  have hactor : s.listedFor lists a = ∅ := by
    rw [← hs]
    unfold Source.listedFor
    rw [ha]
  rcases (h place a).2 with hopen | hsame
  · exact hopen.ne_empty hactor
  · have hk' : k ∈ s.listedFor lists actor :=
      (Source.mem_listedFor_iff ho).mpr ⟨place, a, ha, n, hsame ▸ hn, he⟩
    rw [hs] at hk'
    exact hk'

theorem restriction_mono {actor k : String}
    (hs : s.listedFor lists actor = ∅ ∨ k ∈ s.listedFor lists actor) :
    t.listedFor lists actor = ∅ ∨ k ∈ t.listedFor lists actor :=
  hs.imp (listedFor_eq_empty ho h actor) fun hk => listedFor_mono ho h actor hk

end

/-! ### The loaded dictionaries -/

theorem keywords_of_ofSource {s : Source} {d : Dictionary} (h : ofSource s = .ok d) :
    d.keywords = keywordsOf s.reserved := by
  rw [ofSource_eq] at h
  cases hacc : accessesOf s.accessEntries with
  | error u => simp [hacc, Except.map] at h
  | ok verbAccess =>
    rw [hacc, Except.map, foldl_mergeDomain, Except.ok.injEq] at h
    subst h
    rfl

theorem within_of_extends {s t : Source} (h : s.Extends t) {d e : Dictionary}
    (hd : ofSource s = .ok d) (he : ofSource t = .ok e) : d.Within e := by
  have hs := isUnionOf_of_ofSource hd
  have ht := isUnionOf_of_ofSource he
  constructor
  case keywords => rw [keywords_of_ofSource hd, keywords_of_ofSource he, h.reserved]
  case accessOf? =>
    intro v
    refine Option.ext fun access => ?_
    rw [ht.accessOf?, hs.accessOf?, h.accessEntries]
  case hasActorCatalogue =>
    rw [Bool.eq_iff_iff, ht.hasActorCatalogue, hs.hasActorCatalogue]
    constructor
    · rintro ⟨x, hx⟩
      exact exists_lists_of_grows h.actors hx
    · rintro ⟨x, hx⟩
      exact ⟨x, lists_mono (fun place => (h.actors place).1) hx⟩
  case hasActor =>
    intro x
    rw [hs.hasActor, ht.hasActor]
    exact lists_mono fun place => (h.actors place).1
  case hasVerb =>
    intro x
    rw [hs.hasVerb, ht.hasVerb]
    exact lists_mono h.verbs
  case isRelationshipType =>
    intro x
    rw [hs.isRelationshipType, ht.isRelationshipType]
    refine Or.imp (lists_mono h.relationships) ?_
    rintro ⟨n, hn, hc⟩
    exact ⟨n, h.coreTypes.subset hn, hc⟩
  case cataloguesEntity =>
    intro x
    rw [hs.cataloguesEntity, ht.cataloguesEntity]
    exact catalogues_mono h.entities
  case cataloguesDataObject =>
    intro x
    rw [hs.cataloguesDataObject, ht.cataloguesDataObject]
    exact catalogues_mono h.dataObjects
  case actorAllows =>
    intro a v
    rw [hs.actorAllows, ht.actorAllows]
    exact restriction_mono Domain.verbLists_ordered h.performs
  case verbPermittedByAny =>
    intro v
    rw [hs.verbPermittedByAny, ht.verbPermittedByAny]
    refine Or.imp (fun hempty a => ?_) ?_
    · exact listedFor_eq_empty Domain.verbLists_ordered h.performs a (hempty a)
    · rintro ⟨a, ha⟩
      exact ⟨a, listedFor_mono Domain.verbLists_ordered h.performs a ha⟩
  case permits =>
    intro access a o
    cases access with
    | read =>
      simp only [permits]
      rw [hs.canRead, ht.canRead]
      exact restriction_mono Domain.readLists_ordered h.reads
    | write =>
      simp only [permits]
      rw [hs.canWrite, ht.canWrite]
      exact restriction_mono Domain.writeLists_ordered h.writes

/-- Inserting names into a dictionary creates no findings. Both dictionaries load or neither does,
and whatever the options and the definition, each bucket of the report with the larger dictionary
is, suggestions aside, part of that with the smaller one and in the same order. -/
theorem validate_sublist_of_extends {s t : Source} (h : s.Extends t) :
    (∃ u, ofSource s = .error u ∧ ofSource t = .error u) ∨
      ∃ d e, ofSource s = .ok d ∧ ofSource t = .ok e ∧ ∀ (v : Validator) (x : Document),
        (((v.withDictionary e).validate x).errors.map Finding.withoutSuggestion).Sublist
            (((v.withDictionary d).validate x).errors.map Finding.withoutSuggestion) ∧
          (((v.withDictionary e).validate x).warnings.map Finding.withoutSuggestion).Sublist
            (((v.withDictionary d).validate x).warnings.map Finding.withoutSuggestion) := by
  cases hacc : accessesOf s.accessEntries with
  | error u =>
    refine Or.inl ⟨u, ?_, ?_⟩
    · rw [ofSource_eq, hacc, Except.map]
    · rw [ofSource_eq, h.accessEntries, hacc, Except.map]
  | ok verbAccess =>
    have hd : ∃ d, ofSource s = .ok d := ⟨_, by rw [ofSource_eq, hacc, Except.map]⟩
    have he : ∃ e, ofSource t = .ok e := ⟨_, by rw [ofSource_eq, h.accessEntries, hacc, Except.map]⟩
    obtain ⟨d, hd⟩ := hd
    obtain ⟨e, he⟩ := he
    have hwithin := within_of_extends h hd he
    exact Or.inr ⟨d, e, hd, he, fun v x => v.report_sublist hwithin x.events⟩

/-! ### An extended dictionary -/

def clerks : Domain where
  actors := ["Clerk"]
  actorVerbs := .ofList [("Clerk", ["Approve"])]
  actorDataPerms := .ofList []

def clerksAndAuditors : Domain where
  actors := ["Auditor", "Clerk"]
  verbs := ["Reject"]
  actorVerbs := .ofList [("Clerk", ["Approve", "Reject"])]
  actorDataPerms := .ofList []

abbrev counter : Source where
  domains := .ofList []
  domain := some clerks

abbrev largerCounter : Source where
  domains := .ofList []
  domain := some clerksAndAuditors

theorem counter_extends : counter.Extends largerCounter := by
  have hclerks : counter.Has clerks := Or.inr rfl
  constructor
  case performs =>
    rintro (_ | name) actor
    · by_cases h : actor = "Clerk"
      · subst h
        refine ⟨by decide, Or.inl ⟨canonical "Approve", clerks, hclerks, ("Clerk", ["Approve"]), ?_⟩⟩
        exact ⟨List.mem_singleton_self _, rfl, "Approve", by simp, rfl⟩
      · have hother (names : List String) : listUnder [("Clerk", names)] actor = [] := by
          simp [listUnder, List.lookup_cons, beq_eq_false_iff_ne.mpr h]
        have hs : listUnder (counter.listAt Domain.verbLists none) actor = [] := hother _
        have ht : listUnder (largerCounter.listAt Domain.verbLists none) actor = [] := hother _
        refine ⟨?_, Or.inr (ht.trans hs.symm)⟩
        rw [hs]
        exact List.nil_sublist _
    · exact ⟨.refl _, .inr rfl⟩
  case actors =>
    rintro (_ | name)
    · exact ⟨by decide, Or.inl ⟨"Clerk", clerks, hclerks, "Clerk", by simp [clerks], rfl⟩⟩
    · exact ⟨.refl _, .inr rfl⟩
  case verbs =>
    rintro (_ | name)
    · exact List.nil_sublist _
    · exact .refl _
  case reserved => rfl
  case accessEntries => rfl
  case coreTypes => exact .refl _
  case relationships => rintro (_ | name) <;> exact .refl _
  case entities => rintro (_ | name) <;> exact ⟨.refl _, .inr rfl⟩
  case dataObjects => rintro (_ | name) <;> exact ⟨.refl _, .inr rfl⟩
  case reads => rintro (_ | name) actor <;> exact ⟨.refl _, .inr rfl⟩
  case writes => rintro (_ | name) actor <;> exact ⟨.refl _, .inr rfl⟩

theorem validate_sublist_largerCounter :
    counter.Extends largerCounter ∧
      ((∃ u, ofSource counter = .error u ∧ ofSource largerCounter = .error u) ∨
        ∃ d e, ofSource counter = .ok d ∧ ofSource largerCounter = .ok e ∧
          ∀ (v : Validator) (x : Document),
            (((v.withDictionary e).validate x).errors.map Finding.withoutSuggestion).Sublist
                (((v.withDictionary d).validate x).errors.map Finding.withoutSuggestion) ∧
              (((v.withDictionary e).validate x).warnings.map Finding.withoutSuggestion).Sublist
                (((v.withDictionary d).validate x).warnings.map Finding.withoutSuggestion)) :=
  ⟨counter_extends, validate_sublist_of_extends counter_extends⟩

end Dictionary
end ProcessLint
