import Mathlib.Data.Set.Basic
import Mathlib.Data.List.Forall2
import ProcessLint.Dictionary.Basic

/-! Merging a configured dictionary: the loaded tables answer every question by what some domain
lists, whatever the order of the domains and of their lists. -/
namespace ProcessLint
namespace Dictionary

open Identifier (canonical Key)

/-! ### What is listed -/

namespace Domain

/-- The lists of verbs, each under the name of an actor. -/
def verbLists (x : Domain) : List (String × List String) := x.actorVerbs.entries

def readLists (x : Domain) : List (String × List String) :=
  x.actorDataPerms.entries.map fun g => (g.1, g.2.read)

def writeLists (x : Domain) : List (String × List String) :=
  x.actorDataPerms.entries.map fun g => (g.1, g.2.write)

end Domain

namespace Source

/-- A domain that is there: one with a name that is not left open, or the one without a name. -/
def Has (s : Source) (x : Domain) : Prop :=
  (∃ name, (name, some x) ∈ s.domains.entries) ∨ s.domain = some x

theorem mem_allDomains {s : Source} {x : Domain} : x ∈ s.allDomains ↔ s.Has x := by
  simp [allDomains, Has]

/-- Some domain lists the name, in some way to write it. -/
def Lists (s : Source) (names : Domain → List String) (name : String) : Prop :=
  ∃ x, s.Has x ∧ ∃ n ∈ names x, canonical n = canonical name

/-- Everything that any domain lists for an actor, in canonical form, however the actor is written
there. -/
def listedFor (s : Source) (lists : Domain → List (String × List String)) (actor : String) :
    Set String :=
  {k | ∃ x, s.Has x ∧ ∃ l ∈ lists x, canonical l.1 = canonical actor ∧
    ∃ n ∈ l.2, canonical n = k}

def coreTypes (s : Source) : List String := (s.core.map Core.relationshipTypes).getD []

def accessEntries (s : Source) : List (String × String) :=
  (s.core.map fun core => core.verbPermissions.entries).getD []

theorem accessEntries_ordered (s : Source) :
    s.accessEntries.Pairwise fun a b => a.1 < b.1 := by
  unfold accessEntries
  cases s.core with
  | none => exact .nil
  | some core => exact core.verbPermissions.ordered

end Source

/-! ### Tables after all domains -/

theorem mem_map_key {names : List String} {name : String} :
    Key.of name ∈ names.map Key.of ↔ ∃ n ∈ names, canonical n = canonical name := by
  simp [Key.of_eq_of_iff]

def mergeLists (t : Restrictions) (ls : List (String × List String)) : Restrictions :=
  ls.foldl (fun t l => t.merge (.of l.1) (l.2.map Key.of)) t

/-- What an actor is restricted to grows by each list under one of its names, also by those that
are empty. -/
theorem namesOf_mergeLists (t : Restrictions) (ls : List (String × List String)) (actor : Key) :
    (mergeLists t ls).namesOf actor =
      t.namesOf actor ++ ls.flatMap fun l => if actor = .of l.1 then l.2.map Key.of else [] := by
  induction ls generalizing t with
  | nil => simp [mergeLists]
  | cons l ls ih =>
    have h := ih (t.merge (.of l.1) (l.2.map Key.of))
    simp only [mergeLists, List.foldl_cons] at h ⊢
    rw [h]
    simp [List.append_assoc]

theorem foldl_mergeVerbs (d : Dictionary) (ls : List (String × List String)) :
    ls.foldl mergeVerbs d =
      { d with
        performs := mergeLists d.performs ls
        permitted := d.permitted ++ ls.flatMap fun l => l.2.map Key.of } := by
  induction ls generalizing d with
  | nil => simp [mergeLists]
  | cons l ls ih => simp [ih, mergeVerbs, mergeLists]

theorem foldl_mergeGrants (d : Dictionary) (gs : List (String × DataGrants)) :
    gs.foldl mergeGrants d =
      { d with
        reads := mergeLists d.reads (gs.map fun g => (g.1, g.2.read))
        writes := mergeLists d.writes (gs.map fun g => (g.1, g.2.write)) } := by
  induction gs generalizing d with
  | nil => simp [mergeLists]
  | cons g gs ih => simp [ih, mergeGrants, mergeLists]

/-- One domain adds its own names to every table and changes nothing else. -/
theorem mergeDomain_eq (d : Dictionary) (x : Domain) :
    d.mergeDomain x =
      { d with
        actors := d.actors ++ x.actors.map Key.of
        verbs := d.verbs ++ x.verbs.map Key.of
        entities := d.entities ++ x.entities.map Key.of
        dataObjects := d.dataObjects ++ x.dataObjects.map Key.of
        relationshipTypes := d.relationshipTypes ++ x.relationships.map Key.of
        performs := mergeLists d.performs x.verbLists
        reads := mergeLists d.reads x.readLists
        writes := mergeLists d.writes x.writeLists
        permitted := d.permitted ++ x.verbLists.flatMap fun l => l.2.map Key.of } := by
  simp [mergeDomain, foldl_mergeGrants, foldl_mergeVerbs, Domain.verbLists, Domain.readLists,
    Domain.writeLists]

theorem foldl_mergeDomain (d : Dictionary) (xs : List Domain) :
    xs.foldl mergeDomain d =
      { d with
        actors := d.actors ++ xs.flatMap fun x => x.actors.map Key.of
        verbs := d.verbs ++ xs.flatMap fun x => x.verbs.map Key.of
        entities := d.entities ++ xs.flatMap fun x => x.entities.map Key.of
        dataObjects := d.dataObjects ++ xs.flatMap fun x => x.dataObjects.map Key.of
        relationshipTypes :=
          d.relationshipTypes ++ xs.flatMap fun x => x.relationships.map Key.of
        performs := mergeLists d.performs (xs.flatMap Domain.verbLists)
        reads := mergeLists d.reads (xs.flatMap Domain.readLists)
        writes := mergeLists d.writes (xs.flatMap Domain.writeLists)
        permitted :=
          d.permitted ++ xs.flatMap fun x => x.verbLists.flatMap fun l => l.2.map Key.of } := by
  induction xs generalizing d with
  | nil => simp [mergeLists]
  | cons x xs ih => simp [ih, mergeDomain_eq, mergeLists]

/-! ### The access that verbs imply -/

/-- Entries whose access is known, and what is kept of them. -/
def Read (es : List (String × String)) (as : List (Key × Access)) : Prop :=
  List.Forall₂ (fun e a => a.1 = Key.of e.1 ∧ Access.ofName? e.2 = some a.2) es as

theorem read_of_accessesOf {es : List (String × String)} {as : List (Key × Access)}
    (h : accessesOf es = .ok as) : Read es as := by
  induction es generalizing as with
  | nil =>
    cases h
    exact .nil
  | cons e es ih =>
    obtain ⟨verb, value⟩ := e
    simp only [accessesOf] at h
    cases ha : Access.ofName? value with
    | none => simp [ha] at h
    | some a =>
      cases hr : accessesOf es with
      | error u => simp [ha, hr, Except.map] at h
      | ok bs =>
        simp only [ha, hr, Except.map, Except.ok.injEq] at h
        subst h
        exact .cons ⟨rfl, ha⟩ (ih hr)

theorem split_of_accessesOf {es : List (String × String)} {u : UnknownAccess}
    (h : accessesOf es = .error u) :
    ∃ l r, es = l ++ (u.verb, u.value) :: r ∧ Access.ofName? u.value = none ∧
      ∀ e ∈ l, Access.ofName? e.2 ≠ none := by
  induction es with
  | nil => simp [accessesOf] at h
  | cons e es ih =>
    obtain ⟨verb, value⟩ := e
    simp only [accessesOf] at h
    cases ha : Access.ofName? value with
    | none =>
      simp only [ha, Except.error.injEq] at h
      subst h
      exact ⟨[], es, rfl, ha, by simp⟩
    | some a =>
      cases hr : accessesOf es with
      | ok bs => simp [ha, hr, Except.map] at h
      | error w =>
        simp only [ha, hr, Except.map, Except.error.injEq] at h
        subst h
        obtain ⟨l, r, he, hu, hl⟩ := ih hr
        exact ⟨(verb, value) :: l, r, by simp [he], hu, by simpa [ha] using hl⟩

/-- Of the entries of a key this one has the greatest verb. -/
def IsGreatest (es : List (String × String)) (k : Key) (e : String × String) : Prop :=
  e ∈ es ∧ Key.of e.1 = k ∧ ∀ e' ∈ es, Key.of e'.1 = k → e'.1 ≤ e.1

theorem isGreatest_cons_of_mem {es : List (String × String)} {k : Key} {e e₁ : String × String}
    (ho : (e :: es).Pairwise fun a b => a.1 < b.1) (h₁ : e₁ ∈ es) (hk₁ : Key.of e₁.1 = k)
    (e₀ : String × String) : IsGreatest (e :: es) k e₀ ↔ IsGreatest es k e₀ := by
  have hlt := (List.pairwise_cons.mp ho).1
  constructor
  · rintro ⟨he, hk, hmax⟩
    have he₀ : e₀ ∈ es := by
      rcases List.mem_cons.mp he with rfl | he
      · exact absurd (hlt e₁ h₁) (String.not_lt.mpr (hmax e₁ (by simp [h₁]) hk₁))
      · exact he
    exact ⟨he₀, hk, fun e' he' => hmax e' (by simp [he'])⟩
  · rintro ⟨he, hk, hmax⟩
    refine ⟨by simp [he], hk, fun e' he' hk' => ?_⟩
    rcases List.mem_cons.mp he' with rfl | he'
    · exact String.not_lt.mp (String.lt_asymm (hlt e₀ he))
    · exact hmax e' he' hk'

theorem isGreatest_cons_of_forall_ne {es : List (String × String)} {k : Key} {e : String × String}
    (h : ∀ e' ∈ es, Key.of e'.1 ≠ k) (e₀ : String × String) :
    IsGreatest (e :: es) k e₀ ↔ e₀ = e ∧ Key.of e.1 = k := by
  constructor
  · rintro ⟨he, hk, -⟩
    rcases List.mem_cons.mp he with rfl | he
    · exact ⟨rfl, hk⟩
    · exact absurd hk (h e₀ he)
  · rintro ⟨rfl, hk⟩
    refine ⟨by simp, hk, fun e' he' hk' => ?_⟩
    rcases List.mem_cons.mp he' with rfl | he'
    · exact String.le_refl _
    · exact absurd hk' (h e' he')

namespace Read

variable {es : List (String × String)} {as : List (Key × Access)}

theorem known (h : Read es as) : ∀ e ∈ es, Access.ofName? e.2 ≠ none := by
  induction h with
  | nil => simp
  | cons hea _ ih => simpa [hea.2] using ih

theorem keys (h : Read es as) : as.map Prod.fst = es.map fun e => Key.of e.1 := by
  induction h with
  | nil => rfl
  | cons hea _ ih => simp [hea.1, ih]

theorem exists_key_iff (h : Read es as) (k : Key) :
    (∃ a ∈ as, a.1 = k) ↔ ∃ e ∈ es, Key.of e.1 = k := by
  have hk : k ∈ as.map Prod.fst ↔ k ∈ es.map fun e => Key.of e.1 := by rw [h.keys]
  simpa [List.mem_map] using hk

theorem last_eq_none_iff (h : Read es as) (k : Key) :
    (as.reverse.find? fun a => a.1 = k).map Prod.snd = none ↔ ∀ e ∈ es, Key.of e.1 ≠ k := by
  have hk := not_congr (h.exists_key_iff k)
  push Not at hk
  rw [← hk, Option.map_eq_none_iff, List.find?_eq_none]
  simp

theorem last_eq_some_iff (h : Read es as) (ho : es.Pairwise fun a b => a.1 < b.1) (k : Key)
    (access : Access) :
    (as.reverse.find? fun a => a.1 = k).map Prod.snd = some access ↔
      ∃ e, IsGreatest es k e ∧ Access.ofName? e.2 = some access := by
  induction h generalizing access with
  | nil => simp [IsGreatest]
  | @cons e a es as hea hes ih =>
    have ih' := ih (List.pairwise_cons.mp ho).2
    rw [List.reverse_cons, List.find?_append]
    cases hf : as.reverse.find? fun a => a.1 = k with
    | some b =>
      simp only [hf, Option.map_some] at ih'
      obtain ⟨e₁, ⟨h₁, hk₁, -⟩, -⟩ := (ih' b.2).mp rfl
      simp only [isGreatest_cons_of_mem ho h₁ hk₁]
      exact ih' access
    | none =>
      have hnone : ∀ e' ∈ es, Key.of e'.1 ≠ k := (last_eq_none_iff hes k).mp (by rw [hf]; rfl)
      simp only [isGreatest_cons_of_forall_ne hnone]
      by_cases hk : Key.of e.1 = k
      · simp [hea.1, hea.2, hk]
      · simp [hea.1, hk]

end Read

/-! ### The loaded dictionary -/

/-- A dictionary is loaded when the access of every verb is known: the core vocabulary first, then
all domains. -/
theorem ofSource_eq (s : Source) :
    ofSource s = (accessesOf s.accessEntries).map fun verbAccess =>
      s.allDomains.foldl mergeDomain {
        keywords := keywordsOf ((s.core.map Core.reserved).getD [])
        verbAccess
        relationshipTypes := s.coreTypes.map Key.of } := by
  unfold ofSource Source.accessEntries Source.coreTypes
  cases s.core with
  | none => simp [accessesOf, keywordsOf, firsts, Except.map, bind, Except.bind, pure, Except.pure]
  | some core =>
    simp only [Option.map_some, Option.getD_some, mergeCore, bind, Except.bind]
    cases accessesOf core.verbPermissions.entries <;> rfl

/-- Every question about a dictionary is answered by what is listed somewhere in its source. What
nobody restricts is allowed. -/
structure IsUnionOf (d : Dictionary) (s : Source) : Prop where
  hasActor (x : String) : d.hasActor x = true ↔ s.Lists Domain.actors x
  hasVerb (x : String) : d.hasVerb x = true ↔ s.Lists Domain.verbs x
  isRelationshipType (x : String) : d.isRelationshipType x = true ↔
    s.Lists Domain.relationships x ∨ ∃ n ∈ s.coreTypes, canonical n = canonical x
  cataloguesEntity (x : String) : d.cataloguesEntity x = true ↔
    (∀ y, ¬ s.Lists Domain.entities y) ∨ s.Lists Domain.entities x
  cataloguesDataObject (x : String) : d.cataloguesDataObject x = true ↔
    (∀ y, ¬ s.Lists Domain.dataObjects y) ∨ s.Lists Domain.dataObjects x
  hasActorCatalogue : d.hasActorCatalogue = true ↔ ∃ x, s.Lists Domain.actors x
  actorAllows (a v : String) : d.actorAllows a v = true ↔
    s.listedFor Domain.verbLists a = ∅ ∨ canonical v ∈ s.listedFor Domain.verbLists a
  canRead (a o : String) : d.canRead a o = true ↔
    s.listedFor Domain.readLists a = ∅ ∨ canonical o ∈ s.listedFor Domain.readLists a
  canWrite (a o : String) : d.canWrite a o = true ↔
    s.listedFor Domain.writeLists a = ∅ ∨ canonical o ∈ s.listedFor Domain.writeLists a
  verbPermittedByAny (v : String) : d.verbPermittedByAny v = true ↔
    (∀ a, s.listedFor Domain.verbLists a = ∅) ∨
      ∃ a, canonical v ∈ s.listedFor Domain.verbLists a
  accessOf? (v : String) (access : Access) : d.accessOf? v = some access ↔
    ∃ e ∈ s.accessEntries, canonical e.1 = canonical v ∧
      (∀ e' ∈ s.accessEntries, canonical e'.1 = canonical v → e'.1 ≤ e.1) ∧
      Access.ofName? e.2 = some access
  accessOf?_eq_none (v : String) : d.accessOf? v = none ↔
    ∀ e ∈ s.accessEntries, canonical e.1 ≠ canonical v

section

variable {s : Source} {lists : Domain → List (String × List String)} {t : Restrictions}

theorem mem_namesOf_iff (ht : t = mergeLists {} (s.allDomains.flatMap lists)) (a : String)
    (k : Key) : k ∈ t.namesOf (.of a) ↔ k.text ∈ s.listedFor lists a := by
  obtain ⟨_, n₀, rfl⟩ := k
  subst ht
  simp only [namesOf_mergeLists, Restrictions.namesOf_empty, List.nil_append, List.mem_flatMap,
    Source.listedFor, Set.mem_ofPred_eq, Source.mem_allDomains]
  constructor
  · rintro ⟨l, ⟨x, hx, hl⟩, hk⟩
    split at hk
    · rename_i ha
      obtain ⟨n, hn, he⟩ := List.mem_map.mp hk
      exact ⟨x, hx, l, hl, (Key.of_eq_of_iff.mp ha).symm, n, hn, congrArg Key.text he⟩
    · simp at hk
  · rintro ⟨x, hx, l, hl, ha, n, hn, he⟩
    refine ⟨l, ⟨x, hx, hl⟩, ?_⟩
    rw [if_pos (Key.of_eq_of_iff.mpr ha.symm)]
    exact List.mem_map.mpr ⟨n, hn, Key.of_eq_of_iff.mpr he⟩

theorem namesOf_eq_nil_iff (ht : t = mergeLists {} (s.allDomains.flatMap lists)) (a : String) :
    t.namesOf (.of a) = [] ↔ s.listedFor lists a = ∅ := by
  rw [List.eq_nil_iff_forall_not_mem, Set.eq_empty_iff_forall_notMem]
  constructor
  · rintro h k hk
    obtain ⟨x, hx, l, hl, ha, n, hn, rfl⟩ := hk
    exact h (.of n) ((mem_namesOf_iff ht a (.of n)).mpr ⟨x, hx, l, hl, ha, n, hn, rfl⟩)
  · intro h k hk
    exact h k.text ((mem_namesOf_iff ht a k).mp hk)

theorem permits_iff_listedFor (ht : t = mergeLists {} (s.allDomains.flatMap lists))
    (a n : String) : t.permits (.of a) (.of n) = true ↔
      s.listedFor lists a = ∅ ∨ canonical n ∈ s.listedFor lists a := by
  rw [Restrictions.permits_iff, namesOf_eq_nil_iff ht, mem_namesOf_iff ht, Key.text_of]

end

theorem contains_iff_lists {s : Source} {names : Domain → List String} {table : List Key}
    (ht : table = s.allDomains.flatMap fun x => (names x).map Key.of) (n : String) :
    table.contains (.of n) = true ↔ s.Lists names n := by
  subst ht
  simp only [List.contains_iff_mem, List.mem_flatMap, mem_map_key, Source.mem_allDomains,
    Source.Lists]

theorem isEmpty_iff_lists {s : Source} {names : Domain → List String} {table : List Key}
    (ht : table = s.allDomains.flatMap fun x => (names x).map Key.of) :
    table.isEmpty = true ↔ ∀ n, ¬ s.Lists names n := by
  rw [List.isEmpty_iff, List.eq_nil_iff_forall_not_mem]
  constructor
  · intro h n hn
    exact h (.of n) (List.contains_iff_mem.mp ((contains_iff_lists ht n).mpr hn))
  · rintro h ⟨_, n, rfl⟩ hk
    exact h n ((contains_iff_lists ht n).mp (List.contains_iff_mem.mpr hk))

theorem mem_permitted_iff {s : Source} {table : List Key}
    (ht : table = s.allDomains.flatMap fun x => x.verbLists.flatMap fun l => l.2.map Key.of)
    (v : String) : Key.of v ∈ table ↔ ∃ a, canonical v ∈ s.listedFor Domain.verbLists a := by
  subst ht
  simp only [List.mem_flatMap, mem_map_key, Source.mem_allDomains, Source.listedFor,
    Set.mem_ofPred_eq]
  constructor
  · rintro ⟨x, hx, l, hl, n, hn, he⟩
    exact ⟨l.1, x, hx, l, hl, rfl, n, hn, he⟩
  · rintro ⟨a, x, hx, l, hl, -, n, hn, he⟩
    exact ⟨x, hx, l, hl, n, hn, he⟩

theorem permitted_eq_nil_iff {s : Source} {table : List Key}
    (ht : table = s.allDomains.flatMap fun x => x.verbLists.flatMap fun l => l.2.map Key.of) :
    table = [] ↔ ∀ a, s.listedFor Domain.verbLists a = ∅ := by
  rw [List.eq_nil_iff_forall_not_mem]
  constructor
  · intro h a
    refine Set.eq_empty_iff_forall_notMem.mpr fun k hk => ?_
    obtain ⟨x, hx, l, hl, ha, n, hn, rfl⟩ := hk
    exact h (.of n) ((mem_permitted_iff ht n).mpr ⟨a, x, hx, l, hl, ha, n, hn, rfl⟩)
  · rintro h ⟨_, n, rfl⟩ hk
    obtain ⟨a, ha⟩ := (mem_permitted_iff ht n).mp hk
    simp [h a] at ha

theorem isUnionOf_of_ofSource {s : Source} {d : Dictionary} (h : ofSource s = .ok d) :
    d.IsUnionOf s := by
  rw [ofSource_eq] at h
  cases hacc : accessesOf s.accessEntries with
  | error u => simp [hacc, Except.map] at h
  | ok verbAccess =>
    rw [hacc, Except.map, foldl_mergeDomain, Except.ok.injEq] at h
    subst h
    constructor
    case hasActor => exact contains_iff_lists rfl
    case hasVerb => exact contains_iff_lists rfl
    case isRelationshipType =>
      intro x
      rw [isRelationshipType, List.contains_iff_mem, List.mem_append, mem_map_key, or_comm]
      exact or_congr (List.contains_iff_mem.symm.trans (contains_iff_lists rfl x)) Iff.rfl
    case cataloguesEntity =>
      intro x
      rw [cataloguesEntity, Bool.or_eq_true]
      exact or_congr (isEmpty_iff_lists rfl) (contains_iff_lists rfl x)
    case cataloguesDataObject =>
      intro x
      rw [cataloguesDataObject, Bool.or_eq_true]
      exact or_congr (isEmpty_iff_lists rfl) (contains_iff_lists rfl x)
    case hasActorCatalogue =>
      rw [hasActorCatalogue, Bool.not_eq_true', ← Bool.not_eq_true]
      exact (not_congr (isEmpty_iff_lists rfl)).trans (by simp)
    case actorAllows => exact permits_iff_listedFor rfl
    case canRead => exact permits_iff_listedFor rfl
    case canWrite => exact permits_iff_listedFor rfl
    case verbPermittedByAny =>
      intro v
      rw [verbPermittedByAny, Bool.or_eq_true, List.isEmpty_iff, List.contains_iff_mem]
      exact or_congr (permitted_eq_nil_iff rfl) (mem_permitted_iff rfl v)
    case accessOf? =>
      intro v access
      have hlast := (read_of_accessesOf hacc).last_eq_some_iff s.accessEntries_ordered (.of v) access
      simp only [IsGreatest, Key.of_eq_of_iff] at hlast
      rw [accessOf?, hlast]
      simp only [and_assoc]
    case accessOf?_eq_none =>
      intro v
      have hlast := (read_of_accessesOf hacc).last_eq_none_iff (.of v)
      simp only [ne_eq, Key.of_eq_of_iff] at hlast
      rw [accessOf?, hlast]

/-- Loading unites all domains and the core vocabulary, or stops at the first verb whose access is
unknown. -/
theorem ofSource_unites (s : Source) :
    (∃ d, ofSource s = .ok d ∧ d.IsUnionOf s ∧
        ∀ e ∈ s.accessEntries, Access.ofName? e.2 ≠ none) ∨
      ∃ u, ofSource s = .error u ∧ (u.verb, u.value) ∈ s.accessEntries ∧
        Access.ofName? u.value = none ∧
        ∀ e ∈ s.accessEntries, Access.ofName? e.2 = none → u.verb ≤ e.1 := by
  cases hacc : accessesOf s.accessEntries with
  | ok verbAccess =>
    have hok : ∃ d, ofSource s = .ok d := ⟨_, by rw [ofSource_eq, hacc, Except.map]⟩
    obtain ⟨d, hd⟩ := hok
    exact Or.inl ⟨d, hd, isUnionOf_of_ofSource hd, (read_of_accessesOf hacc).known⟩
  | error u =>
    obtain ⟨l, r, he, hu, hl⟩ := split_of_accessesOf hacc
    refine Or.inr ⟨u, by rw [ofSource_eq, hacc, Except.map], by simp [he], hu, fun e hmem hnone => ?_⟩
    have ho := s.accessEntries_ordered
    rw [he] at hmem ho
    rcases List.mem_append.mp hmem with h | h
    · exact absurd hnone (hl e h)
    · rcases List.mem_cons.mp h with rfl | h
      · exact String.le_refl _
      · have hlt := (List.pairwise_cons.mp (List.pairwise_append.mp ho).2.1).1 e h
        exact String.not_lt.mp (String.lt_asymm hlt)

end Dictionary
end ProcessLint
