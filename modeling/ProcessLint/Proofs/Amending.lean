import ProcessLint.Proofs.Extension

/-! Configured dictionaries in which one list is changed: one name more in it, and nothing else is
listed anywhere. -/
namespace ProcessLint

namespace Json.Map

theorem lookup_cons {α : Type} (n : String) (e : String × α) (es : List (String × α)) :
    (e :: es).lookup n = if n = e.1 then some e.2 else es.lookup n := by
  rw [List.lookup_cons]
  by_cases h : n = e.1
  · simp [h]
  · simp [h, beq_eq_false_iff_ne.mpr h]

theorem lookup_insertInto {α : Type} (name : String) (value : α) (es : List (String × α))
    (n : String) :
    (insertInto name value es).lookup n = if n = name then some value else es.lookup n := by
  induction es with
  | nil => rw [insertInto, lookup_cons]
  | cons e es ih =>
    simp only [insertInto]
    split
    · rw [lookup_cons]
    · split
      · rename_i heq
        by_cases hn : n = name <;> simp [lookup_cons, ← heq, hn]
      · rename_i hne
        by_cases hn : n = e.1
        · simp [lookup_cons, hn, Ne.symm hne]
        · simp [lookup_cons, hn, ih]

end Json.Map

namespace Dictionary

open Identifier (canonical)

theorem listUnder_insertInto (name : String) (names : List String)
    (ls : List (String × List String)) (n : String) :
    listUnder (Json.Map.insertInto name names ls) n =
      if n = name then names else listUnder ls n := by
  unfold listUnder
  rw [Json.Map.lookup_insertInto]
  split <;> rfl

/-! ### Changed lists -/

namespace DataGrants

def granted (g : DataGrants) : Access → List String
  | .read => g.read
  | .write => g.write

def withGranted (g : DataGrants) (access : Access) (names : List String) : DataGrants :=
  match access with
  | .read => { g with read := names }
  | .write => { g with write := names }

@[simp] theorem granted_withGranted (g : DataGrants) (access other : Access)
    (names : List String) :
    (g.withGranted access names).granted other =
      if other = access then names else g.granted other := by
  cases access <;> cases other <;> rfl

end DataGrants

namespace Domain

/-- The domain with another list of verbs under an actor. -/
def withVerbs (x : Domain) (actor : String) (verbs : List String) : Domain :=
  { x with actorVerbs := x.actorVerbs.insert actor verbs }

def grantLists (access : Access) (x : Domain) : List (String × List String) :=
  x.actorDataPerms.entries.map fun g => (g.1, g.2.granted access)

theorem grantLists_ordered (access : Access) (x : Domain) :
    (x.grantLists access).Pairwise fun a b => a.1 < b.1 :=
  List.pairwise_map.mpr x.actorDataPerms.ordered

def withGrants (x : Domain) (access : Access) (actor : String) (names : List String) : Domain :=
  let grants := (x.actorDataPerms.entries.lookup actor).getD {}
  { x with actorDataPerms := x.actorDataPerms.insert actor (grants.withGranted access names) }

theorem listUnder_grantLists (access : Access) (x : Domain) (actor : String) :
    listUnder (x.grantLists access) actor =
      ((x.actorDataPerms.entries.lookup actor).getD {}).granted access := by
  have hlookup : (x.grantLists access).lookup actor =
      (x.actorDataPerms.entries.lookup actor).map fun g => g.granted access := by
    unfold grantLists
    generalize x.actorDataPerms.entries = es
    induction es with
    | nil => rfl
    | cons e es ih =>
      rw [List.map_cons, Json.Map.lookup_cons, Json.Map.lookup_cons, ih]
      split <;> rfl
  rw [listUnder, hlookup]
  cases x.actorDataPerms.entries.lookup actor with
  | none => cases access <;> rfl
  | some g => rfl

@[simp] theorem listUnder_verbLists_withVerbs (x : Domain) (actor : String) (verbs : List String)
    (a : String) :
    listUnder (x.withVerbs actor verbs).verbLists a =
      if a = actor then verbs else listUnder x.verbLists a :=
  listUnder_insertInto actor verbs x.verbLists a

@[simp] theorem listUnder_grantLists_withGrants (x : Domain) (access other : Access)
    (actor : String) (names : List String) (a : String) :
    listUnder ((x.withGrants access actor names).grantLists other) a =
      if a = actor ∧ other = access then names else listUnder (x.grantLists other) a := by
  rw [listUnder_grantLists, listUnder_grantLists]
  simp only [withGrants, Json.Map.insert, Json.Map.lookup_insertInto]
  by_cases ha : a = actor
  · simp [ha]
  · simp [ha]

end Domain

namespace Source

/-- The dictionary with another domain at a place. -/
def withDomain (s : Source) (place : Option String) (x : Domain) : Source :=
  match place with
  | some name => { s with domains := s.domains.insert name (some x) }
  | none => { s with domain := some x }

def withCoreTypes (s : Source) (types : List String) : Source :=
  { s with
    core := some
      { s.core.getD { verbPermissions := .ofList [] } with relationshipTypes := types } }

variable {s : Source} {place : Option String} {x y : Domain}

theorem domainAt?_withDomain (s : Source) (place : Option String) (y : Domain)
    (p : Option String) :
    (s.withDomain place y).domainAt? p = if p = place then some y else s.domainAt? p := by
  cases place with
  | none => cases p <;> rfl
  | some name =>
    cases p with
    | none => rfl
    | some n =>
      simp only [withDomain, domainAt?, Json.Map.insert, Json.Map.lookup_insertInto,
        Option.some.injEq]
      split <;> rfl

theorem listAt_withDomain {α : Type} (s : Source) (place : Option String) (y : Domain)
    (names : Domain → List α) (p : Option String) :
    (s.withDomain place y).listAt names p = if p = place then names y else s.listAt names p := by
  rw [listAt, domainAt?_withDomain]
  split <;> rfl

theorem listAt_withDomain_of_eq {α : Type} {names : Domain → List α}
    (hx : s.domainAt? place = some x) (h : names y = names x) (p : Option String) :
    (s.withDomain place y).listAt names p = s.listAt names p := by
  rw [listAt_withDomain]
  split
  · rename_i hp
    rw [hp, listAt, hx, h]
    rfl
  · rfl

end Source

/-! ### Changed lists of a larger dictionary -/

section

variable {s : Source} {place : Option String} {x y : Domain}

theorem Grows.refl (p : Prop) (names : List String) : Grows p names names :=
  ⟨.refl names, .inr rfl⟩

theorem catalogueGrows_withDomain {names : Domain → List String}
    (hx : s.domainAt? place = some x) (h : names y = names x) :
    CatalogueGrows s (s.withDomain place y) names := fun p => by
  rw [Source.listAt_withDomain_of_eq hx h]
  exact .refl _ _

theorem restrictionsGrow_withDomain {lists : Domain → List (String × List String)}
    (hx : s.domainAt? place = some x)
    (h : ∀ a, Grows (s.listedFor lists a).Nonempty (listUnder (lists x) a)
      (listUnder (lists y) a)) :
    RestrictionsGrow s (s.withDomain place y) lists := fun p a => by
  rw [Source.listAt_withDomain]
  split
  · rename_i hp
    rw [hp, Source.listAt, hx]
    exact h a
  · exact .refl _ _

/-- A domain in which only restrictions grow makes a larger dictionary. -/
theorem extends_withDomain (hx : s.domainAt? place = some x)
    (hsame : { y with actorVerbs := x.actorVerbs, actorDataPerms := x.actorDataPerms } = x)
    (hperforms : ∀ a, Grows (s.listedFor Domain.verbLists a).Nonempty
      (listUnder x.verbLists a) (listUnder y.verbLists a))
    (hgrants : ∀ access a, Grows (s.listedFor (Domain.grantLists access) a).Nonempty
      (listUnder (x.grantLists access) a) (listUnder (y.grantLists access) a)) :
    s.Extends (s.withDomain place y) := by
  have hrelationships : y.relationships = x.relationships := by rw [← hsame]
  have hverbs : y.verbs = x.verbs := by rw [← hsame]
  constructor
  case reserved => cases place <;> rfl
  case accessEntries => cases place <;> rfl
  case coreTypes => cases place <;> exact .refl _
  case relationships =>
    intro p
    rw [Source.listAt_withDomain_of_eq hx hrelationships]
  case verbs =>
    intro p
    rw [Source.listAt_withDomain_of_eq hx hverbs]
  case actors => exact catalogueGrows_withDomain hx (by rw [← hsame])
  case entities => exact catalogueGrows_withDomain hx (by rw [← hsame])
  case dataObjects => exact catalogueGrows_withDomain hx (by rw [← hsame])
  case performs => exact restrictionsGrow_withDomain hx hperforms
  case reads => exact restrictionsGrow_withDomain hx (hgrants .read)
  case writes => exact restrictionsGrow_withDomain hx (hgrants .write)

theorem Grows.of_insert {p : Prop} (hp : p) {names l r : List String} (h : names = l ++ r)
    (n : String) : Grows p names (l ++ n :: r) := by
  rw [h]
  exact ⟨(List.sublist_cons_self n r).append_left l, .inl hp⟩

variable {l r : List String} {actor : String}

theorem extends_withVerbs (hx : s.domainAt? place = some x)
    (hlist : listUnder x.verbLists actor = l ++ r)
    (hr : (s.listedFor Domain.verbLists actor).Nonempty) (verb : String) :
    s.Extends (s.withDomain place (x.withVerbs actor (l ++ verb :: r))) := by
  refine extends_withDomain hx rfl (fun a => ?_) fun access a => .refl _ _
  rw [Domain.listUnder_verbLists_withVerbs]
  split
  · rename_i ha
    rw [ha]
    exact .of_insert hr hlist verb
  · exact .refl _ _

theorem extends_withGrants {access : Access} (hx : s.domainAt? place = some x)
    (hlist : listUnder (x.grantLists access) actor = l ++ r)
    (hr : (s.listedFor (Domain.grantLists access) actor).Nonempty) (name : String) :
    s.Extends (s.withDomain place (x.withGrants access actor (l ++ name :: r))) := by
  refine extends_withDomain hx rfl (fun a => .refl _ _) fun other a => ?_
  rw [Domain.listUnder_grantLists_withGrants]
  split
  · rename_i ha
    rw [ha.1, ha.2]
    exact .of_insert hr hlist name
  · exact .refl _ _

theorem extends_withCoreTypes {types : List String} (h : s.coreTypes.Sublist types) :
    s.Extends (s.withCoreTypes types) := by
  constructor
  case reserved =>
    simp only [Source.reserved, Source.withCoreTypes]
    cases s.core <;> rfl
  case accessEntries =>
    simp only [Source.accessEntries, Source.withCoreTypes]
    cases s.core <;> rfl
  case coreTypes => exact h
  case relationships => exact fun p => .refl _
  case verbs => exact fun p => .refl _
  case actors => exact fun p => .refl _ _
  case entities => exact fun p => .refl _ _
  case dataObjects => exact fun p => .refl _ _
  case performs => exact fun p a => .refl _ _
  case reads => exact fun p a => .refl _ _
  case writes => exact fun p a => .refl _ _

/-! ### What the larger dictionary allows -/

/-- A larger dictionary is loaded when the smaller one is. -/
theorem exists_ofSource {t : Source} (h : s.Extends t) {d : Dictionary} (hd : ofSource s = .ok d) :
    ∃ e, ofSource t = .ok e := by
  rw [ofSource_eq] at hd ⊢
  rw [h.accessEntries]
  cases hacc : accessesOf s.accessEntries with
  | error u => simp [hacc, Except.map] at hd
  | ok verbAccess => exact ⟨_, rfl⟩

variable {d e : Dictionary}

theorem nonempty_performs (hd : ofSource s = .ok d) {a verb : String}
    (h : d.actorAllows a verb = false) (ha : canonical actor = canonical a) :
    (s.listedFor Domain.verbLists actor).Nonempty := by
  have hsame : s.listedFor Domain.verbLists actor = s.listedFor Domain.verbLists a := by
    simp only [Source.listedFor, ha]
  rw [hsame]
  refine Set.nonempty_iff_ne_empty.mpr fun hempty => ?_
  have hallows := (isUnionOf_of_ofSource hd).actorAllows a verb
  simp [hempty, h] at hallows

theorem nonempty_grants (hd : ofSource s = .ok d) {access : Access} {a name : String}
    (h : d.permits access a name = false) (ha : canonical actor = canonical a) :
    (s.listedFor (Domain.grantLists access) actor).Nonempty := by
  have hsame : s.listedFor (Domain.grantLists access) actor =
      s.listedFor (Domain.grantLists access) a := by
    simp only [Source.listedFor, ha]
  rw [hsame]
  refine Set.nonempty_iff_ne_empty.mpr fun hempty => ?_
  have hd := isUnionOf_of_ofSource hd
  cases access with
  | read =>
    have hpermits := (hd.canRead a name).mpr (Or.inl hempty)
    exact absurd hpermits (by simpa [permits] using h)
  | write =>
    have hpermits := (hd.canWrite a name).mpr (Or.inl hempty)
    exact absurd hpermits (by simpa [permits] using h)

theorem mem_listedFor_withDomain {lists : Domain → List (String × List String)}
    (ho : ∀ z, (lists z).Pairwise fun a b => a.1 < b.1) {a n : String}
    (ha : canonical actor = canonical a) (hn : n ∈ listUnder (lists y) actor) :
    canonical n ∈ (s.withDomain place y).listedFor lists a := by
  refine (Source.mem_listedFor_iff ho).mpr ⟨place, actor, ha, n, ?_, rfl⟩
  rwa [Source.listAt_withDomain, if_pos rfl]

theorem actorAllows_withVerbs {a verb : String} (ha : canonical actor = canonical a)
    (he : ofSource (s.withDomain place (x.withVerbs actor (l ++ verb :: r))) = .ok e) :
    e.actorAllows a verb = true := by
  refine ((isUnionOf_of_ofSource he).actorAllows a verb).mpr (Or.inr ?_)
  exact mem_listedFor_withDomain Domain.verbLists_ordered ha (by simp)

theorem permits_withGrants {access : Access} {a name : String} (ha : canonical actor = canonical a)
    (he : ofSource (s.withDomain place (x.withGrants access actor (l ++ name :: r))) = .ok e) :
    e.permits access a name = true := by
  have he := isUnionOf_of_ofSource he
  have hmem : canonical name ∈ (s.withDomain place (x.withGrants access actor
      (l ++ name :: r))).listedFor (Domain.grantLists access) a :=
    mem_listedFor_withDomain (Domain.grantLists_ordered access) ha (by simp)
  cases access with
  | read => exact (he.canRead a name).mpr (Or.inr hmem)
  | write => exact (he.canWrite a name).mpr (Or.inr hmem)

theorem isRelationshipType_withCoreTypes {type : String} {types : List String}
    (h : type ∈ types) (he : ofSource (s.withCoreTypes types) = .ok e) :
    e.isRelationshipType type = true :=
  ((isUnionOf_of_ofSource he).isRelationshipType type).mpr (Or.inr ⟨type, h, rfl⟩)

end

end Dictionary
end ProcessLint
