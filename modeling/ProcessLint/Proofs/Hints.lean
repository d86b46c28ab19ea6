import ProcessLint.Proofs.Mending

/-! The help of findings. Where a finding says what to declare, to permit or to add, doing so takes
it away, wherever it is done. -/
namespace ProcessLint

open Dictionary (Source Domain ofSource listUnder)
open Identifier (canonical)

namespace Validator

/-- With the dictionary the flag is not raised any more. Its findings have gone, and none have
come. -/
def Cures (v : Validator) (x : Document) (g : Flag) (e : Dictionary) : Prop :=
  (∀ f ∈ (v.withDictionary e).raised x, f.bare ≠ g.bare) ∧
    Mends (v.validate x) ((v.withDictionary e).validate x)
      ((v.raised x).filter fun f => f = g) []

/-- The configured dictionary can be loaded and cures the flag. -/
def CuredBy (v : Validator) (x : Document) (g : Flag) (t : Source) : Prop :=
  ∃ e, ofSource t = .ok e ∧ v.Cures x g e

/-- What the help of a finding says resolves it. The configured dictionary is the one that the
validator has. -/
structure HelpResolves (v : Validator) (s : Source) (x : Document) : Prop where
  /-- The findings of the report are those of the flags that are raised. -/
  findings : ((v.validate x).findings).Perm ((v.raised x).map Flag.finding)
  /-- A data object that is declared without fields, anywhere in the definition, is not missed any
  more; at most the dictionary does not have it. -/
  declare (entity o : String) : .missingDataRef entity o ∈ v.raised x →
    (Flag.missingDataRef entity o).help? =
      some ("Define DataObject '" ++ o ++ "' or fix the dataRef of '" ++ entity ++ "'") ∧
    ∀ l r, x.items = l ++ r →
      (∀ f ∈ v.raised (x.declaring l r o), f.misses o = false) ∧
        Mends (v.validate x) (v.validate (x.declaring l r o)) ((v.raised x).filter (Flag.misses o))
          [.dictionaryCoverage .dataObject o]
  /-- A verb that is put into a list of the actor, at any place of it, is allowed. -/
  permitVerb (actor verb : String) : .actorVerbNotAllowed actor verb ∈ v.raised x →
    (Flag.actorVerbNotAllowed actor verb).help? =
      some ("Add '" ++ verb ++ "' to actor '" ++ actor ++ "' permissions in dictionary") ∧
    ∀ place y, s.domainAt? place = some y →
      ∀ spelling, canonical spelling = canonical actor →
        ∀ l r, listUnder y.verbLists spelling = l ++ r →
          v.CuredBy x (.actorVerbNotAllowed actor verb)
            (s.withDomain place (y.withVerbs spelling (l ++ verb :: r)))
  /-- A data object that is put into a list of the actor for the access is permitted. -/
  grant (actor verb o : String) (access : Access) :
    .dataPermission actor verb o access ∈ v.raised x →
      (Flag.dataPermission actor verb o access).help? =
        some ("Add " ++ access.name ++ " permission for '" ++ actor ++ "' on '" ++ o ++
          "' in actorDataPerms") ∧
      ∀ place y, s.domainAt? place = some y →
        ∀ spelling, canonical spelling = canonical actor →
          ∀ l r, listUnder (y.grantLists access) spelling = l ++ r →
            v.CuredBy x (.dataPermission actor verb o access)
              (s.withDomain place (y.withGrants access spelling (l ++ o :: r)))
  /-- An unknown type is that of a relationship. -/
  cause (name type : String) (known : List String) :
    .unknownRelationshipType name type known ∈ v.raised x →
      ∃ rel, .relationship rel ∈ x.items ∧ rel.name = name ∧ rel.type = type
  /-- A relationship that gets one of the known types instead, which are listed, is fine; at most it
  is hosted without a catalogue. -/
  retype (name type : String) (known : List String) :
    .unknownRelationshipType name type known ∈ v.raised x → known ≠ [] →
      (Flag.unknownRelationshipType name type known).help? =
        some ("Valid types: " ++ ", ".intercalate known) ∧
      ∀ l rel r, x.items = l ++ .relationship rel :: r → rel.name = name → rel.type = type →
        ∀ other ∈ known,
          Mends (v.validate x) (v.validate (x.retyping l rel r other))
            [.unknownRelationshipType name type known]
            [.hostedOnWithoutCatalog name v.options.hostedOnType v.options.hostedOnCatalogs]
  /-- A type that is put into the relationship types of the core vocabulary is known. This is said
  where no type is. -/
  addType (name type : String) (known : List String) :
    .unknownRelationshipType name type known ∈ v.raised x →
      (known = [] → (Flag.unknownRelationshipType name type known).help? =
        some ("Add '" ++ type ++ "' to relationshipTypes in the dictionary")) ∧
      ∀ l r, s.coreTypes = l ++ r →
        v.CuredBy x (.unknownRelationshipType name type known)
          (s.withCoreTypes (l ++ type :: r))

variable {v : Validator} {x : Document} {s t : Source}

theorem confirms_of_raised {f : Flag} (hf : f ∈ v.raised x) : v.dictionary.confirms f = true :=
  v.confirms_of_mem_raised (Dictionary.Within.refl v.dictionary) hf

/-- A larger dictionary cures the flags that it does not confirm. -/
theorem curedBy_of_extends (hd : ofSource s = .ok v.dictionary) (h : s.Extends t) {g : Flag}
    (hg : ∀ e, ofSource t = .ok e → e.confirms g = false) : v.CuredBy x g t := by
  obtain ⟨e, he⟩ := Dictionary.exists_ofSource h hd
  have hwithin := Dictionary.within_of_extends h hd he
  exact ⟨e, he, v.mends_of_within hwithin x (hg e he)⟩

/-- Whoever follows the help of a finding is rid of it. -/
theorem helpResolves_of_ofSource (hd : ofSource s = .ok v.dictionary) (x : Document) :
    v.HelpResolves s x := by
  constructor
  case findings => exact v.findings_validate_perm x
  case declare =>
    intro entity o _
    exact ⟨rfl, fun l r hx => v.mends_declaring hx o⟩
  case permitVerb =>
    intro actor verb hraised
    refine ⟨rfl, fun place y hy spelling hspelling l r hlist => ?_⟩
    have hnot : v.dictionary.actorAllows actor verb = false := by
      simpa [Dictionary.confirms] using confirms_of_raised hraised
    have hrestricted := Dictionary.nonempty_performs hd hnot hspelling
    refine curedBy_of_extends hd (Dictionary.extends_withVerbs hy hlist hrestricted verb) ?_
    intro e he
    simp [Dictionary.confirms, Dictionary.actorAllows_withVerbs hspelling he]
  case grant =>
    intro actor verb o access hraised
    refine ⟨rfl, fun place y hy spelling hspelling l r hlist => ?_⟩
    have hnot : v.dictionary.permits access actor o = false := by
      simpa [Dictionary.confirms] using confirms_of_raised hraised
    have hrestricted := Dictionary.nonempty_grants hd hnot hspelling
    refine curedBy_of_extends hd (Dictionary.extends_withGrants hy hlist hrestricted o) ?_
    intro e he
    simp [Dictionary.confirms, Dictionary.permits_withGrants hspelling he]
  case cause =>
    intro name type known hraised
    exact (exists_relationship_of_mem_allFlags (List.mem_filter.mp hraised).1).1
  case retype =>
    intro name type known hraised hknown
    refine ⟨by simp [Flag.help?, hknown], ?_⟩
    rintro l rel r hx rfl rfl other hother
    obtain ⟨hflag, hwants⟩ := List.mem_filter.mp hraised
    obtain ⟨-, hbad, rfl⟩ := exists_relationship_of_mem_allFlags hflag
    exact v.mends_retyping hx hbad hwants hother
  case addType =>
    intro name type known _
    refine ⟨fun hnone => by simp [Flag.help?, hnone], fun l r hlist => ?_⟩
    have hmore : s.coreTypes.Sublist (l ++ type :: r) := by
      rw [hlist]
      exact (List.sublist_cons_self type r).append_left l
    refine curedBy_of_extends hd (Dictionary.extends_withCoreTypes hmore) ?_
    intro e he
    have hlisted : type ∈ l ++ type :: r := by simp
    simp [Dictionary.confirms, Dictionary.isRelationshipType_withCoreTypes hlisted he]

/-! ### A teller who is restricted -/

abbrev till : Source where
  domains := .ofList []
  domain := some {
    actors := ["Teller"]
    verbs := ["Count", "Pay"]
    actorVerbs := .ofList [("Teller", ["Count"])]
    actorDataPerms := .ofList [("Teller", { read := ["DO_Till"] })] }

/-- A till of unknown contents that is in a branch, and a teller who pays with it. -/
def tillDocument : Document where
  items := [
    .entity { name := "Till", dataRef := "DO_Till" },
    .relationship { name := "Place", source := "Till", target := "Teller", type := "stands by" },
    .process { name := "Paying", actors := ["Teller"], actions := ["- Teller Pay DO_Loan Output"] }]

theorem helpResolves_till : ∃ d, ofSource till = .ok d ∧
    (raised { dictionary := d } tillDocument).map Flag.bare =
      [.unknownRelationshipType "Place" "stands by" [], .verbNeverPermitted "Pay",
        .actorVerbNotAllowed "Teller" "Pay", .dataPermission "Teller" "Pay" "DO_Loan" .read,
        .missingDataRef "Till" "DO_Till"] ∧
    HelpResolves { dictionary := d } till tillDocument :=
  ⟨_, rfl, by decide +kernel, helpResolves_of_ofSource rfl tillDocument⟩

end Validator
end ProcessLint
