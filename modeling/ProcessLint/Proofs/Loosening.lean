import Mathlib.Data.List.Basic
import Mathlib.Data.List.Flatten
import ProcessLint.Proofs.EventRules
import ProcessLint.Validation.Session

/-! Validations with two dictionaries, of which one knows and allows all that the other does: it
tells nothing that the other does not tell, and in the same order. -/
namespace ProcessLint

/-- Whatever the first dictionary knows or allows, the second knows or allows, too. In the rest
they agree. -/
structure Dictionary.Within (d e : Dictionary) : Prop where
  keywords : e.keywords = d.keywords
  accessOf? (v : String) : e.accessOf? v = d.accessOf? v
  hasActorCatalogue : e.hasActorCatalogue = d.hasActorCatalogue
  hasActor (x : String) : d.hasActor x = true → e.hasActor x = true
  hasVerb (x : String) : d.hasVerb x = true → e.hasVerb x = true
  isRelationshipType (x : String) : d.isRelationshipType x = true → e.isRelationshipType x = true
  cataloguesEntity (x : String) : d.cataloguesEntity x = true → e.cataloguesEntity x = true
  cataloguesDataObject (x : String) :
    d.cataloguesDataObject x = true → e.cataloguesDataObject x = true
  actorAllows (a v : String) : d.actorAllows a v = true → e.actorAllows a v = true
  verbPermittedByAny (v : String) : d.verbPermittedByAny v = true → e.verbPermittedByAny v = true
  permits (access : Access) (a o : String) :
    d.permits access a o = true → e.permits access a o = true

theorem Dictionary.Within.refl (d : Dictionary) : d.Within d where
  keywords := rfl
  accessOf? _ := rfl
  hasActorCatalogue := rfl
  hasActor _ := id
  hasVerb _ := id
  isRelationshipType _ := id
  cataloguesEntity _ := id
  cataloguesDataObject _ := id
  actorAllows _ _ := id
  verbPermittedByAny _ := id
  permits _ _ _ := id

/-! ### What is told, whatever the help -/

def Finding.withoutSuggestion (f : Finding) : Finding := { f with suggestion := none }

def Flag.told (f : Flag) : Rule × String := (f.rule, f.message)

/-- What the first flags tell, the second tell in the same order. -/
def ToldIn (gs fs : List Flag) : Prop := (gs.map Flag.told).Sublist (fs.map Flag.told)

/-- The flag without the known types, which only its help lists. -/
def Flag.bare : Flag → Flag
  | unknownRelationshipType relationship type _ => unknownRelationshipType relationship type []
  | f => f

@[simp] theorem Flag.told_bare (f : Flag) : f.bare.told = f.told := by cases f <;> rfl

/-- What the flag objects to is neither known to the dictionary nor allowed by it. -/
def Dictionary.confirms (d : Dictionary) : Flag → Bool
  | .unknownActor a => !d.hasActor a
  | .unknownVerb v => !d.hasVerb v
  | .verbNeverPermitted v => !d.verbPermittedByAny v
  | .actorVerbNotAllowed a v => !d.actorAllows a v
  | .dataPermission a _ o access => !d.permits access a o
  | .unknownRelationshipEndpoint _ _ endpoint => !d.hasActor endpoint
  | .unknownRelationshipType _ type _ => !d.isRelationshipType type
  | .dictionaryCoverage .dataObject name => !d.cataloguesDataObject name
  | .dictionaryCoverage .entity name => !d.cataloguesEntity name
  | .dictionaryCoverage .actor name => !d.hasActor name
  | _ => true

/-- The rules that look into the dictionary for names. -/
def Rule.looksUp : Rule → Bool
  | .unknownActor | .unknownVerb | .verbNeverPermitted | .actorVerbNotAllowed | .dataPermission
  | .unknownRelationshipEndpoint | .unknownRelationshipType | .dictionaryCoverage => true
  | _ => false

theorem Dictionary.confirms_of_rule {d : Dictionary} {f : Flag} (h : f.rule.looksUp = false) :
    d.confirms f = true := by
  cases f <;> first | rfl | cases h

@[simp] theorem Dictionary.confirms_bare (d : Dictionary) (f : Flag) :
    d.confirms f.bare = d.confirms f := by cases f <;> rfl

/-- The first flags are those of the second that a dictionary confirms. -/
def Confirmed (e : Dictionary) (gs fs : List Flag) : Prop :=
  gs.map Flag.bare = (fs.filter e.confirms).map Flag.bare

namespace Confirmed

variable {e : Dictionary}

theorem of_rule {fs : List Flag} (h : ∀ f ∈ fs, f.rule.looksUp = false) : Confirmed e fs fs := by
  rw [Confirmed, List.filter_eq_self.mpr fun f hf => Dictionary.confirms_of_rule (h f hf)]

theorem append {gs gs' fs fs' : List Flag} (h : Confirmed e gs fs) (h' : Confirmed e gs' fs') :
    Confirmed e (gs ++ gs') (fs ++ fs') := by
  rw [Confirmed, List.map_append, h, h', List.filter_append, List.map_append]

theorem flatMap {α : Type} {g f : α → List Flag} (h : ∀ a, Confirmed e (g a) (f a))
    (as : List α) : Confirmed e (as.flatMap g) (as.flatMap f) := by
  induction as with
  | nil => rfl
  | cons a as ih => exact (h a).append ih

/-- A check that passes when it passed before raises its flag where the dictionary confirms it. -/
theorem flagIf_not {p q : Bool} {g f : Flag} (h : p = true → q = true) (hbare : g.bare = f.bare)
    (hf : p = false → e.confirms f = !q) :
    Confirmed e (Validator.flagIf (!q) g) (Validator.flagIf (!p) f) := by
  cases p with
  | false => cases q <;> simp [Confirmed, Validator.flagIf, hf rfl, hbare]
  | true => simp [Confirmed, Validator.flagIf, h rfl]

theorem map_filter_not {α : Type} {p q : α → Bool} (flag : α → Flag)
    (h : ∀ a, p a = true → q a = true) (hf : ∀ a, e.confirms (flag a) = !q a) (as : List α) :
    Confirmed e ((as.filter fun a => !q a).map flag) ((as.filter fun a => !p a).map flag) := by
  have hboth (a : α) : (!q a && !p a) = !q a := by
    cases hp : p a with
    | false => simp
    | true => simp [h a hp]
  simp [Confirmed, List.filter_map, List.filter_filter, Function.comp_def, hf, hboth]

theorem toldIn {gs fs : List Flag} (h : Confirmed e gs fs) : ToldIn gs fs := by
  have htold (hs : List Flag) : (hs.map Flag.bare).map Flag.told = hs.map Flag.told := by simp
  rw [ToldIn, ← htold gs, h, htold]
  exact List.filter_sublist.map Flag.told

end Confirmed

namespace Validator

def withDictionary (v : Validator) (d : Dictionary) : Validator := { v with dictionary := d }

variable {d e : Dictionary}

theorem knowsEndpoint_mono (v : Validator) (h : d.Within e) (m : Memory) (name : String) :
    (v.withDictionary d).knowsEndpoint m name = true →
      (v.withDictionary e).knowsEndpoint m name = true := by
  simp only [knowsEndpoint, Bool.or_eq_true]
  exact Or.imp_right (h.hasActor name)

/-- An end that is declared nowhere is known if it is an actor. -/
theorem endpointFlag_confirmed (v : Validator) (h : d.Within e) (m : Memory)
    (relationship : String) (side : Side) (name : String) :
    Confirmed e
      (flagIf (!(v.withDictionary e).knowsEndpoint m name)
        (.unknownRelationshipEndpoint relationship side name))
      (flagIf (!(v.withDictionary d).knowsEndpoint m name)
        (.unknownRelationshipEndpoint relationship side name)) := by
  refine Confirmed.flagIf_not (v.knowsEndpoint_mono h m name) rfl fun hp => ?_
  simp only [knowsEndpoint, Bool.or_eq_false_iff] at hp
  simp only [knowsEndpoint, hp.1, Bool.false_or]
  rfl

theorem relationshipFlags_confirmed (v : Validator) (h : d.Within e) (m : Memory)
    (r : Relationship) :
    Confirmed e ((v.withDictionary e).relationshipFlags m r)
      ((v.withDictionary d).relationshipFlags m r) := by
  refine Confirmed.append ?_ (Confirmed.flagIf_not (h.isRelationshipType r.type) rfl fun _ => rfl)
  cases hw : v.options.warnUnknownAssets with
  | false => simp [withDictionary, hw, Confirmed]
  | true =>
    simp only [withDictionary, hw, if_true]
    exact (v.endpointFlag_confirmed h m r.name .source r.source).append
      (v.endpointFlag_confirmed h m r.name .target r.target)

theorem enterFlags_confirmed (v : Validator) (h : d.Within e) (p : Process) :
    Confirmed e ((v.withDictionary e).enterFlags p) ((v.withDictionary d).enterFlags p) := by
  -- a first actor in the catalogue would make all others unknown
  have hcatalogue : (v.withDictionary e).dictionary.hasActorCatalogue =
      (v.withDictionary d).dictionary.hasActorCatalogue := h.hasActorCatalogue
  unfold enterFlags
  rw [hcatalogue]
  split
  · exact Confirmed.map_filter_not _ h.hasActor (fun _ => rfl) _
  · rfl

theorem tokenFlags_confirmed (v : Validator) (h : d.Within e) (a : Action) (t : DataToken) :
    Confirmed e ((v.withDictionary e).tokenFlags a t) ((v.withDictionary d).tokenFlags a t) := by
  simp only [tokenFlags, withDictionary, h.accessOf?]
  split
  · exact Confirmed.flagIf_not (h.permits _ _ _) rfl fun _ => rfl
  · rfl

theorem actionFlags_confirmed (v : Validator) (h : d.Within e) (line : String) :
    Confirmed e ((v.withDictionary e).actionFlags line)
      ((v.withDictionary d).actionFlags line) := by
  simp only [actionFlags]
  split
  · exact .of_rule fun f hf => by rw [List.mem_singleton.mp hf]; rfl
  · rename_i a _
    have hactor := Confirmed.flagIf_not (e := e) (h.hasActor a.actor)
      (f := .unknownActor a.actor) rfl fun _ => rfl
    have hverb := Confirmed.flagIf_not (e := e) (h.hasVerb a.verb)
      (f := .unknownVerb a.verb) rfl fun _ => rfl
    have hany := Confirmed.flagIf_not (e := e) (h.verbPermittedByAny a.verb)
      (f := .verbNeverPermitted a.verb) rfl fun _ => rfl
    have hallows := Confirmed.flagIf_not (e := e) (h.actorAllows a.actor a.verb)
      (f := .actorVerbNotAllowed a.actor a.verb) rfl fun _ => rfl
    exact (((hactor.append hverb).append hany).append hallows).append
      (Confirmed.flatMap (v.tokenFlags_confirmed h a) _)

theorem textFlags_confirmed (v : Validator) (h : d.Within e) (place text : String) :
    Confirmed e ((v.withDictionary e).textFlags place text)
      ((v.withDictionary d).textFlags place text) := by
  have htext : (v.withDictionary e).textFlags place text =
      (v.withDictionary d).textFlags place text := by
    simp only [textFlags, withDictionary, Dictionary.reservedIn, h.keywords]
  rw [htext]
  exact .of_rule fun f hf => by rw [rule_of_mem_textFlags hf]; rfl

theorem fieldFlags_confirmed (fs : List Field) :
    Confirmed e (fs.flatMap fieldFlags) (fs.flatMap fieldFlags) := by
  refine .of_rule fun f hf => ?_
  obtain ⟨x, -, hx⟩ := List.mem_flatMap.mp hf
  rcases rule_of_mem_fieldFlags hx with hr | hr <;> rw [hr] <;> rfl

theorem settleFlags_confirmed (v : Validator) (m : Memory) :
    Confirmed e ((v.withDictionary e).settleFlags m) ((v.withDictionary d).settleFlags m) := by
  refine .of_rule fun f hf => ?_
  have hrule := rule_mem_of_mem_settleFlags hf
  simp only [Event.rules, List.mem_cons, List.not_mem_nil, or_false] at hrule
  rcases hrule with hr | hr | hr <;> rw [hr] <;> rfl

/-- On one event, the more a dictionary knows and allows, the less is told. -/
theorem flags_confirmed (v : Validator) (h : d.Within e) (m : Memory) (ev : Event) :
    Confirmed e ((v.withDictionary e).flags m ev) ((v.withDictionary d).flags m ev) := by
  cases ev with
  | dataObject o =>
    exact (Confirmed.flagIf_not (h.cataloguesDataObject o.name) rfl fun _ => rfl).append
      (fieldFlags_confirmed o.fields)
  | entity x => exact Confirmed.flagIf_not (h.cataloguesEntity x.name) rfl fun _ => rfl
  | asset a => rfl
  | relationship r => exact v.relationshipFlags_confirmed h m r
  | enter p => exact v.enterFlags_confirmed h p
  | leave p =>
    refine .of_rule fun f hf => ?_
    have hrule := rule_mem_of_mem_flags (v := v.withDictionary d) (e := .leave p) hf
    rw [List.mem_singleton.mp hrule]
    rfl
  | action line => exact v.actionFlags_confirmed h line
  | validation line => exact v.textFlags_confirmed h _ _
  | rule r => exact (v.textFlags_confirmed h _ _).append (v.textFlags_confirmed h _ _)
  | report r => exact v.textFlags_confirmed h _ _
  | close => exact v.settleFlags_confirmed m

theorem flagsOf_confirmed (v : Validator) (h : d.Within e) (m : Memory) (es : List Event) :
    Confirmed e ((v.withDictionary e).flagsOf m es) ((v.withDictionary d).flagsOf m es) := by
  induction es generalizing m with
  | nil => rfl
  | cons ev es ih => exact (v.flags_confirmed h m ev).append (ih (m.note ev))

/-- With the larger dictionary just the flags are raised that it confirms. -/
theorem allFlags_confirmed (v : Validator) (h : d.Within e) (es : List Event) :
    Confirmed e ((v.withDictionary e).allFlags es) ((v.withDictionary d).allFlags es) :=
  (v.flagsOf_confirmed h {} es).append (v.settleFlags_confirmed _)

theorem map_withoutSuggestion (v : Validator) (p : Severity → Bool) (fs : List Flag) :
    ((v.findings fs).filter fun x => p x.severity).map Finding.withoutSuggestion =
      ((fs.map Flag.told).filter fun t => p t.1.severity && v.wants t.1).map
        fun t => t.1.finding t.2 none := by
  simp only [findings, List.filter_map, List.filter_filter, List.map_map, Function.comp_def,
    Flag.finding_severity]
  rfl

theorem findings_sublist (v : Validator) (p : Severity → Bool) {gs fs : List Flag}
    (h : ToldIn gs fs) :
    (((v.findings gs).filter fun x => p x.severity).map Finding.withoutSuggestion).Sublist
      (((v.findings fs).filter fun x => p x.severity).map Finding.withoutSuggestion) := by
  rw [map_withoutSuggestion, map_withoutSuggestion]
  exact (h.filter _).map _

/-- A report with a dictionary that knows and allows more has nothing new in it. -/
theorem report_sublist (v : Validator) (h : d.Within e) (es : List Event) :
    (((v.withDictionary e).report es).errors.map Finding.withoutSuggestion).Sublist
        (((v.withDictionary d).report es).errors.map Finding.withoutSuggestion) ∧
      (((v.withDictionary e).report es).warnings.map Finding.withoutSuggestion).Sublist
        (((v.withDictionary d).report es).warnings.map Finding.withoutSuggestion) := by
  have htold := (v.allFlags_confirmed h es).toldIn
  rw [report_eq, report_eq, addTo_eq, addTo_eq]
  simp only [List.nil_append]
  exact ⟨v.findings_sublist (fun s => s = .error) htold,
    v.findings_sublist (fun s => s ≠ .error) htold⟩

end Validator
end ProcessLint
