import ProcessLint.Proofs.DocumentText
import ProcessLint.Proofs.Rereading

/-! A definition that was read from a text, and is written and read again. What is left out in a
text is written, so the new text may be nested deeper than the first one, and numbers are read from
the digits that are written for them. -/
namespace ProcessLint

/-! ### Depths of values that are read -/

namespace Json

variable {α β : Type} {v : Json} {names : List String} {fs : Fields} {n : Nat}

theorem exists_of_mapM {f : α → Option β} {as : List α} {bs : List β} (h : as.mapM f = some bs)
    {b : β} (hb : b ∈ bs) : ∃ a ∈ as, f a = some b := by
  induction as generalizing bs with
  | nil =>
    obtain rfl : [] = bs := by simpa using h
    cases hb
  | cons a as ih =>
    simp only [List.mapM_cons, Option.bind_eq_bind, Option.bind_eq_some_iff, Option.pure_def,
      Option.some.injEq] at h
    obtain ⟨c, hc, cs, hcs, rfl⟩ := h
    rcases List.mem_cons.mp hb with rfl | hb
    · exact ⟨a, List.mem_cons_self, hc⟩
    · obtain ⟨a', ha', hb'⟩ := ih hcs hb
      exact ⟨a', List.mem_cons_of_mem a ha', hb'⟩

theorem depth_lt_of_fields? (h : v.fields? names = some fs) {m : String × Json} (hm : m ∈ fs) :
    m.2.depth < v.depth := by
  cases v with
  | object members =>
    simp only [fields?, Option.bind_eq_bind, Option.bind_eq_some_iff] at h
    obtain ⟨named, hnamed, h⟩ := h
    obtain ⟨-, h⟩ := Option.ite_none_right_eq_some.mp h
    obtain rfl := Option.some.inj h
    obtain ⟨member, hmember, hkey⟩ := exists_of_mapM hnamed (List.mem_filter.mp hm).1
    obtain ⟨key, -, rfl⟩ := Option.map_eq_some_iff.mp hkey
    exact depth_lt_object hmember
  | array items =>
    obtain ⟨-, h⟩ := Option.ite_none_right_eq_some.mp h
    obtain rfl := Option.some.inj h
    exact depth_lt_array (List.of_mem_zip hm).2
  | _ => cases h

theorem depth_pos_of_fields? (h : v.fields? names = some fs) : 0 < v.depth := by
  cases v with
  | object members => exact Nat.succ_pos _
  | array items => exact Nat.succ_pos _
  | _ => cases h

theorem exists_item {read? : Json → Option α} {name : String} {xs : List α}
    (hfs : v.fields? names = some fs) (h : fs.optional? name (toList? read?) [] = some xs) {x : α}
    (hx : x ∈ xs) : ∃ u : Json, u.depth + 2 ≤ v.depth ∧ read? u = some x := by
  rw [Fields.optional?] at h
  split at h
  · rename_i w hw
    obtain ⟨before, after, hfields, -⟩ := List.lookup_eq_some_iff.mp hw
    have hlist : w.depth < v.depth := depth_lt_of_fields? hfs (m := (name, w)) (by simp [hfields])
    cases w with
    | array items =>
      obtain ⟨u, hu, hread⟩ := exists_of_mapM h hx
      have hitem := depth_lt_array hu
      exact ⟨u, by omega, hread⟩
    | _ => cases h
  · obtain rfl := Option.some.inj h
    cases hx

theorem toList?_map_eq_none {write : α → Json} {read? : Json → Option α} {xs : List α} {x : α}
    (hx : x ∈ xs) (h : read? (write x) = none) :
    (array (xs.map write)).toList? read? = none := by
  rw [toList?]
  induction xs with
  | nil => cases hx
  | cons y ys ih =>
    rw [List.map_cons, List.mapM_cons]
    rcases List.mem_cons.mp hx with rfl | hx
    · rw [h]
      rfl
    · rw [ih hx]
      cases read? (write y) <;> rfl

/-! ### Depths of values that are written -/

@[simp] theorem depth_text (s : String) : (text s).depth = 0 := rfl

theorem depth_array_le {items : List Json} (hn : 0 < n) (h : ∀ v ∈ items, v.depth < n) :
    (array items).depth ≤ n := by
  rw [depth]
  induction items with
  | nil => exact hn
  | cons v vs ih =>
    obtain ⟨hv, hvs⟩ := List.forall_mem_cons.mp h
    have hrest := ih hvs
    rw [depthItems]
    omega

theorem depth_object_le {members : List (Option String × Json)} (hn : 0 < n)
    (h : ∀ m ∈ members, m.2.depth < n) : (object members).depth ≤ n := by
  rw [depth]
  induction members with
  | nil => exact hn
  | cons m ms ih =>
    obtain ⟨hm, hms⟩ := List.forall_mem_cons.mp h
    have hrest := ih hms
    rw [depthMembers]
    omega

theorem depth_map_lt {write : α → Json} {xs : List α} (hn : 1 < n)
    (h : ∀ x ∈ xs, (write x).depth + 1 < n) : (array (xs.map write)).depth < n := by
  have hitems : ∀ v ∈ xs.map write, v.depth < n - 1 := List.forall_mem_map.mpr fun x hx => by
    have := h x hx
    omega
  have hlist := depth_array_le (by omega) hitems
  omega

@[simp] theorem depth_number (x : Numeral) : (number x).depth = 0 := rfl

@[simp] theorem depth_texts (ss : List String) : (texts ss).depth = 1 := by
  have hlt : (texts ss).depth < 2 := depth_map_lt (by decide) fun _ _ => Nat.lt_succ_self 1
  exact Nat.le_antisymm (Nat.le_of_lt_succ hlt) (Nat.succ_pos _)

theorem depth_unlessEmpty_lt {write : α → Json} {xs : List α}
    (h : ∀ x ∈ xs, (write x).depth + 1 < n) : ∀ w ∈ unlessEmpty write xs, w.depth < n := by
  cases xs with
  | nil => nofun
  | cons x xs =>
    rintro w ⟨⟩
    have hx := h x List.mem_cons_self
    exact depth_map_lt (by omega) h

theorem Slots.depth_record_le {s : Slots} (hn : 0 < n)
    (h : ∀ f ∈ s.fields, ∀ w ∈ f.2, w.depth < n) : (record s.members).depth ≤ n :=
  depth_object_le hn <| List.forall_mem_map.mpr fun m hm =>
    h (m.1, some m.2) (mem_written.mp hm) m.2 rfl

end Json

open Json (Slots)

/-! ### Fields and properties -/

theorem Field.depth_toJson_le (f : Field) : f.toJson.depth ≤ 2 := by
  have hattrs : ∀ w ∈ Json.unlessEmpty Json.text f.attrs, w.depth < 2 :=
    Json.depth_unlessEmpty_lt fun t _ => by simp
  rw [toJson_eq]
  refine Slots.depth_record_le (by decide) ?_
  simpa [slots] using hattrs

theorem Property.depth_toJson_le (p : Property) : p.toJson.depth ≤ 2 := by
  rw [toJson_eq]
  exact Slots.depth_record_le (by decide) (by simp [slots])

/-! ### Processes inside processes -/

namespace Step

theorem depth_toJson_le {v : Json} {s : Step} (h : ofJson? v = some s) :
    s.toJson.depth ≤ v.depth := by
  simp only [ofJson?, Option.bind_eq_bind, Option.bind_eq_some_iff, Option.some.injEq] at h
  obtain ⟨fs, hfs, name, -, inputs, hinputs, validations, hvalidations, actions, hactions, onError,
    honError, outputs, houtputs, rfl⟩ := h
  have hlist {name : String} {ts : List String}
      (h : Json.Fields.optional? fs name Json.toTexts? [] = some ts) :
      ∀ w ∈ Json.unlessEmpty Json.text ts, w.depth < v.depth := by
    refine Json.depth_unlessEmpty_lt fun t ht => ?_
    obtain ⟨u, hu, -⟩ := Json.exists_item hfs h ht
    rw [Json.depth_text]
    omega
  rw [toJson_eq]
  refine Slots.depth_record_le (Json.depth_pos_of_fields? hfs) ?_
  have hname := Json.depth_pos_of_fields? hfs
  simpa [slots, hname] using ⟨hlist hinputs, hlist hvalidations, hlist hactions, hlist honError,
    hlist houtputs⟩

end Step

namespace Process

mutual

/-- How many processes stand inside one another, the process itself among them. -/
def levels : Process → Nat
  | ⟨_, _, _, _, processes⟩ => mostLevels processes + 1

def mostLevels : List Process → Nat
  | [] => 0
  | p :: ps => max (levels p) (mostLevels ps)

end

variable {p q : Process} {n : Nat}

theorem le_mostLevels {ps : List Process} (h : q ∈ ps) : q.levels ≤ mostLevels ps := by
  induction ps with
  | nil => cases h
  | cons p ps ih =>
    rw [mostLevels]
    rcases List.mem_cons.mp h with rfl | h
    · exact Nat.le_max_left _ _
    · exact Nat.le_trans (ih h) (Nat.le_max_right _ _)

theorem mostLevels_le {ps : List Process} (h : ∀ q ∈ ps, q.levels ≤ n) : mostLevels ps ≤ n := by
  induction ps with
  | nil => exact Nat.zero_le n
  | cons p ps ih =>
    obtain ⟨hp, hps⟩ := List.forall_mem_cons.mp h
    rw [mostLevels]
    exact Nat.max_le.mpr ⟨hp, ih hps⟩

theorem levels_eq (p : Process) : p.levels = mostLevels p.processes + 1 := by
  cases p
  rw [levels]

theorem levels_lt_of_mem (h : q ∈ p.processes) : q.levels < p.levels := by
  rw [levels_eq p]
  exact Nat.lt_succ_of_le (le_mostLevels h)

theorem levels_le (h : ∀ q ∈ p.processes, q.levels ≤ n) : p.levels ≤ n + 1 := by
  rw [levels_eq p]
  exact Nat.succ_le_succ (mostLevels_le h)

theorem exists_of_ofJson? {v : Json} (h : ofJson? (n + 1) v = some p) :
    0 < v.depth ∧
      (∀ s ∈ p.steps, ∃ u : Json, u.depth + 2 ≤ v.depth ∧ Step.ofJson? u = some s) ∧
      ∀ q ∈ p.processes, ∃ u : Json, u.depth + 2 ≤ v.depth ∧ ofJson? n u = some q := by
  simp only [ofJson?, Option.bind_eq_bind, Option.bind_eq_some_iff, Option.some.injEq] at h
  obtain ⟨fs, hfs, name, -, actors, -, steps, hsteps, actions, -, processes, hprocesses, rfl⟩ := h
  exact ⟨Json.depth_pos_of_fields? hfs, fun s hs => Json.exists_item hfs hsteps hs,
    fun q hq => Json.exists_item hfs hprocesses hq⟩

theorem two_mul_levels_le_of_ofJson? {v : Json} (h : ofJson? n v = some p) :
    2 * p.levels ≤ v.depth + 1 := by
  induction n generalizing v p with
  | zero => cases h
  | succ n ih =>
    obtain ⟨hpos, -, hprocesses⟩ := exists_of_ofJson? h
    have hlevels : p.levels ≤ (v.depth - 1) / 2 + 1 := levels_le fun q hq => by
      obtain ⟨u, hu, hread⟩ := hprocesses q hq
      have hinner := ih hread
      omega
    omega

/-- A process is written no deeper than it was read or than two for each of its levels, as the
innermost process is written with its lists of actors and steps. -/
theorem depth_toJson_le {v : Json} (h : ofJson? n v = some p) :
    p.toJson.depth ≤ max v.depth (2 * p.levels) := by
  induction n generalizing v p with
  | zero => cases h
  | succ n ih =>
    obtain ⟨-, hsteps, hprocesses⟩ := exists_of_ofJson? h
    obtain ⟨hread, hlevels⟩ : v.depth ≤ max v.depth (2 * p.levels) ∧
        2 * p.levels ≤ max v.depth (2 * p.levels) := ⟨Nat.le_max_left _ _, Nat.le_max_right _ _⟩
    generalize max v.depth (2 * p.levels) = bound at hread hlevels
    have hone : 1 < bound := by
      rw [levels_eq] at hlevels
      omega
    have hpos : 0 < bound := Nat.lt_of_succ_lt hone
    have hactions : ∀ w ∈ Json.unlessEmpty Json.text p.actions, w.depth < bound :=
      Json.depth_unlessEmpty_lt fun t _ => by
        rw [Json.depth_text]
        exact hone
    have hwrittenSteps : (Json.array (p.steps.map Step.toJson)).depth < bound :=
      Json.depth_map_lt hone fun s hs => by
        obtain ⟨u, hu, hstep⟩ := hsteps s hs
        have hle := Step.depth_toJson_le hstep
        omega
    have hwrittenProcesses : ∀ w ∈ Json.unlessEmpty toJson p.processes, w.depth < bound :=
      Json.depth_unlessEmpty_lt fun q hq => by
        obtain ⟨u, hu, hinner⟩ := hprocesses q hq
        have hle := ih hinner
        have hlt := levels_lt_of_mem hq
        omega
    rw [toJson_eq]
    refine Slots.depth_record_le hpos ?_
    simpa [slots, hpos, hone] using ⟨hwrittenSteps, hactions, hwrittenProcesses⟩

theorem two_mul_levels_le (p : Process) : 2 * p.levels ≤ p.toJson.depth := by
  induction hd : p.toJson.depth using Nat.strong_induction_on generalizing p with
  | _ depth ih =>
  have hactors : ("actors", some (Json.texts p.actors)) ∈ p.slots.fields := by simp [slots]
  have htwo := Slots.depth_lt_record hactors
  rw [Json.depth_texts, ← toJson_eq, hd] at htwo
  have hlevels : p.levels ≤ depth / 2 - 1 + 1 := levels_le fun q hq => by
    have hlt := depth_add_two_le_of_mem hq
    have hle := ih q.toJson.depth (by omega) q rfl
    omega
  omega

end Process

/-! ### Declarations and definitions -/

namespace Item

variable {number : Numeral → Option Binary64}

def levels : Item → Nat
  | .process p => p.levels
  | _ => 0

theorem depth_toJson (i : Item) : i.toJson.depth = (Json.record i.slots.members).depth := by
  rw [toJson, members_eq, Json.record, Json.record, List.map_cons, Json.depth, Json.depth,
    Json.depthMembers, Json.depth_text, Nat.zero_max]

theorem depth_le_of_splitKind? {v rest : Json} {kind : String}
    (h : splitKind? v = some (kind, rest)) : rest.depth ≤ v.depth := by
  rw [splitKind?.eq_def] at h
  split at h
  · rename_i members
    split at h
    · cases h
      refine Json.depth_object_le (Nat.succ_pos _) fun m hm => ?_
      exact Json.depth_lt_object (List.mem_filter.mp hm).1
    · cases h
  · rename_i first items
    cases h
    refine Json.depth_array_le (Nat.succ_pos _) fun w hw => ?_
    exact Json.depth_lt_array (List.mem_cons_of_mem _ hw)
  · cases h

theorem processOfJson?_of_ofKind? {kind : String} {v : Json} {p : Process}
    (h : ofKind? number kind v = some (.process p)) : processOfJson? v = some p := by
  rw [ofKind?.eq_def] at h
  split at h
  case h_5 =>
    obtain ⟨q, hq, hsame⟩ := Option.map_eq_some_iff.mp h
    cases hsame
    exact hq
  case h_8 => cases h
  all_goals
    obtain ⟨_, -, hother⟩ := Option.map_eq_some_iff.mp h
    cases hother

theorem depth_toJson_le {i : Item} (h : i.levels = 0) : i.toJson.depth ≤ 4 := by
  rw [depth_toJson]
  cases i with
  | dataObject d =>
    have hfields : (Json.array (d.fields.map Field.toJson)).depth < 4 :=
      Json.depth_map_lt (by decide) fun f _ =>
        Nat.lt_succ_of_le (Nat.succ_le_succ f.depth_toJson_le)
    exact Slots.depth_record_le (by decide) (by simpa [slots, DataObject.slots] using hfields)
  | entity e =>
    have hproperties : (Json.array (e.properties.map Property.toJson)).depth < 4 :=
      Json.depth_map_lt (by decide) fun p _ =>
        Nat.lt_succ_of_le (Nat.succ_le_succ p.depth_toJson_le)
    exact Slots.depth_record_le (by decide) (by simpa [slots, Entity.slots] using hproperties)
  | process p =>
    rw [levels, Process.levels_eq] at h
    cases h
  | asset a => exact Slots.depth_record_le (by decide) (by simp [slots, Asset.slots])
  | relationship r => exact Slots.depth_record_le (by decide) (by simp [slots, Relationship.slots])
  | rule r => exact Slots.depth_record_le (by decide) (by simp [slots, BusinessRule.slots])
  | report r => exact Slots.depth_record_le (by decide) (by simp [slots, ReportQuery.slots])

/-- The limit on depths allows 63 levels in what is read and 62 in what is written. -/
theorem levels_of_ofDocumentJson? {v : Json} {i : Item} (h : ofDocumentJson? number v = some i) :
    i.levels ≤ 63 ∧ (i.toJson.depth ≤ depthLimit ↔ i.levels ≤ 62) := by
  obtain ⟨hread, h⟩ := Option.ite_none_right_eq_some.mp h
  obtain ⟨hdepth, -⟩ := Bool.and_eq_true_iff.mp hread
  have hlimit : v.depth ≤ 125 := of_decide_eq_true hdepth
  by_cases hnone : i.levels = 0
  · have hfour := depth_toJson_le hnone
    rw [depthLimit]
    omega
  · obtain ⟨p, rfl⟩ : ∃ p, i = .process p := by
      cases i with
      | process p => exact ⟨p, rfl⟩
      | _ => exact absurd rfl hnone
    rw [ofJson?] at h
    split at h
    case h_2 => cases h
    rename_i kind rest hsplit
    have hrest := depth_le_of_splitKind? hsplit
    have hp := processOfJson?_of_ofKind? h
    have hle := Process.depth_toJson_le hp
    have hlevels := Process.two_mul_levels_le_of_ofJson? hp
    have hge := p.two_mul_levels_le
    have hsame : (Item.process p).toJson.depth = p.toJson.depth := by
      rw [depth_toJson, Process.toJson_eq]
      rfl
    rw [hsame, levels, depthLimit]
    omega

end Item

namespace Document

variable {number : Numeral → Option Binary64}

theorem ofJson?_toJson_eq_none {d : Document} {i : Item} (hi : i ∈ d.items)
    (h : Item.ofDocumentJson? number i.toJson = none) : ofJson? number d.toJson = none := by
  rw [toJson_eq, ofJson?, d.slots.fields?_record ["source", "items"] rfl]
  simp [slots, List.lookup_cons, Json.toList?_map_eq_none hi h]

/-- A definition that was read has processes on at most 63 levels. Written, it is read again if no
processes stand on more than 62 levels, and is not read otherwise: what is left out in the text of
an innermost process is written, and stands one level deeper. It is the same definition but for
bounds that are not read from their own digits, and short digits are. -/
theorem read?_write_of_read? {text : String} {d : Document} (h : read? text = some d) :
    (∀ i ∈ d.items, i.levels ≤ 63) ∧
      (read? d.write =
        if ∀ i ∈ d.items, i.levels ≤ 62 then some (d.mapBounds Binary64.reread) else none) ∧
      (d.mapBounds Binary64.reread = d ↔
        ∀ x ∈ d.bounds, (Numeral.ofBinary64 x).toBinary64? = some x) ∧
      ((∀ x ∈ d.bounds, (Numeral.ofBinary64 x).IsShort) → d.mapBounds Binary64.reread = d) := by
  obtain ⟨v, -, hv⟩ := Option.bind_eq_some_iff.mp h
  simp only [ofJson?, Option.bind_eq_bind, Option.bind_eq_some_iff, Option.some.injEq] at hv
  obtain ⟨fs, hfs, source, -, items, hitems, rfl⟩ := hv
  have hread : ∀ i ∈ items, i.levels ≤ 63 ∧ (i.toJson.depth ≤ Item.depthLimit ↔ i.levels ≤ 62) :=
    fun i hi => by
      obtain ⟨u, -, hu⟩ := Json.exists_item hfs hitems hi
      exact Item.levels_of_ofDocumentJson? hu
  refine ⟨fun i hi => (hread i hi).1, ?_, ?_, fun hshort => ?_⟩
  · rw [read?, readBy?_write_eq]
    split
    · rename_i hlevels
      refine ofJson?_toJson_of_items fun i hi => ?_
      exact Item.ofDocumentJson?_toJson Binary64.toBinary64?_ofBinary64
        ((hread i hi).2.mpr (hlevels i hi))
    · rename_i hlevels
      obtain ⟨i, hi, hdeep⟩ : ∃ i ∈ items, ¬i.levels ≤ 62 := by simpa using hlevels
      refine ofJson?_toJson_eq_none hi ?_
      rw [Item.ofDocumentJson?, if_neg]
      intro hsound
      exact hdeep ((hread i hi).2.mp (of_decide_eq_true (Bool.and_eq_true_iff.mp hsound).1))
  · simp only [mapBounds_eq_self, Binary64.toBinary64?_ofBinary64, Option.some.injEq]
  · exact mapBounds_eq_self.mpr fun x hx => Binary64.reread_of_isShort (hshort x hx)

/-- Processes inside one another, one more than the number, all of them without steps and actors. -/
def chain : Nat → Process
  | 0 => { name := "p" }
  | n + 1 => { name := "p", processes := [chain n] }

/-- The same processes, where all that is empty is left out. -/
def sparseMembers : Nat → List (String × Json)
  | 0 => [("name", .text "p")]
  | n + 1 => [("name", .text "p"), ("processes", .array [.record (sparseMembers n)])]

def sparse (n : Nat) : Json :=
  .record [("items", .array [.record (("kind", .text "process") :: sparseMembers n)])]

theorem read?_sparse (n : Nat) :
    read? ((sparse n).write .compact) = ofJson? Numeral.toBinary64? (sparse n) := by
  have hmembers (n : Nat) : ∀ m ∈ sparseMembers n, m.2.Every Numeral.IsPlain := by
    induction n with
    | zero => simp [sparseMembers]
    | succ n ih =>
      have hlist : (Json.array [.record (sparseMembers n)]).Every Numeral.IsPlain :=
        .array (by simpa using Json.Every.record ih)
      simpa [sparseMembers] using hlist
  have hitem : (Json.record (("kind", .text "process") :: sparseMembers n)).Every Numeral.IsPlain :=
    .record (List.forall_mem_cons.mpr ⟨.text _, hmembers n⟩)
  have hlist : (Json.array [.record (("kind", .text "process") :: sparseMembers n)]).Every
      Numeral.IsPlain := .array (by simpa using hitem)
  exact readBy?_compact (.record (by simpa using hlist))

def rates (x : Binary64) : Document where
  items :=
    [.dataObject
      { name := "Rates", fields := [{ name := "rate", type := "decimal", min := some x }] }]

def ratesText (n : Numeral) : Json :=
  .record [("items", .array [.record [("kind", .text "dataObject"), ("name", .text "Rates"),
    ("fields", .array [.record [("name", .text "rate"), ("type", .text "decimal"),
      ("min", .number n)]])]])]

theorem read?_ratesText {n : Numeral} (h : n.IsPlain) :
    read? ((ratesText n).write .compact) = ofJson? Numeral.toBinary64? (ratesText n) := by
  have hfield : (Json.record [("name", .text "rate"), ("type", .text "decimal"),
      ("min", .number n)]).Every Numeral.IsPlain := .record (by simpa using Json.Every.number h)
  have hfields := Json.Every.array (List.forall_mem_singleton.mpr hfield)
  have hitem : (Json.record [("kind", .text "dataObject"), ("name", .text "Rates"),
      ("fields", .array [.record [("name", .text "rate"), ("type", .text "decimal"),
        ("min", .number n)]])]).Every Numeral.IsPlain := .record (by simpa using hfields)
  have hitems := Json.Every.array (List.forall_mem_singleton.mpr hitem)
  exact readBy?_compact (.record (by simpa using hitems))

/-- The greatest depth of processes, and a bound of two digits. -/
theorem read?_write_chain :
    (∃ d, read? ((sparse 61).write .compact) = some d ∧ d.items = [.process (chain 61)] ∧
      read? d.write = some d) ∧
    ∃ d, read? ((ratesText ⟨false, 0, ['0', '5'], none⟩).write .compact) = some d ∧
      d.bounds ≠ [] ∧ read? d.write = some d := by
  constructor
  · let d : Document := { items := [.process (chain 61)] }
    have hread : read? ((sparse 61).write .compact) = some d := by
      rw [read?_sparse]
      decide +kernel
    obtain ⟨-, hwritten, -, hshort⟩ := read?_write_of_read? hread
    refine ⟨d, hread, rfl, ?_⟩
    rw [hwritten, if_pos (by decide +kernel), hshort (by simp [d, bounds, Item.bounds])]
  · let d := rates ⟨false, 7205759403792794, -57, by decide⟩
    have hread : read? ((ratesText ⟨false, 0, ['0', '5'], none⟩).write .compact) = some d := by
      rw [read?_ratesText (by simp [Numeral.IsPlain])]
      decide +kernel
    obtain ⟨-, hwritten, -, hshort⟩ := read?_write_of_read? hread
    refine ⟨d, hread, by decide, ?_⟩
    rw [hwritten, if_pos (by decide +kernel), hshort (by decide +kernel)]

/-- One process more, and the definition is read, but not what is written for it. The bound `1e-30`
is read and written as `9.999999999999999e-31`, which is read as another number. -/
theorem longChain_refused :
    (∃ d, read? ((sparse 62).write .compact) = some d ∧ d.items = [.process (chain 62)] ∧
      read? d.write = none) ∧
    ∃ d d', read? ((ratesText ⟨false, 1, [], some (-30)⟩).write .compact) = some d ∧
      read? d.write = some d' ∧ d' ≠ d := by
  constructor
  · let d : Document := { items := [.process (chain 62)] }
    have hread : read? ((sparse 62).write .compact) = some d := by
      rw [read?_sparse]
      decide +kernel
    refine ⟨d, hread, rfl, ?_⟩
    rw [read?, readBy?_write_eq]
    exact ofJson?_toJson_eq_none List.mem_cons_self (by decide +kernel)
  · have hread : read? ((ratesText ⟨false, 1, [], some (-30)⟩).write .compact) =
        some (rates ⟨false, 5708990770823839, -152, by decide⟩) := by
      rw [read?_ratesText (by simp [Numeral.IsPlain])]
      decide +kernel
    have hagain : read? (rates ⟨false, 5708990770823839, -152, by decide⟩).write =
        some (rates ⟨false, 5708990770823840, -152, by decide⟩) := by
      rw [read?, readBy?_write_eq]
      decide +kernel
    exact ⟨_, _, hread, hagain, by decide⟩

end Document
end ProcessLint
