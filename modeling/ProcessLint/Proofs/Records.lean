import ProcessLint.Document.Encoding
import ProcessLint.Proofs.JsonText

/-! Records that read back. A record is seen as its fields with the values that are written for
them, where a field without a value is left out. -/
namespace ProcessLint
namespace Json

/-! ### Nesting and soundness -/

theorem depth_lt_array {v : Json} {items : List Json} (h : v ∈ items) :
    v.depth < (array items).depth := by
  rw [depth]
  induction items with
  | nil => cases h
  | cons u us ih =>
    rw [depthItems]
    rcases List.mem_cons.mp h with rfl | h
    · omega
    · have := ih h
      omega

theorem depth_lt_object {m : Option String × Json} {members : List (Option String × Json)}
    (h : m ∈ members) : m.2.depth < (object members).depth := by
  rw [depth]
  induction members with
  | nil => cases h
  | cons u us ih =>
    rw [depthMembers]
    rcases List.mem_cons.mp h with rfl | h
    · omega
    · have := ih h
      omega

theorem depth_lt_record {m : String × Json} {members : List (String × Json)} (h : m ∈ members) :
    m.2.depth < (record members).depth :=
  depth_lt_object (List.mem_map_of_mem (f := fun m => (some m.1, m.2)) h)

variable {number : Numeral → Option Binary64}

theorem areSound_of_forall {items : List Json} (h : ∀ v ∈ items, v.isSound number = true) :
    areSound number items = true := by
  induction items with
  | nil => rfl
  | cons v vs ih =>
    rw [areSound, h v List.mem_cons_self, ih fun u hu => h u (List.mem_cons_of_mem v hu)]
    rfl

theorem membersSound_of_forall {members : List (String × Json)}
    (h : ∀ m ∈ members, m.2.isSound number = true) :
    membersSound number (members.map fun m => (some m.1, m.2)) = true := by
  induction members with
  | nil => rfl
  | cons m ms ih =>
    rw [List.map_cons, membersSound, h m List.mem_cons_self,
      ih fun u hu => h u (List.mem_cons_of_mem m hu)]
    rfl

theorem Every.isSound {v : Json} (h : v.Every fun n => (number n).isSome = true) :
    v.isSound number = true := by
  induction h with
  | number h => simpa [Json.isSound] using h
  | array _ ih => simpa [Json.isSound] using areSound_of_forall ih
  | record _ ih => simpa [Json.isSound, Json.record] using membersSound_of_forall ih
  | _ => simp [Json.isSound, Json.text]

@[simp] theorem every_texts (p : Numeral → Prop) (ss : List String) : (texts ss).Every p := by
  refine .array fun v hv => ?_
  obtain ⟨s, -, rfl⟩ := List.mem_map.mp hv
  exact .text s

theorem every_array_map {p : Numeral → Prop} {write : α → Json} {xs : List α}
    (h : ∀ x ∈ xs, (write x).Every p) : (array (xs.map write)).Every p := by
  refine .array fun v hv => ?_
  obtain ⟨x, hx, rfl⟩ := List.mem_map.mp hv
  exact h x hx

/-! ### Lists -/

theorem toList?_map_map {write : α → Json} {read? : Json → Option β} {f : α → β} {xs : List α}
    (h : ∀ x ∈ xs, read? (write x) = some (f x)) :
    (array (xs.map write)).toList? read? = some (xs.map f) := by
  rw [toList?]
  induction xs with
  | nil => rfl
  | cons x xs ih =>
    rw [List.map_cons, List.mapM_cons, h x List.mem_cons_self,
      ih fun y hy => h y (List.mem_cons_of_mem x hy)]
    rfl

theorem toList?_map {write : α → Json} {read? : Json → Option α} {xs : List α}
    (h : ∀ x ∈ xs, read? (write x) = some x) : (array (xs.map write)).toList? read? = some xs := by
  rw [toList?_map_map h, List.map_id']

@[simp] theorem toText?_text (s : String) : (text s).toText? = some s := rfl

@[simp] theorem toTexts?_texts (ss : List String) : (texts ss).toTexts? = some ss :=
  toList?_map fun _ _ => rfl

/-! ### Fields -/

/-- The members that are written for fields, each with its value, if it has one. -/
def written (fs : List (String × Option Json)) : List (String × Json) :=
  fs.filterMap fun f => f.2.map (f.1, ·)

theorem written_append (fs gs : List (String × Option Json)) :
    written (fs ++ gs) = written fs ++ written gs := by simp [written]

theorem names_written_sublist (fs : List (String × Option Json)) :
    ((written fs).map Prod.fst).Sublist (fs.map Prod.fst) := by
  induction fs with
  | nil => exact List.Sublist.refl []
  | cons f fs ih =>
    obtain ⟨name, v⟩ := f
    cases v with
    | none => exact ih.cons name
    | some v => exact ih.cons_cons name

theorem mem_written {fs : List (String × Option Json)} {name : String} {v : Json} :
    (name, v) ∈ written fs ↔ (name, some v) ∈ fs := by
  refine List.mem_filterMap.trans ⟨?_, fun h => ⟨(name, some v), h, rfl⟩⟩
  rintro ⟨⟨n, w⟩, h, hw⟩
  obtain ⟨w, rfl, hw⟩ := Option.map_eq_some_iff.mp hw
  cases hw
  exact h

theorem lookup_written {fs : List (String × Option Json)} (h : (fs.map Prod.fst).Nodup)
    (name : String) : (written fs).lookup name = (fs.lookup name).join := by
  induction fs with
  | nil => rfl
  | cons f fs ih =>
    obtain ⟨n, w⟩ := f
    obtain ⟨hn, hdistinct⟩ := List.nodup_cons.mp h
    cases hname : name == n with
    | true =>
      obtain rfl : name = n := by simpa using hname
      have habsent : (written fs).lookup name = none := by
        refine List.lookup_eq_none_iff.mpr fun m hm => ?_
        have hne : name ≠ m.1 := fun h =>
          hn (h ▸ (names_written_sublist fs).subset (List.mem_map_of_mem hm))
        simpa using hne
      rw [List.lookup_cons_self]
      cases w with
      | none => exact habsent
      | some w => exact List.lookup_cons_self
    | false =>
      have hskip : (written ((n, w) :: fs)).lookup name = (written fs).lookup name := by
        cases w with
        | none => rfl
        | some w =>
          simp only [written, List.filterMap_cons, Option.map_some, List.lookup_cons, hname]
      rw [hskip, ih hdistinct, List.lookup_cons, hname]

/-- The fields of a record in their order, each with the value that is written for it, if any. -/
structure Slots where
  fields : List (String × Option Json)
  distinct : (fields.map Prod.fst).Nodup

namespace Slots

def members (s : Slots) : List (String × Json) := written s.fields

/-- The fields of a record are found again. -/
theorem fields?_record (s : Slots) (names : List String) (h : s.fields.map Prod.fst = names) :
    (record s.members).fields? names = some s.members := by
  subst h
  have hsub : (s.members.map Prod.fst).Sublist (s.fields.map Prod.fst) :=
    names_written_sublist s.fields
  have hnamed (ms : List (String × Json)) :
      (ms.map fun m => (some m.1, m.2)).mapM (fun m : Option String × Json =>
        m.1.map fun k => (k, m.2)) = some ms := by
    induction ms with
    | nil => rfl
    | cons m ms ih =>
      rw [List.map_cons, List.mapM_cons, ih]
      rfl
  have hknown : s.members.filter (fun m => (s.fields.map Prod.fst).contains m.1) = s.members := by
    refine List.filter_eq_self.mpr fun m hm => ?_
    simpa using hsub.subset (List.mem_map_of_mem hm)
  simp only [record, fields?, hnamed, Option.bind_eq_bind, Option.bind_some, hknown]
  rw [if_pos (hsub.nodup s.distinct)]

def Every (p : Numeral → Prop) (s : Slots) : Prop := ∀ f ∈ s.fields, ∀ v ∈ f.2, v.Every p

theorem Every.record {s : Slots} {p : Numeral → Prop} (h : s.Every p) :
    (record s.members).Every p :=
  .record fun m hm => h (m.1, some m.2) (mem_written.mp hm) m.2 rfl

theorem depth_lt_record {s : Slots} {name : String} {v : Json} (h : (name, some v) ∈ s.fields) :
    v.depth < (record s.members).depth :=
  Json.depth_lt_record (mem_written.mpr h)

end Slots

/-! ### Reading fields -/

/-- What a field is read as, with what stands for one that is not there. -/
def readOr (read? : Json → Option α) (default : α) : Option Json → Option α
  | some v => read? v
  | none => some default

@[simp] theorem required?_members (s : Slots) (name : String) (read? : Json → Option α) :
    Fields.required? s.members name read? = (s.fields.lookup name).join.bind read? := by
  rw [Fields.required?, Slots.members, lookup_written s.distinct]

@[simp] theorem optional?_members (s : Slots) (name : String) (read? : Json → Option α)
    (default : α) :
    Fields.optional? s.members name read? default =
      readOr read? default (s.fields.lookup name).join := by
  rw [Fields.optional?, Slots.members, lookup_written s.distinct]
  cases (s.fields.lookup name).join <;> rfl

@[simp] theorem readOr_some (read? : Json → Option α) (default : α) (v : Json) :
    readOr read? default (some v) = read? v := rfl

theorem readOr_map_map {write : α → Json} {read? : Json → Option β} {f : α → β}
    (hread : ∀ a, read? (write a) = some (f a)) (hnull : ∀ a, write a ≠ .null) (o : Option α) :
    readOr (toOption? read?) none (o.map write) = some (o.map f) := by
  cases o with
  | none => rfl
  | some a =>
    rw [Option.map_some, readOr_some, toOption?, hread]
    · rfl
    · exact hnull a

theorem readOr_map {write : α → Json} {read? : Json → Option α}
    (hread : ∀ a, read? (write a) = some a) (hnull : ∀ a, write a ≠ .null) (o : Option α) :
    readOr (toOption? read?) none (o.map write) = some o := by
  simpa using readOr_map_map hread hnull o

@[simp] theorem readOr_map_text (o : Option String) :
    readOr (toOption? toText?) none (o.map text) = some o :=
  readOr_map toText?_text (by simp [text]) o

@[simp] theorem readOr_map_texts (o : Option (List String)) :
    readOr (toOption? toTexts?) none (o.map texts) = some o :=
  readOr_map toTexts?_texts (by simp [texts]) o

theorem memberOf?_eq (name : String) (write : α → Json) (o : Option α) :
    memberOf? name write o = written [(name, o.map write)] := by cases o <;> rfl

/-! ### Lists that may be empty -/

def unlessEmpty (write : α → Json) (xs : List α) : Option Json :=
  if xs.isEmpty then none else some (.array (xs.map write))

theorem memberIf_eq (name : String) (write : α → Json) (xs : List α) :
    memberIf (!xs.isEmpty) name (.array (xs.map write)) =
      written [(name, unlessEmpty write xs)] := by cases xs <;> rfl

theorem readOr_unlessEmpty {write : α → Json} {read? : Json → Option α} {xs : List α}
    (h : ∀ x ∈ xs, read? (write x) = some x) :
    readOr (toList? read?) [] (unlessEmpty write xs) = some xs := by
  cases xs with
  | nil => rfl
  | cons x xs => exact toList?_map h

@[simp] theorem readOr_unlessEmpty_text (ss : List String) :
    readOr toTexts? [] (unlessEmpty text ss) = some ss := readOr_unlessEmpty fun _ _ => rfl

theorem every_unlessEmpty {p : Numeral → Prop} {write : α → Json} {xs : List α}
    (h : ∀ x ∈ xs, (write x).Every p) : ∀ v ∈ unlessEmpty write xs, v.Every p := by
  cases xs with
  | nil => nofun
  | cons x xs =>
    rintro v ⟨⟩
    exact every_array_map h

end Json
end ProcessLint
