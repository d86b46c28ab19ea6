import ProcessLint.Json.Basic

/-! Values with a fixed list of fields, and how their fields are found. -/
namespace ProcessLint
namespace Json

/-- The fields found in a value, each name at most once. -/
abbrev Fields := List (String × Json)

/-- A record is an object, whose unknown members do not count and whose known ones are not
repeated, or an array of the first fields in their order. -/
def fields? (names : List String) : Json → Option Fields
  | .object members => do
    let named ← members.mapM fun m => m.1.map fun k => (k, m.2)
    let known := named.filter fun m => names.contains m.1
    if (known.map Prod.fst).Nodup then some known else none
  | .array items => if items.length ≤ names.length then some (names.zip items) else none
  | _ => none

namespace Fields

def required? (fs : Fields) (name : String) (read? : Json → Option α) : Option α :=
  (fs.lookup name).bind read?

def optional? (fs : Fields) (name : String) (read? : Json → Option α) (default : α) : Option α :=
  match fs.lookup name with
  | some v => read? v
  | none => some default

end Fields

/-! ### Reading values of a known kind -/

def toText? : Json → Option String
  | .string t => t
  | _ => none

def toBool? : Json → Option Bool
  | .bool b => some b
  | _ => none

def toBinary64? (number : Numeral → Option Binary64) : Json → Option Binary64
  | .number n => number n
  | _ => none

def toNat? : Json → Option Nat
  | .number n => n.toNat?
  | _ => none

def toList? (read? : Json → Option α) : Json → Option (List α)
  | .array items => items.mapM read?
  | _ => none

def toTexts? (v : Json) : Option (List String) := v.toList? toText?

/-- A value that may be left open by `null`. -/
def toOption? (read? : Json → Option α) : Json → Option (Option α)
  | .null => some none
  | v => (read? v).map some

/-- Entries under free names: in the order of the names, each name once. -/
structure Map (α : Type) where
  entries : List (String × α) := []
  ordered : entries.Pairwise (fun a b => a.1 < b.1) := by exact .nil

namespace Map

/-- Puts an entry in its place, where it replaces one of that name. -/
def insertInto {α : Type} (name : String) (value : α) : List (String × α) → List (String × α)
  | [] => [(name, value)]
  | e :: es =>
    if name < e.1 then (name, value) :: e :: es
    else if name = e.1 then (name, value) :: es
    else e :: insertInto name value es

theorem eq_or_mem_of_mem_insertInto {α : Type} {name : String} {value : α}
    {es : List (String × α)} {e : String × α} (h : e ∈ insertInto name value es) :
    e = (name, value) ∨ e ∈ es := by
  induction es with
  | nil => exact Or.inl (by simpa [insertInto] using h)
  | cons a as ih =>
    simp only [insertInto] at h
    split at h
    · simpa using h
    · split at h
      · rcases List.mem_cons.mp h with he | he
        · exact Or.inl he
        · exact Or.inr (List.mem_cons_of_mem _ he)
      · rcases List.mem_cons.mp h with he | he
        · exact Or.inr (by simp [he])
        · exact (ih he).imp_right (List.mem_cons_of_mem _)

theorem ordered_insertInto {α : Type} (name : String) (value : α) {es : List (String × α)}
    (h : es.Pairwise fun a b => a.1 < b.1) :
    (insertInto name value es).Pairwise fun a b => a.1 < b.1 := by
  induction es with
  | nil => simp [insertInto]
  | cons a as ih =>
    obtain ⟨ha, has⟩ := List.pairwise_cons.mp h
    simp only [insertInto]
    split
    · rename_i hlt
      refine List.pairwise_cons.mpr ⟨fun b hb => ?_, h⟩
      rcases List.mem_cons.mp hb with rfl | hb
      · exact hlt
      · exact String.lt_trans hlt (ha b hb)
    · rename_i hge
      split
      · rename_i heq
        exact List.pairwise_cons.mpr ⟨fun b hb => heq ▸ ha b hb, has⟩
      · rename_i hne
        refine List.pairwise_cons.mpr ⟨fun b hb => ?_, ih has⟩
        rcases eq_or_mem_of_mem_insertInto hb with rfl | hb
        · exact String.not_le.mp fun hle => hne (String.le_antisymm hle (String.not_lt.mp hge))
        · exact ha b hb

def insert {α : Type} (m : Map α) (name : String) (value : α) : Map α :=
  ⟨insertInto name value m.entries, ordered_insertInto name value m.ordered⟩

def ofList {α : Type} (es : List (String × α)) : Map α :=
  es.foldl (fun m e => m.insert e.1 e.2) {}

end Map

def toMap? {α : Type} (read? : Json → Option α) : Json → Option (Map α)
  | .object members => do
    let entries ← members.mapM fun m => do
      let k ← m.1
      let v ← read? m.2
      some (k, v)
    some (Map.ofList entries)
  | _ => none

end Json
end ProcessLint
