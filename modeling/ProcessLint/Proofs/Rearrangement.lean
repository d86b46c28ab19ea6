import Mathlib.Data.Fin.VecNotation
import Mathlib.Data.List.FinRange
import Mathlib.Logic.Equiv.Defs
import ProcessLint.Proofs.Declarations

/-! Definitions with the same items in another order: as long as relationships find the same names
declared before them and enum properties of one key keep their order, the findings are the same up
to their own order. -/
namespace ProcessLint

/-- Some enum property of one item and some of the other have the same key. -/
def Item.SharesEnum (i j : Item) : Prop :=
  ∃ d ∈ i.enumDeclarations, ∃ e ∈ j.enumDeclarations, d.key = e.key

instance (i j : Item) : Decidable (i.SharesEnum j) :=
  inferInstanceAs (Decidable (∃ d ∈ i.enumDeclarations, ∃ e ∈ j.enumDeclarations, d.key = e.key))

/-- The same items in another order. Before each relationship the same names are declared, and
items that share an enum property keep their order. -/
structure Rearrangement (is js : List Item) where
  /-- Where an item comes to stand. -/
  place : Fin is.length ≃ Fin js.length
  get_place (n : Fin is.length) : js.get (place n) = is.get n
  same_names (n : Fin is.length) : (is.get n).isRelationship → ∀ name,
    (Names.ofItems (is.take n)).Has name ↔ (Names.ofItems (js.take (place n))).Has name
  keeps_enums (m n : Fin is.length) :
    m < n → (is.get m).SharesEnum (is.get n) → place m < place n

namespace Rearrangement

theorem map_finRange_perm {m n : Nat} (e : Fin m ≃ Fin n) :
    ((List.finRange m).map e).Perm (List.finRange n) := by
  refine (List.perm_ext_iff_of_nodup ?_ (List.nodup_finRange n)).mpr fun k => ?_
  · exact (List.nodup_finRange m).map e.injective
  · have hk : ∃ j, e j = k := e.surjective k
    simpa using hk

theorem flatMap_zipIdx {α β : Type} (as : List α) (f : α × Nat → List β) :
    as.zipIdx.flatMap f = (List.finRange as.length).flatMap fun n => f (as.get n, n) := by
  have hzip : as.zipIdx = (List.finRange as.length).map fun n => (as.get n, n.val) :=
    List.ext_getElem (by simp) (by simp)
  rw [hzip, List.flatMap_map]

theorem flatMap_filter {α β : Type} {p : α → Bool} {f : α → List β} (as : List α)
    (h : ∀ a, p a = false → f a = []) : (as.filter p).flatMap f = as.flatMap f := by
  induction as with
  | nil => rfl
  | cons a as ih =>
    by_cases ha : p a
    · simp [ha, ih]
    · simp [ha, ih, h a (by simpa using ha)]

variable {is js : List Item}

theorem perm (ρ : Rearrangement is js) : is.Perm js := by
  have hget : (List.finRange is.length).map is.get =
      ((List.finRange is.length).map ρ.place).map js.get := by
    rw [List.map_map]
    exact List.map_congr_left fun n _ => (ρ.get_place n).symm
  have hperm := (map_finRange_perm ρ.place).map js.get
  rwa [← hget, List.map_get_finRange, List.map_get_finRange] at hperm

/-! ### Enum properties -/

def declares (key : String) (i : Item) : Bool := i.enumDeclarations.any (·.key = key)

theorem sharesEnum_of_declares {key : String} {i j : Item} (hi : declares key i = true)
    (hj : declares key j = true) : i.SharesEnum j := by
  simp only [declares, List.any_eq_true, decide_eq_true_eq] at hi hj
  obtain ⟨d, hd, rfl⟩ := hi
  obtain ⟨e, he, hkey⟩ := hj
  exact ⟨d, hd, e, he, hkey.symm⟩

def positions (key : String) (is : List Item) : List (Fin is.length) :=
  (List.finRange is.length).filter fun n => declares key (is.get n)

theorem pairwise_positions (key : String) (is : List Item) :
    (positions key is).Pairwise (· < ·) :=
  (List.pairwise_lt_finRange _).filter _

/-- The declarations of a key are found at the positions of the key. -/
theorem ofKey_eq_flatMap_positions (key : String) (is : List Item) :
    EnumDeclaration.ofKey (is.flatMap Item.enumDeclarations) key =
      (positions key is).flatMap fun n => EnumDeclaration.ofKey (is.get n).enumDeclarations key := by
  have hnone (n : Fin is.length) (h : declares key (is.get n) = false) :
      EnumDeclaration.ofKey (is.get n).enumDeclarations key = [] := by
    simpa [declares, EnumDeclaration.ofKey, List.filter_eq_nil_iff] using h
  rw [positions, flatMap_filter _ hnone, EnumDeclaration.ofKey, List.filter_flatMap]
  conv_lhs => rw [← List.map_get_finRange is, List.flatMap_map]
  rfl

theorem map_place_positions (ρ : Rearrangement is js) (key : String) :
    (positions key is).map ρ.place = positions key js := by
  have hsorted : ((positions key is).map ρ.place).Pairwise (· < ·) := by
    rw [List.pairwise_map]
    refine (pairwise_positions key is).imp_of_mem fun {m n} hm hn hlt => ?_
    exact ρ.keeps_enums m n hlt
      (sharesEnum_of_declares (List.mem_filter.mp hm).2 (List.mem_filter.mp hn).2)
  have hperm : ((positions key is).map ρ.place).Perm (positions key js) := by
    have hplaces := (map_finRange_perm ρ.place).filter fun n => declares key (js.get n)
    rw [List.filter_map] at hplaces
    simpa only [positions, Function.comp_def, ρ.get_place] using hplaces
  -- two sorted arrangements of the same positions are one
  exact hperm.eq_of_pairwise (fun m n _ _ h k => absurd h (lt_asymm k)) hsorted
    (pairwise_positions key js)

/-- Enum properties of one key are declared in the same order. -/
theorem ofKey_eq (ρ : Rearrangement is js) (key : String) :
    EnumDeclaration.ofKey (is.flatMap Item.enumDeclarations) key =
      EnumDeclaration.ofKey (js.flatMap Item.enumDeclarations) key := by
  rw [ofKey_eq_flatMap_positions, ofKey_eq_flatMap_positions, ← ρ.map_place_positions key,
    List.flatMap_map]
  simp only [ρ.get_place]

end Rearrangement

namespace Validator

variable {is js : List Item}

theorem itemWarnings_perm (v : Validator) (ρ : Rearrangement is js) :
    (is.zipIdx.flatMap fun i => v.itemWarnings (Names.ofItems (is.take i.2)) i.1).Perm
      (js.zipIdx.flatMap fun i => v.itemWarnings (Names.ofItems (js.take i.2)) i.1) := by
  have hsame (n : Fin is.length) : v.itemWarnings (Names.ofItems (is.take n)) (is.get n) =
      v.itemWarnings (Names.ofItems (js.take (ρ.place n))) (js.get (ρ.place n)) := by
    rw [ρ.get_place]
    exact v.itemWarnings_congr _ (ρ.same_names n)
  have hplaces := (Rearrangement.map_finRange_perm ρ.place).flatMap_right
    fun n : Fin js.length => v.itemWarnings (Names.ofItems (js.take n)) (js.get n)
  rw [Rearrangement.flatMap_zipIdx, Rearrangement.flatMap_zipIdx]
  simpa only [List.flatMap_map, ← hsame] using hplaces

theorem findings_perm (v : Validator) {fs gs : List Flag} (h : fs.Perm gs) :
    (v.findings fs).Perm (v.findings gs) := (h.filter _).map _

theorem contains_congr {as bs : List String} (h : as.Perm bs) : as.contains = bs.contains := by
  funext a
  rw [Bool.eq_iff_iff, List.contains_iff_mem, List.contains_iff_mem, h.mem_iff]

/-- What is told at the end depends on the order of declarations only in its own order. -/
theorem settleFlags_perm (v : Validator) (ρ : Rearrangement is js) :
    (referenceFlags (.ofItems is)).Perm (referenceFlags (.ofItems js)) ∧
      (enumFlags (.ofItems is)).Perm (enumFlags (.ofItems js)) ∧
      (v.hostingFlags (.ofItems is)).Perm (v.hostingFlags (.ofItems js)) := by
  have hobjects : (Memory.ofItems is).dataObjects.contains =
      (Memory.ofItems js).dataObjects.contains := contains_congr (ρ.perm.filterMap _)
  refine ⟨?_, ?_, ?_⟩
  · unfold referenceFlags
    rw [hobjects]
    exact ((ρ.perm.filterMap _).filter _).map _
  · exact (EnumRecord.mergeAll_perm ρ.ofKey_eq).filterMap _
  · unfold hostingFlags
    rw [hobjects]
    dsimp only
    split
    · exact .nil
    · exact ((ρ.perm.filterMap _).filter _).map _

/-- The order of declarations does not matter but for the names declared before a relationship and
for enum properties of one key: the errors and the warnings are the same up to their order. -/
theorem validate_perm_of_rearrangement (v : Validator) {d d' : Document}
    (ρ : Rearrangement d.items d'.items) :
    (v.validate d).errors.Perm (v.validate d').errors ∧
      (v.validate d).warnings.Perm (v.validate d').warnings := by
  obtain ⟨hreferences, henums, hhosting⟩ := v.settleFlags_perm ρ
  rw [errors_validate, errors_validate, warnings_validate, warnings_validate]
  constructor
  · exact (ρ.perm.flatMap_right _).append
      ((v.findings_perm hreferences).append (v.findings_perm henums))
  · exact (v.itemWarnings_perm ρ).append (v.findings_perm hhosting)

end Validator

/-! ### A rearranged definition -/

namespace Rearrangement

def loanStates : Entity where
  name := "Loan"
  dataRef := "DO_Loan"
  properties := [{ name := "state", type := "Enum", values := some ["open", "paid"] }]

/-- The state that a loan begins with, which is none of its states. -/
def loanStart : Entity where
  name := "Loan"
  dataRef := "DO_Loan"
  properties := [{ name := "state", type := "enum", default := some "lost" }]

def loanHome : Relationship where
  name := "Home"
  source := "Loan"
  target := "Ledger"
  type := "hosted_on"

abbrev loanItems : List Item :=
  [.entity loanStates, .entity loanStart, .dataObject { name := "DO_Loan" },
    .relationship loanHome]

/-- The same items with the relationship between the two parts of the entity. -/
abbrev loanItemsReordered : List Item :=
  [.dataObject { name := "DO_Loan" }, .entity loanStates, .relationship loanHome,
    .entity loanStart]

theorem nonempty_loanRearrangement : Nonempty (Rearrangement loanItems loanItemsReordered) := by
  constructor
  exact
    { place := ⟨![1, 3, 0, 2], ![2, 0, 3, 1], fun n => by revert n; decide,
        fun n => by revert n; decide⟩
      get_place := by decide
      same_names := by
        intro n hn name
        have hlast : n = (3 : Fin 4) := by
          revert n
          decide
        subst hlast
        simp [loanItems, loanItemsReordered, Names.ofItems, Names.Has, Item.entityName?,
          Item.assetName?, loanStates, loanStart, eq_comm]
      keeps_enums := by decide +kernel }

theorem validate_perm_loanItems :
    let v : Validator := {}
    (v.validate { items := loanItems }).counts = (1, 3) ∧
      (v.validate { items := loanItems }).errors.Perm
        (v.validate { items := loanItemsReordered }).errors ∧
      (v.validate { items := loanItems }).warnings.Perm
        (v.validate { items := loanItemsReordered }).warnings := by
  obtain ⟨ρ⟩ := nonempty_loanRearrangement
  exact ⟨by decide +kernel, Validator.validate_perm_of_rearrangement {} ρ⟩

end Rearrangement
end ProcessLint
