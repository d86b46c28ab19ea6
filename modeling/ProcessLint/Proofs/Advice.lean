import Mathlib.Data.List.Forall2
import Mathlib.Data.List.Nodup
import ProcessLint.Heuristic.Preset

/-! What heuristics advise. A scan is a row of blocks, one for each code that its heuristics list:
what stands in a block carries the code, and the name of the heuristic, and is no graver than the
heuristic may be. -/
namespace ProcessLint
namespace Heuristic

/-! ### Blocks -/

section

variable {holds : String → List Finding → Prop} {codes codes' : List String} {code : String}
  {block fs gs : List Finding}

/-- The findings are blocks one after the other, one block for each code, empty ones included. -/
def InBlocks (holds : String → List Finding → Prop) (codes : List String) (fs : List Finding) :
    Prop :=
  ∃ blocks, List.Forall₂ holds codes blocks ∧ fs = blocks.flatten

namespace InBlocks

theorem nil : InBlocks holds [] [] := ⟨[], .nil, rfl⟩

theorem single (h : holds code block) : InBlocks holds [code] block :=
  ⟨[block], .cons h .nil, (List.append_nil block).symm⟩

theorem append (h : InBlocks holds codes fs) (k : InBlocks holds codes' gs) :
    InBlocks holds (codes ++ codes') (fs ++ gs) := by
  obtain ⟨blocks, hblocks, rfl⟩ := h
  obtain ⟨others, hothers, rfl⟩ := k
  exact ⟨blocks ++ others, List.rel_append hblocks hothers, List.flatten_append.symm⟩

theorem mono {holds' : String → List Finding → Prop}
    (h : ∀ code block, holds code block → holds' code block) (k : InBlocks holds codes fs) :
    InBlocks holds' codes fs :=
  k.imp fun _ hblocks => ⟨hblocks.1.imp h, hblocks.2⟩

theorem exists_block (h : InBlocks holds codes fs) {f : Finding} (hf : f ∈ fs) :
    ∃ code ∈ codes, ∃ block, holds code block ∧ f ∈ block := by
  obtain ⟨blocks, hblocks, rfl⟩ := h
  induction hblocks with
  | nil => cases hf
  | @cons code block codes blocks hblock _ ih =>
    rcases List.mem_append.mp hf with hf | hf
    · exact ⟨code, List.mem_cons_self, block, hblock, hf⟩
    · obtain ⟨code, hcode, hrest⟩ := ih hf
      exact ⟨code, List.mem_cons_of_mem _ hcode, hrest⟩

end InBlocks

/-- Different findings with one code. -/
def HaveCode (code : String) (block : List Finding) : Prop :=
  (∀ f ∈ block, f.code = code) ∧ block.Nodup

namespace InBlocks

theorem code_mem (h : InBlocks HaveCode codes fs) {f : Finding} (hf : f ∈ fs) :
    f.code ∈ codes := by
  obtain ⟨code, hcode, block, hblock, hf⟩ := h.exists_block hf
  rwa [hblock.1 f hf]

theorem nodup (h : InBlocks HaveCode codes fs) (hcodes : codes.Nodup) : fs.Nodup := by
  obtain ⟨blocks, hblocks, rfl⟩ := h
  induction hblocks with
  | nil => exact List.nodup_nil
  | @cons code block codes blocks hblock hrest ih =>
    obtain ⟨hnew, hcodes⟩ := List.nodup_cons.mp hcodes
    rw [List.flatten_cons, List.nodup_append]
    refine ⟨hblock.2, ih hcodes, fun f hf g hg hfg => ?_⟩
    have hcode := code_mem ⟨blocks, hrest, rfl⟩ hg
    rw [← hfg, hblock.1 f hf] at hcode
    exact hnew hcode

theorem filter_infix (h : InBlocks HaveCode codes fs) (hcodes : codes.Nodup) (c : String) :
    fs.filter (fun f => f.code = c) <:+: fs := by
  obtain ⟨blocks, hblocks, rfl⟩ := h
  induction hblocks with
  | nil => exact List.infix_rfl
  | @cons code block codes blocks hblock hrest ih =>
    obtain ⟨hnew, hcodes⟩ := List.nodup_cons.mp hcodes
    rw [List.flatten_cons, List.filter_append]
    by_cases hc : code = c
    · have hall : block.filter (fun f => f.code = c) = block :=
        List.filter_eq_self.mpr fun f hf => by simpa [hc] using hblock.1 f hf
      have hnone : blocks.flatten.filter (fun f => f.code = c) = [] :=
        List.filter_eq_nil_iff.mpr fun f hf hfc => by
          have hcode := code_mem ⟨blocks, hrest, rfl⟩ hf
          rw [decide_eq_true_eq.mp hfc, ← hc] at hcode
          exact hnew hcode
      rw [hall, hnone, List.append_nil]
      exact (List.prefix_append _ _).isInfix
    · have hnone : block.filter (fun f => f.code = c) = [] :=
        List.filter_eq_nil_iff.mpr fun f hf => by simpa [hblock.1 f hf] using hc
      rw [hnone, List.nil_append]
      exact (ih hcodes).trans (List.suffix_append _ _).isInfix

end InBlocks

end

/-! ### The findings of one heuristic -/

namespace Banking

variable {h : Banking} {s : Scan} {code : String} {severity : Severity} {block : List Finding}

/-- Different findings that the heuristic may give under the code. -/
structure IsBlock (h : Banking) (code : String) (block : List Finding) : Prop where
  nodup : block.Nodup
  carries : ∀ f ∈ block,
    f.code = code ∧ f.rule = h.name ∧ h.maxSeverity.reaches f.severity = true

theorem IsBlock.inBlocks_when (hblock : h.IsBlock code block) (holds : Bool) :
    InBlocks h.IsBlock [code] (when holds block) := by
  apply InBlocks.single
  cases holds with
  | true => exact hblock
  | false => exact ⟨List.nodup_nil, nofun⟩

theorem inBlocks_advise (holds : Bool) (hseverity : h.maxSeverity.reaches severity = true)
    (message suggestion : String) :
    InBlocks h.IsBlock [code] (when holds [h.advise code severity message suggestion]) := by
  have hblock : h.IsBlock code [h.advise code severity message suggestion] :=
    ⟨List.nodup_singleton _, List.forall_mem_singleton.mpr ⟨rfl, rfl, hseverity⟩⟩
  exact hblock.inBlocks_when holds

theorem inBlocks_each (holds : Bool) (s : Scan) {needles : List String} (hneedles : needles.Nodup)
    (hseverity : h.maxSeverity.reaches severity = true) (front back suggestion : String) :
    InBlocks h.IsBlock [code] (when holds
      (each s needles fun n => h.advise code severity (front ++ n ++ back) suggestion)) := by
  have hnodup : (each s needles fun n =>
      h.advise code severity (front ++ n ++ back) suggestion).Nodup := by
    refine (hneedles.filter _).map fun n m hnm => ?_
    have hmessage : front ++ n ++ back = front ++ m ++ back := congrArg Finding.message hnm
    rwa [String.append_left_inj, String.append_right_inj] at hmessage
  have hblock : h.IsBlock code (each s needles fun n =>
      h.advise code severity (front ++ n ++ back) suggestion) :=
    ⟨hnodup, List.forall_mem_map.mpr fun _ _ => ⟨rfl, rfl, hseverity⟩⟩
  exact hblock.inBlocks_when holds

/-- The findings of a heuristic come in the order of its codes. -/
theorem inBlocks_check (h : Banking) (s : Scan) : InBlocks h.IsBlock h.codes (h.check s) := by
  -- the codes are taken apart as `check` appends its branches
  cases h with
  | cardData =>
    change InBlocks _ (["PCI-DSS-001"] ++ ["PCI-DSS-002"] ++ ["PCI-DSS-003"]) _
    apply InBlocks.append
    · apply InBlocks.append
      · exact inBlocks_advise _ rfl _ _
      · exact inBlocks_advise _ rfl _ _
    · apply inBlocks_each <;> decide
  | wireTransfer =>
    change InBlocks _ (["WIRE-001"] ++ ["WIRE-002"]) _
    apply InBlocks.append
    · exact inBlocks_advise _ rfl _ _
    · exact inBlocks_advise _ rfl _ _
  | fraudScreening =>
    change InBlocks _ (["FRAUD-001"] ++ ["FRAUD-002"]) _
    apply InBlocks.append
    · apply inBlocks_each <;> decide
    · exact inBlocks_advise _ rfl _ _
  | segregation =>
    change InBlocks _ (["SOX-001"] ++ ["SOX-002"]) _
    apply InBlocks.append
    · exact inBlocks_advise _ rfl _ _
    · exact inBlocks_advise _ rfl _ _
  | sensitiveData => apply inBlocks_each <;> decide
  | transactionIntegrity =>
    change InBlocks _ (["TXN-001"] ++ ["TXN-002"]) _
    apply InBlocks.append
    · exact inBlocks_advise _ rfl _ _
    · exact inBlocks_advise _ rfl _ _
  | auditTrail => apply inBlocks_each <;> decide

theorem carries_of_mem_check {f : Finding} (hf : f ∈ h.check s) :
    f.rule = h.name ∧ f.code ∈ h.codes ∧ h.maxSeverity.reaches f.severity = true := by
  obtain ⟨code, hcode, block, hblock, hf⟩ := (h.inBlocks_check s).exists_block hf
  obtain ⟨hfcode, hrule, hseverity⟩ := hblock.carries f hf
  exact ⟨hrule, hfcode ▸ hcode, hseverity⟩

end Banking

/-! ### Scans -/

theorem inBlocks_scan (hs : List Banking) (text : String) :
    InBlocks HaveCode (hs.flatMap Banking.codes) (scan hs text) := by
  induction hs with
  | nil => exact .nil
  | cons h hs ih =>
    have hcheck : InBlocks HaveCode h.codes (h.check (.ofText text)) :=
      (h.inBlocks_check _).mono fun _ _ hblock => ⟨fun f hf => (hblock.carries f hf).1, hblock.nodup⟩
    exact hcheck.append ih

namespace Preset

theorem nodup_codes (p : Preset) : (p.rules.flatMap Banking.codes).Nodup := by
  cases p with
  | none => exact List.nodup_nil
  | banking | all => decide

/-- What a preset finds in a text is what its heuristics find there, one after the other. Each
finding of a heuristic carries its name and one of its codes and is no graver than it says. No
finding is given twice, and those with one code stand together. -/
theorem scan_keeps_contracts (p : Preset) (text : String) :
    scan p.rules text = (p.rules.map fun h => h.check (.ofText text)).flatten ∧
      (∀ h ∈ p.rules, ∀ f ∈ h.check (.ofText text),
        f.rule = h.name ∧ f.code ∈ h.codes ∧ h.maxSeverity.reaches f.severity = true) ∧
      (scan p.rules text).Nodup ∧
      ∀ code, (scan p.rules text).filter (fun f => f.code = code) <:+: scan p.rules text := by
  have hblocks := inBlocks_scan p.rules text
  refine ⟨?_, fun h _ f hf => Banking.carries_of_mem_check hf, hblocks.nodup p.nodup_codes,
    hblocks.filter_infix p.nodup_codes⟩
  rw [scan, List.flatMap_def]

theorem scan_keeps_contracts_update :
    let fs := scan banking.rules "Transfer Update"
    let f := Banking.auditTrail.advise "AUDIT-001" .warning
      "Critical operation 'Update' should have audit logging"
      "Add audit trail for regulatory compliance"
    Banking.auditTrail ∈ banking.rules ∧ f ∈ Banking.auditTrail.check (.ofText "Transfer Update") ∧
      (f.rule = Banking.auditTrail.name ∧ f.code ∈ Banking.auditTrail.codes ∧
        Banking.auditTrail.maxSeverity.reaches f.severity = true) ∧
      fs.Nodup ∧ fs.filter (fun f => f.code = "AUDIT-001") <:+: fs := by
  intro fs f
  have hrule : Banking.auditTrail ∈ banking.rules := by decide
  have hf : f ∈ Banking.auditTrail.check (.ofText "Transfer Update") := by decide +kernel
  obtain ⟨-, hcarries, hnodup, hinfix⟩ := scan_keeps_contracts banking "Transfer Update"
  exact ⟨hrule, hf, hcarries _ hrule f hf, hnodup, hinfix "AUDIT-001"⟩

end Preset

end Heuristic
end ProcessLint
