import ProcessLint.Text.Word

/-! Names are compared by their keys: punctuation and case do not count. -/
namespace ProcessLint
namespace Identifier

/-- The characters of a name that count, in lower case. -/
def canonical (s : String) : String :=
  .ofList ((s.toList.filter Text.isNameChar).map Char.toLower)

@[simp] theorem toList_canonical (s : String) :
    (canonical s).toList = (s.toList.filter Text.isNameChar).map Char.toLower := by
  simp [canonical]

theorem toNat_lt_of_isNameChar {c : Char} (h : Text.isNameChar c = true) : c.toNat < 128 := by
  delta Text.isNameChar Char.isAlphanum Char.isAlpha Char.isUpper Char.isLower Char.isDigit at h
  simp only [Bool.or_eq_true, Bool.and_eq_true, decide_eq_true_eq, beq_iff_eq,
    UInt32.le_iff_toNat_le, ge_iff_le] at h
  rcases h with h | rfl
  · have hcapital : 'Z'.val.toNat = 90 := rfl
    have hletter : 'z'.val.toNat = 122 := rfl
    have hdigit : '9'.val.toNat = 57 := rfl
    have hval : c.toNat = c.val.toNat := rfl
    omega
  · decide

theorem isNameChar_toLower {c : Char} (h : Text.isNameChar c = true) :
    Text.isNameChar c.toLower = true ∧ c.toLower.toLower = c.toLower := by
  have hascii : ∀ n < 128, Text.isNameChar (Char.ofNat n) = true →
      Text.isNameChar (Char.ofNat n).toLower = true ∧
        (Char.ofNat n).toLower.toLower = (Char.ofNat n).toLower := by decide
  have hc := hascii c.toNat (toNat_lt_of_isNameChar h)
  rw [Char.ofNat_toNat] at hc
  exact hc h

@[simp] theorem canonical_canonical (s : String) : canonical (canonical s) = canonical s := by
  refine String.toList_injective ?_
  have hname : ∀ c ∈ (canonical s).toList,
      Text.isNameChar c = true ∧ c.toLower = c := by
    intro c hc
    rw [toList_canonical] at hc
    obtain ⟨b, hb, rfl⟩ := List.mem_map.mp hc
    exact isNameChar_toLower (List.mem_filter.mp hb).2
  rw [toList_canonical (canonical s), List.filter_eq_self.mpr fun c hc => (hname c hc).1]
  exact (List.map_congr_left fun c hc => (hname c hc).2).trans (List.map_id _)

/-- A name in canonical form. -/
structure Key where
  text : String
  isCanonical : ∃ s, text = canonical s
  deriving DecidableEq

namespace Key

def of (s : String) : Key := ⟨canonical s, s, rfl⟩

@[simp] theorem text_of (s : String) : (of s).text = canonical s := rfl

theorem of_eq_of_iff {s t : String} : of s = of t ↔ canonical s = canonical t := by
  simp [of]

@[simp] theorem of_text (k : Key) : of k.text = k := by
  obtain ⟨t, s, rfl⟩ := k
  simp [of]

def isBlank (k : Key) : Bool := k.text.isEmpty

end Key
end Identifier
end ProcessLint
