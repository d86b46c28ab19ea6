import ProcessLint.Json.Token

/-! Tokens that read back. A text between quotes is read up to its closing quote, a number as far
as the next character cannot belong to it. -/
namespace ProcessLint
namespace Json
namespace Token

/-! ### Texts -/

theorem scanPieces_plain {c : Char} (hq : c ≠ '"') (hb : c ≠ '\\') (hc : ¬ c.toNat < 32)
    (r : List Char) :
    scanPieces (c :: r) = (scanPieces r).map fun p => (.char c :: p.1, p.2) := by
  rw [scanPieces]
  · rw [if_neg (by simp [hb, hc])]
    cases scanPieces r <;> rfl
  · rintro rfl
    exact absurd rfl hq
  all_goals simp_all

theorem scanPieces_escaped {c e : Char} (h : unescape? c = some e) (hu : c ≠ 'u')
    (r : List Char) :
    scanPieces ('\\' :: c :: r) = (scanPieces r).map fun p => (.char e :: p.1, p.2) := by
  rw [scanPieces, h]
  · cases scanPieces r <;> rfl
  · simp_all

/-- The four digits of a control character give it back. -/
theorem hexNumber?_control :
    ∀ n < 32, Text.hexNumber? ['0', '0', Text.hexDigit (n / 16), Text.hexDigit (n % 16)] =
      some n := by decide

/-- A character is escaped by a letter, by its number, or not at all. -/
theorem escape_cases (c : Char) :
    (∃ l, escape c = ['\\', l] ∧ unescape? l = some c ∧ l ≠ 'u') ∨
      (escape c = ['\\', 'u', '0', '0', Text.hexDigit (c.toNat / 16),
        Text.hexDigit (c.toNat % 16)] ∧ c.toNat < 32) ∨
      (escape c = [c] ∧ c ≠ '"' ∧ c ≠ '\\' ∧ ¬ c.toNat < 32) := by
  have hof (n : Nat) (h : c.toNat = n) : c = Char.ofNat n := h ▸ (Char.ofNat_toNat c).symm
  by_cases hq : c = '"'
  · exact Or.inl ⟨'"', by subst hq; decide⟩
  by_cases hb : c = '\\'
  · exact Or.inl ⟨'\\', by subst hb; decide⟩
  by_cases hn : c = '\n'
  · exact Or.inl ⟨'n', by subst hn; decide⟩
  by_cases hr : c = '\r'
  · exact Or.inl ⟨'r', by subst hr; decide⟩
  by_cases ht : c = '\t'
  · exact Or.inl ⟨'t', by subst ht; decide⟩
  by_cases h8 : c.toNat = 8
  · exact Or.inl ⟨'b', by rw [hof 8 h8]; decide⟩
  by_cases h12 : c.toNat = 12
  · exact Or.inl ⟨'f', by rw [hof 12 h12]; decide⟩
  by_cases hc : c.toNat < 32
  · exact Or.inr (Or.inl ⟨by simp [escape, hq, hb, hn, hr, ht, h8, h12, hc], hc⟩)
  · exact Or.inr (Or.inr ⟨by simp [escape, hq, hb, hn, hr, ht, h8, h12, hc], hq, hb, hc⟩)

theorem scanPieces_escape (c : Char) (r : List Char) :
    scanPieces (escape c ++ r) = (scanPieces r).map fun p => (.char c :: p.1, p.2) := by
  obtain ⟨l, h, hl, hu⟩ | ⟨h, hc⟩ | ⟨h, hq, hb, hc⟩ := escape_cases c
  · rw [h]
    exact scanPieces_escaped hl hu r
  · have hunit : Piece.ofUnit c.toNat = .char c := by
      rw [Piece.ofUnit, if_neg (by omega), Char.ofNat_toNat]
    simp only [h, List.cons_append, List.nil_append, scanPieces, hexNumber?_control _ hc]
    cases scanPieces r with
    | none => rfl
    | some p => simp [hunit]
  · rw [h]
    exact scanPieces_plain hq hb hc r

theorem scanPieces_flatMap_escape (cs r : List Char) :
    scanPieces (cs.flatMap escape ++ '"' :: r) = some (cs.map .char, r) := by
  induction cs with
  | nil => rfl
  | cons c cs ih =>
    rw [List.flatMap_cons, List.append_assoc, scanPieces_escape, ih]
    rfl

theorem joinPieces_map_char (cs : List Char) : joinPieces (cs.map .char) = some cs := by
  induction cs with
  | nil => rfl
  | cons c cs ih =>
    rw [List.map_cons, joinPieces, ih]
    rfl

/-- A text between quotes is read as the text, also one without characters. -/
theorem scan?_quoted (t : Option String) (r : List Char) :
    scan? (quoted t ++ r) = some (string t, r) := by
  cases t with
  | none => rfl
  | some s =>
    have h := scanPieces_flatMap_escape s.toList r
    simp [quoted, scan?, h, joinPieces_map_char]

/-! ### Numbers -/

def continuesNumber (c : Char) : Bool := c.isDigit || c == '.' || c == 'e' || c == 'E'

/-- No number goes on where the text starts. -/
def StopsNumber (cs : List Char) : Prop := ∀ c ∈ cs.head?, continuesNumber c = false

theorem StopsNumber.isDigit {cs : List Char} (h : StopsNumber cs) :
    ∀ c ∈ cs.head?, c.isDigit = false := fun c hc => by
  have := h c hc
  simp_all [continuesNumber]

theorem StopsNumber.ne_point {cs : List Char} (h : StopsNumber cs) : ∀ c ∈ cs.head?, c ≠ '.' := by
  rintro c hc rfl
  exact absurd (h _ hc) (by decide)

theorem spanDigits_append {ds r : List Char} (hds : ∀ c ∈ ds, c.isDigit)
    (hr : ∀ c ∈ r.head?, c.isDigit = false) : spanDigits (ds ++ r) = (ds, r) := by
  unfold spanDigits
  rw [List.takeWhile_append_of_pos hds, List.dropWhile_append_of_pos hds]
  cases r with
  | nil => simp
  | cons c r => simp [hr c rfl]

theorem isDigit_of_mem_toDigits {n : Nat} : ∀ c ∈ Nat.toDigits 10 n, c.isDigit :=
  fun _ hc => Nat.isDigit_of_mem_toDigits (by decide) (Nat.le_refl 10) hc

theorem toDigits_eq_cons (n : Nat) : ∃ d ds, Nat.toDigits 10 n = d :: ds ∧ d.isDigit := by
  cases hds : Nat.toDigits 10 n with
  | nil => exact absurd hds Nat.toDigits_ne_nil
  | cons d ds => exact ⟨d, ds, rfl, isDigit_of_mem_toDigits d (hds ▸ List.mem_cons_self)⟩

theorem head?_toDigits_ne {n : Nat} (hn : n ≠ 0) : (Nat.toDigits 10 n).head? ≠ some '0' := by
  induction n using Nat.strongRecOn with
  | ind n ih =>
    rw [Nat.toDigits_eq_if (by decide)]
    split
    · rename_i hlt
      have hdigit : ∀ m < 10, m ≠ 0 → Nat.digitChar m ≠ '0' := by decide
      simpa using hdigit n hlt hn
    · have hhead := ih (n / 10) (by omega) (by omega)
      obtain ⟨d, ds, hds, -⟩ := toDigits_eq_cons (n / 10)
      simpa [hds] using hhead

theorem scanWhole?_append (n : Nat) {r : List Char} (hr : ∀ c ∈ r.head?, c.isDigit = false) :
    scanWhole? (Nat.toDigits 10 n ++ r) = some (n, r) := by
  by_cases hn : n = 0
  · subst hn
    rfl
  · have hspan := spanDigits_append (isDigit_of_mem_toDigits (n := n)) hr
    have hhead := head?_toDigits_ne hn
    have hvalue : Nat.ofDigitChars 10 (Nat.toDigits 10 n) 0 = n := Nat.ofDigitChars_ten_toDigits
    obtain ⟨d, ds, hds, -⟩ := toDigits_eq_cons n
    rw [hds] at hspan hhead hvalue ⊢
    rw [List.cons_append] at hspan ⊢
    rw [scanWhole?, hspan]
    · simp [hvalue]
    · simpa using hhead

theorem scanFraction?_append {ds r : List Char} (hds : ∀ c ∈ ds, c.isDigit)
    (hr : ∀ c ∈ r.head?, c.isDigit = false) (hpoint : ∀ c ∈ r.head?, c ≠ '.') :
    scanFraction? ((if ds.isEmpty then [] else '.' :: ds) ++ r) = some (ds, r) := by
  cases ds with
  | nil =>
    rw [List.isEmpty_nil, if_pos rfl, List.nil_append, scanFraction?]
    rintro r rfl
    exact hpoint '.' rfl rfl
  | cons d ds =>
    rw [List.isEmpty_cons, if_neg (by simp), List.cons_append, scanFraction?,
      spanDigits_append hds hr]

theorem scanExponent?_exponentText (e : Int) {r : List Char}
    (hr : ∀ c ∈ r.head?, c.isDigit = false) :
    scanExponent? (Numeral.exponentText e ++ r) = some (some e, r) := by
  have hspan := spanDigits_append (isDigit_of_mem_toDigits (n := e.natAbs)) hr
  have hvalue : Nat.ofDigitChars 10 (Nat.toDigits 10 e.natAbs) 0 = e.natAbs :=
    Nat.ofDigitChars_ten_toDigits
  have hsign : scanSign ((if e < 0 then '-' else '+') :: (Nat.toDigits 10 e.natAbs ++ r)) =
      (decide (e < 0), Nat.toDigits 10 e.natAbs ++ r) := by
    split <;> simp_all [scanSign]
  simp only [Numeral.exponentText, List.cons_append, scanExponent?, true_or, if_true, hsign, hspan]
  obtain ⟨d, ds, hds, -⟩ := toDigits_eq_cons e.natAbs
  rw [hds] at hvalue ⊢
  simp only [hvalue, decide_eq_true_eq]
  congr 3
  split <;> omega

theorem scanExponent?_eq_none {r : List Char} (hr : StopsNumber r) :
    scanExponent? r = some (none, r) := by
  cases r with
  | nil => rfl
  | cons c r =>
    have hletter : ¬ (c = 'e' ∨ c = 'E') := by
      have := hr c rfl
      simp_all [continuesNumber]
    simp only [scanExponent?, if_neg hletter]

end Token
end Json

namespace Numeral

/-- Behind the point stand only digits. -/
def IsPlain (n : Numeral) : Prop := ∀ c ∈ n.fraction, c.isDigit

theorem isPlain_ofNat (n : Nat) : (ofNat n).IsPlain := by simp [IsPlain, ofNat]

theorem isPlain_ofBinary64 (x : Binary64) : (ofBinary64 x).IsPlain := by
  have hdigits (n : Nat) : ∀ c ∈ Nat.toDigits 10 n, c.isDigit := Json.Token.isDigit_of_mem_toDigits
  have hzero : ∀ c ∈ ['0'], c.isDigit := List.forall_mem_singleton.mpr rfl
  unfold IsPlain ofBinary64
  split
  · exact hzero
  · simp only
    split
    · exact fun c hc => hdigits _ c (List.mem_of_mem_drop hc)
    · split
      · intro c hc
        rcases List.mem_append.mp hc with hc | hc
        · rw [List.eq_of_mem_replicate hc]
          decide
        · exact hdigits _ c hc
      · split
        · exact fun c hc => hdigits _ c (List.mem_of_mem_drop hc)
        · exact hzero

theorem text_eq_cons (n : Numeral) : ∃ c cs, n.text = c :: cs ∧ (c = '-' ∨ c.isDigit) := by
  obtain ⟨d, ds, hds, hd⟩ := Json.Token.toDigits_eq_cons n.whole
  cases hn : n.negative with
  | true => exact ⟨'-', _, by simp [text, hn]; rfl, Or.inl rfl⟩
  | false => exact ⟨d, _, by simp [text, hn, hds]; rfl, Or.inr hd⟩

end Numeral

namespace Json
namespace Token

/-- A number is read part by part. -/
theorem scanNumber?_parts (negative : Bool) (whole : Nat) {fraction rest rest' r : List Char}
    {exponent : Option Int} (hstop : ∀ c ∈ rest.head?, c.isDigit = false)
    (hfraction : scanFraction? rest = some (fraction, rest'))
    (hexponent : scanExponent? rest' = some (exponent, r)) :
    scanNumber? ((if negative then ['-'] else []) ++ Nat.toDigits 10 whole ++ rest) =
      some (⟨negative, whole, fraction, exponent⟩, r) := by
  have hwhole := scanWhole?_append whole hstop
  cases negative with
  | true => simp [scanNumber?, hwhole, hfraction, hexponent]
  | false =>
    obtain ⟨d, ds, hds, hd⟩ := toDigits_eq_cons whole
    have hsign : d ≠ '-' := by
      rintro rfl
      exact absurd hd (by decide)
    simp only [Bool.false_eq_true, if_false, List.nil_append]
    rw [hds, List.cons_append] at hwhole ⊢
    simp [scanNumber?, hsign, hwhole, hfraction, hexponent]

theorem scanNumber?_text {n : Numeral} (hn : n.IsPlain) {r : List Char} (hr : StopsNumber r) :
    scanNumber? (n.text ++ r) = some (n, r) := by
  obtain ⟨negative, whole, fraction, exponent⟩ := n
  have hfrom {rest : List Char} (hexponent : scanExponent? rest = some (exponent, r))
      (hstop : ∀ c ∈ rest.head?, c.isDigit = false) (hpoint : ∀ c ∈ rest.head?, c ≠ '.') :
      scanNumber? ((if negative then ['-'] else []) ++ Nat.toDigits 10 whole ++
        ((if fraction.isEmpty then [] else '.' :: fraction) ++ rest)) =
        some (⟨negative, whole, fraction, exponent⟩, r) := by
    refine scanNumber?_parts negative whole ?_ (scanFraction?_append hn hstop hpoint) hexponent
    cases fraction with
    | nil => exact hstop
    | cons d ds =>
      rintro c ⟨⟩
      decide
  cases exponent with
  | none =>
    simpa [Numeral.text] using hfrom (scanExponent?_eq_none hr) hr.isDigit hr.ne_point
  | some e =>
    have hletter : ∀ c ∈ (Numeral.exponentText e ++ r).head?, c = 'e' := by
      rintro c ⟨⟩
      rfl
    simpa [Numeral.text] using hfrom (scanExponent?_exponentText e hr.isDigit)
      (fun c hc => hletter c hc ▸ by decide) fun c hc => hletter c hc ▸ by decide

/-- A token is read back, a number where it stops. -/
theorem scan?_text {t : Token} {r : List Char}
    (ht : ∀ n, t = number n → n.IsPlain ∧ StopsNumber r) : scan? (t.text ++ r) = some (t, r) := by
  cases t with
  | string s => exact scan?_quoted s r
  | bool b => cases b <;> rfl
  | number n =>
    obtain ⟨hn, hr⟩ := ht n rfl
    obtain ⟨c, cs, htext, hc⟩ := n.text_eq_cons
    have hnumber := scanNumber?_text hn hr
    simp only [text]
    rw [htext] at hnumber ⊢
    rw [List.cons_append] at hnumber ⊢
    rw [scan?, hnumber]
    · rfl
    all_goals
      intros
      simp_all
  | _ => rfl

end Token
end Json
end ProcessLint
