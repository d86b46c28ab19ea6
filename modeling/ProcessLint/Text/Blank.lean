import ProcessLint.Text.Interval

/-! White space, trimming, and the words between blanks. -/
namespace ProcessLint
namespace Text

def blankIntervals : List Interval :=
  [(0x9, 0xD), (0x20, 0x20), (0x85, 0x85), (0xA0, 0xA0), (0x1680, 0x1680), (0x2000, 0x200A),
   (0x2028, 0x2029), (0x202F, 0x202F), (0x205F, 0x205F), (0x3000, 0x3000)]

def isBlank (c : Char) : Bool := Interval.covers blankIntervals c

def trimStart (cs : List Char) : List Char := cs.dropWhile isBlank

def trimEnd (cs : List Char) : List Char := (cs.reverse.dropWhile isBlank).reverse

def trim (cs : List Char) : List Char := trimEnd (trimStart cs)

@[simp] theorem trim_nil : trim [] = [] := rfl

/-- The pieces between separators, empty ones included. -/
def pieces (separates : Char → Bool) : List Char → List (List Char)
  | [] => [[]]
  | c :: r =>
    if separates c then [] :: pieces separates r
    else
      match pieces separates r with
      | [] => [[c]]
      | p :: ps => (c :: p) :: ps

theorem pieces_ne_nil (separates : Char → Bool) (cs : List Char) : pieces separates cs ≠ [] := by
  cases cs with
  | nil => simp [pieces]
  | cons c r =>
    simp only [pieces]
    split
    · simp
    · split <;> simp

theorem length_pieces_cons {separates : Char → Bool} {c : Char} (hc : separates c = false)
    (cs : List Char) : (pieces separates (c :: cs)).length = (pieces separates cs).length := by
  rw [pieces, hc, if_neg Bool.false_ne_true]
  cases hcs : pieces separates cs with
  | nil => exact absurd hcs (pieces_ne_nil separates cs)
  | cons p ps => rfl

theorem pieces_append_cons (separates : Char → Bool) {p : List Char} {c : Char}
    (hp : ∀ d ∈ p, separates d = false) (hc : separates c = true) (r : List Char) :
    pieces separates (p ++ c :: r) = p :: pieces separates r := by
  induction p with
  | nil => simp [pieces, hc]
  | cons d p ih =>
    have hd := hp d (by simp)
    have := ih fun e he => hp e (by simp [he])
    simp [pieces, hd, this]

theorem pieces_of_solid {separates : Char → Bool} {p : List Char}
    (hp : ∀ c ∈ p, separates c = false) : pieces separates p = [p] := by
  induction p with
  | nil => rfl
  | cons c p ih =>
    have hc := hp c (by simp)
    have hrest := ih fun d hd => hp d (by simp [hd])
    simp [pieces, hc, hrest]

/-- The maximal runs of characters that are not blank. -/
def words (cs : List Char) : List (List Char) := (pieces isBlank cs).filter fun w => !w.isEmpty

/-- The lines of a text without their ends: a line ends at a line feed, a carriage return
before it belongs to the end, and nothing follows the last end. -/
def lines (cs : List Char) : List (List Char) :=
  let ps := pieces (· == '\n') cs
  let ended := ps.dropLast.map fun p =>
    if p.getLast? = some '\r' then p.dropLast else p
  match ps.getLast? with
  | some (c :: r) => ended ++ [c :: r]
  | _ => ended

end Text
end ProcessLint
