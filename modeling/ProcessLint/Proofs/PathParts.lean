import Mathlib.Data.List.Basic
import Mathlib.Data.List.Induction
import ProcessLint.Files.Path

/-! How paths are written: the pieces of a path make it up, and a name put behind a path is its last
part, with the path as its parent. -/
namespace ProcessLint

namespace Text

theorem pieces_append {separates : Char → Bool} {c : Char} (hc : separates c = true)
    (cs r : List Char) :
    pieces separates (cs ++ c :: r) = pieces separates cs ++ pieces separates r := by
  induction cs with
  | nil => simp [pieces, hc]
  | cons d cs ih =>
    rw [List.cons_append, pieces, ih, pieces]
    split
    · rfl
    · cases hcs : pieces separates cs with
      | nil => exact absurd hcs (pieces_ne_nil separates cs)
      | cons p ps => rfl

theorem not_separates_of_mem_pieces {separates : Char → Bool} (cs : List Char) :
    ∀ p ∈ pieces separates cs, ∀ c ∈ p, separates c = false := by
  induction cs with
  | nil => simp [pieces]
  | cons d cs ih =>
    rw [pieces]
    split
    · exact List.forall_mem_cons.mpr ⟨List.forall_mem_nil _, ih⟩
    · rename_i hd
      cases hcs : pieces separates cs with
      | nil => exact absurd hcs (pieces_ne_nil separates cs)
      | cons p ps =>
        rw [hcs, List.forall_mem_cons] at ih
        exact List.forall_mem_cons.mpr
          ⟨List.forall_mem_cons.mpr ⟨by simpa using hd, ih.1⟩, ih.2⟩

theorem intercalate_pieces (c : Char) (cs : List Char) :
    [c].intercalate (pieces (· == c) cs) = cs := by
  induction cs with
  | nil => rfl
  | cons d cs ih =>
    rw [pieces]
    cases hcs : pieces (· == c) cs with
    | nil => exact absurd hcs (pieces_ne_nil _ cs)
    | cons p ps =>
      rw [hcs] at ih
      split
      · rename_i hd
        rw [List.intercalate_cons_cons, ih, beq_iff_eq.mp hd]
        rfl
      · cases ps with
        | nil => simpa using ih
        | cons q ps => simpa [List.intercalate_cons_cons] using ih

end Text

namespace Path

structure IsName (n : String) : Prop where
  ne_empty : n ≠ ""
  ne_here : n ≠ "."
  ne_up : n ≠ ".."
  noSlash : '/' ∉ n.toList

instance (n : String) : Decidable (IsName n) :=
  decidable_of_iff (n ≠ "" ∧ n ≠ "." ∧ n ≠ ".." ∧ '/' ∉ n.toList)
    ⟨fun ⟨he, hh, hu, hs⟩ => ⟨he, hh, hu, hs⟩, fun ⟨he, hh, hu, hs⟩ => ⟨he, hh, hu, hs⟩⟩

/-! ### Pieces -/

section

variable {ps qs : List String} {p n s : String}

theorem pieces_ne_nil (s : String) : pieces s ≠ [] := by
  simpa [pieces] using Text.pieces_ne_nil _ s.toList

theorem noSlash_of_mem_pieces : ∀ p ∈ pieces s, '/' ∉ p.toList := by
  intro p hp hc
  obtain ⟨cs, hcs, rfl⟩ := List.mem_map.mp hp
  rw [String.toList_ofList] at hc
  exact absurd (Text.not_separates_of_mem_pieces _ cs hcs _ hc) (by decide)

theorem pieces_of_noSlash (h : '/' ∉ n.toList) : pieces n = [n] := by
  have hsolid : ∀ c ∈ n.toList, (c == '/') = false := fun c hc =>
    beq_false_of_ne fun hn => h (hn ▸ hc)
  rw [pieces, Text.pieces_of_solid hsolid]
  simp

theorem pieces_append_slash (s t : String) : pieces (s ++ "/" ++ t) = pieces s ++ pieces t := by
  have hslash : (s ++ "/" ++ t).toList = s.toList ++ '/' :: t.toList := by simp
  rw [pieces, hslash, Text.pieces_append (by decide), List.map_append]
  rfl

theorem pieces_intercalate (hne : ps ≠ []) (h : ∀ p ∈ ps, '/' ∉ p.toList) :
    pieces ("/".intercalate ps) = ps := by
  induction ps with
  | nil => exact absurd rfl hne
  | cons p ps ih =>
    obtain ⟨hp, hps⟩ := List.forall_mem_cons.mp h
    cases ps with
    | nil => simpa using pieces_of_noSlash hp
    | cons q ps =>
      rw [String.intercalate_cons_cons, pieces_append_slash, pieces_of_noSlash hp,
        ih (List.cons_ne_nil q ps) hps]
      rfl

theorem intercalate_pieces (s : String) : "/".intercalate (pieces s) = s := by
  apply String.toList_injective
  rw [String.toList_intercalate, pieces, List.map_map]
  simpa [Function.comp_def] using Text.intercalate_pieces '/' s.toList

theorem eq_of_pieces_eq {s t : String} (h : pieces s = pieces t) : s = t := by
  rw [← intercalate_pieces s, h, intercalate_pieces]

theorem ne_empty_of_pieces (hp : p ≠ "") (h : pieces s = ps ++ [p]) : s ≠ "" := by
  rintro rfl
  have hlast := congrArg List.getLast? h
  rw [List.getLast?_concat] at hlast
  exact hp (Option.some.inj hlast).symm

theorem intercalate_concat (h : ps ≠ []) (p : String) :
    "/".intercalate (ps ++ [p]) = "/".intercalate ps ++ "/" ++ p := by
  induction ps with
  | nil => exact absurd rfl h
  | cons q ps ih =>
    cases ps with
    | nil => simp [String.intercalate_cons_cons]
    | cons r ps =>
      rw [List.cons_append, List.cons_append, String.intercalate_cons_cons, ← List.cons_append,
        ih (List.cons_ne_nil r ps), String.intercalate_cons_cons]
      simp only [String.append_assoc]

/-- The first piece of an absolute path is empty, but not the only one. -/
theorem isAbsolute_iff : isAbsolute s = true ↔ ∃ p ps, pieces s = "" :: p :: ps := by
  constructor
  · intro h
    obtain ⟨r, hr⟩ := List.head?_eq_some_iff.mp (beq_iff_eq.mp h)
    have hs : s = "" ++ "/" ++ .ofList r := String.toList_injective (by simp [hr])
    obtain ⟨p, ps, hps⟩ := List.exists_cons_of_ne_nil (pieces_ne_nil (.ofList r))
    exact ⟨p, ps, by rw [hs, pieces_append_slash, pieces_of_noSlash (by decide), hps]; rfl⟩
  · rintro ⟨p, ps, h⟩
    rw [← intercalate_pieces s, h, String.intercalate_cons_cons, String.empty_append]
    simp [isAbsolute]

/-- Whether a path is absolute shows in its pieces up to one that is not empty. -/
theorem isAbsolute_congr {s t : String} (hp : p ≠ "") (hs : pieces s = qs ++ [p])
    (ht : pieces t = qs ++ [p] ++ ps) : isAbsolute s = isAbsolute t := by
  rw [Bool.eq_iff_iff, isAbsolute_iff, isAbsolute_iff, hs, ht]
  cases qs with
  | nil => simp [hp]
  | cons q qs =>
    obtain ⟨r, rs, hr⟩ := List.exists_cons_of_ne_nil (List.append_ne_nil_of_right_ne_nil qs
      (List.cons_ne_nil p []))
    simp [hr]

theorem isAbsolute_append (h : s ≠ "") (t : String) : isAbsolute (s ++ t) = isAbsolute s := by
  have hs : s.toList ≠ [] := mt String.toList_eq_nil_iff.mp h
  rw [isAbsolute, String.toList_append, List.head?_append_of_ne_nil _ hs, isAbsolute]

theorem isAbsolute_of_noSlash (h : '/' ∉ n.toList) : isAbsolute n = false :=
  beq_false_of_ne fun hn => h (List.mem_of_head? hn)

/-! ### Names behind a path -/

/-- The pieces in front of a name that is put behind a path. -/
def front (base : String) : List String :=
  if (pieces base).getLast? = some "" then (pieces base).dropLast else pieces base

theorem front_slash (s : String) : front (s ++ "/") = pieces s := by
  have hpieces : pieces (s ++ "/") = pieces s ++ [""] := by
    have h := pieces_append_slash s ""
    rwa [String.append_empty, pieces_of_noSlash (by decide : '/' ∉ "".toList)] at h
  rw [front, hpieces, if_pos List.getLast?_concat, List.dropLast_concat]

theorem front_of_getLast?_ne (hs : s ≠ "") (h : s.toList.getLast? ≠ some '/') :
    front s = pieces s := by
  rw [front, if_neg]
  intro hlast
  obtain ⟨qs, hqs⟩ := List.getLast?_eq_some_iff.mp hlast
  have hpath := intercalate_pieces s
  by_cases hnil : qs = []
  · subst hnil
    rw [hqs] at hpath
    exact hs hpath.symm
  · rw [hqs, intercalate_concat hnil, String.append_empty] at hpath
    rw [← hpath] at h
    simp at h

theorem pieces_join (hn : '/' ∉ n.toList) (base : String) :
    pieces (join base n) = front base ++ [n] := by
  unfold join
  rw [isAbsolute_of_noSlash hn, if_neg Bool.false_ne_true]
  by_cases hempty : base = ""
  · subst hempty
    rw [if_pos (by decide), String.empty_append, pieces_of_noSlash hn]
    rfl
  by_cases hslash : base.toList.getLast? = some '/'
  · obtain ⟨cs, hcs⟩ := List.getLast?_eq_some_iff.mp hslash
    have hbase : base = .ofList cs ++ "/" := String.toList_injective (by simp [hcs])
    rw [if_pos (by simp [hslash]), hbase, front_slash, pieces_append_slash, pieces_of_noSlash hn]
  · rw [if_neg (by simp [hslash, hempty]), pieces_append_slash, front_of_getLast?_ne hempty hslash,
      pieces_of_noSlash hn]

theorem isAbsolute_join (hn : '/' ∉ n.toList) (base : String) :
    isAbsolute (join base n) = isAbsolute base := by
  unfold join
  rw [isAbsolute_of_noSlash hn, if_neg Bool.false_ne_true]
  by_cases hempty : base = ""
  · subst hempty
    rw [if_pos (by decide), String.empty_append, isAbsolute_of_noSlash hn]
    rfl
  · split
    · exact isAbsolute_append hempty n
    · rw [String.append_assoc, isAbsolute_append hempty]

def counted (ps : List String) : List String := (ps.zipIdx.filter counts).map Prod.fst

theorem parts_eq (s : String) :
    parts s = (if isAbsolute s then [.root] else []) ++ (counted (pieces s)).map Part.ofPiece := by
  simp [parts, counted, Function.comp_def]

theorem IsName.counts (hn : IsName n) (position : Nat) : Path.counts (n, position) = true := by
  simp [Path.counts, hn.ne_empty, hn.ne_here]

theorem counted_concat (hn : IsName n) (ps : List String) :
    counted (ps ++ [n]) = counted ps ++ [n] := by
  simp [counted, List.zipIdx_append, hn.counts]

theorem counted_front (s : String) : counted (front s) = counted (pieces s) := by
  rw [front]
  split
  · rename_i hlast
    obtain ⟨qs, hqs⟩ := List.getLast?_eq_some_iff.mp hlast
    simp [hqs, counted, List.zipIdx_append, counts]
  · rfl

theorem parts_join (hn : IsName n) (base : String) :
    parts (join base n) = parts base ++ [.name n] := by
  have hpart : Part.ofPiece n = .name n := by rw [Part.ofPiece, if_neg hn.ne_here, if_neg hn.ne_up]
  rw [parts_eq, parts_eq, isAbsolute_join hn.noSlash, pieces_join hn.noSlash, counted_concat hn,
    counted_front, List.map_append, List.map_singleton, hpart, List.append_assoc]

theorem parts_foldl_join {ns : List String} (h : ∀ n ∈ ns, IsName n) (base : String) :
    parts (ns.foldl join base) = parts base ++ ns.map .name := by
  induction ns generalizing base with
  | nil => simp
  | cons n ns ih =>
    obtain ⟨hn, hns⟩ := List.forall_mem_cons.mp h
    rw [List.foldl_cons, ih hns, parts_join hn, List.append_assoc]
    rfl

/-! ### Parents -/

/-- Behind the last piece that counts, pieces are empty or a dot. -/
theorem exists_last_counted (qs : List String) : ∃ fs rest, qs = fs ++ rest ∧
    (∀ p ∈ rest, p = "" ∨ p = ".") ∧
    (fs = [] ∧ qs.zipIdx.filter counts = [] ∨
      ∃ gs q, fs = gs ++ [q] ∧ q ≠ "" ∧
        (qs.zipIdx.filter counts).getLast? = some (q, gs.length)) := by
  induction qs using List.reverseRecOn with
  | nil => exact ⟨[], [], rfl, nofun, .inl ⟨rfl, rfl⟩⟩
  | append_singleton qs p ih =>
    cases hp : counts (p, qs.length) with
    | true =>
      have hne : p ≠ "" := by
        rintro rfl
        simp [counts] at hp
      have hfilter : (qs ++ [p]).zipIdx.filter counts =
          qs.zipIdx.filter counts ++ [(p, qs.length)] := by simp [List.zipIdx_append, hp]
      exact ⟨qs ++ [p], [], (List.append_nil _).symm, nofun,
        .inr ⟨qs, p, rfl, hne, hfilter ▸ List.getLast?_concat⟩⟩
    | false =>
      have hskipped : p = "" ∨ p = "." := by
        by_contra hnot
        rw [not_or] at hnot
        simp [counts, hnot.1, hnot.2] at hp
      have hfilter : (qs ++ [p]).zipIdx.filter counts = qs.zipIdx.filter counts := by
        simp [List.zipIdx_append, hp]
      obtain ⟨fs, rest, hqs, hrest, hlast⟩ := ih
      refine ⟨fs, rest ++ [p], by rw [hqs, List.append_assoc], ?_, hfilter ▸ hlast⟩
      exact List.forall_mem_append.mpr ⟨hrest, List.forall_mem_singleton.mpr hskipped⟩

/-- The parent of a path that ends in a name has the pieces up to the last one that counts. -/
theorem exists_parent? (hs : pieces s = qs ++ [n]) (hn : IsName n) : ∃ fs rest, qs = fs ++ rest ∧
    (∀ p ∈ rest, p = "" ∨ p = ".") ∧
    (fs = [] ∧ parent? s = some (if isAbsolute s then "/" else "") ∨
      ∃ gs q, fs = gs ++ [q] ∧ q ≠ "" ∧ parent? s = some ("/".intercalate fs)) := by
  obtain ⟨fs, rest, hqs, hrest, hlast⟩ := exists_last_counted qs
  have hreverse : ((pieces s).zipIdx.filter counts).reverse =
      (n, qs.length) :: (qs.zipIdx.filter counts).reverse := by
    simp [hs, List.zipIdx_append, hn.counts]
  refine ⟨fs, rest, hqs, hrest, ?_⟩
  rcases hlast with ⟨rfl, hnone⟩ | ⟨gs, q, rfl, hq, hsome⟩
  · left
    rw [hnone] at hreverse
    exact ⟨rfl, by simp only [parent?, hreverse, List.reverse_nil]⟩
  · right
    obtain ⟨before, hbefore⟩ := List.getLast?_eq_some_iff.mp hsome
    rw [hbefore, List.reverse_concat] at hreverse
    refine ⟨gs, q, rfl, hq, ?_⟩
    have htake : (pieces s).take (gs.length + 1) = gs ++ [q] := by
      rw [hs, hqs, List.append_assoc]
      exact List.take_left' (by simp)
    simp only [parent?, hreverse, htake]

end

end Path
end ProcessLint
