import Mathlib.Data.List.Infix
import Mathlib.Data.List.Induction
import ProcessLint.Proofs.Places
import ProcessLint.Settings.Lookup

/-! Which settings file is found: one that is named, else the nearest of the project, else that for
all projects. A file is looked at from its directory, and files farther away change nothing. -/
namespace ProcessLint

namespace Text

theorem length_pieces_le (separates : Char → Bool) (cs : List Char) :
    (pieces separates cs).length ≤ cs.length + 1 := by
  induction cs with
  | nil => exact le_rfl
  | cons c cs ih =>
    cases hc : separates c with
    | true => simpa [pieces, hc] using ih
    | false => simpa [length_pieces_cons hc] using ih.trans (Nat.le_succ _)

end Text

open ProcessLint.Path (IsName)

/-! ### Directories above a place -/

namespace Tree

variable {l : Location}

theorem parent?_pathOf_nil : Path.parent? (pathOf []) = none := by decide

theorem parent?_pathOf_concat {n : String} (hl : ∀ n ∈ l, IsName n) (hn : IsName n) :
    Path.parent? (pathOf (l ++ [n])) = some (pathOf l) := by
  have hboth : ∀ p ∈ l ++ [n], IsName p :=
    List.forall_mem_append.mpr ⟨hl, List.forall_mem_singleton.mpr hn⟩
  have hpieces : Path.pieces (pathOf (l ++ [n])) = ("" :: l) ++ [n] := by
    rw [pieces_pathOf hboth, if_neg (by simp)]
    rfl
  have hnamed : ∀ p ∈ l, ¬(p = "" ∨ p = ".") := fun p hp =>
    not_or.mpr ⟨(hl p hp).ne_empty, (hl p hp).ne_here⟩
  obtain ⟨fs, rest, hsplit, hrest, hparent⟩ := Path.exists_parent? hpieces hn
  rcases hparent with ⟨rfl, hparent⟩ | ⟨gs, q, rfl, hq, hparent⟩
  · have hnil : l = [] := by
      refine List.eq_nil_iff_forall_not_mem.mpr fun p hp => hnamed p hp (hrest p ?_)
      rw [List.nil_append] at hsplit
      exact hsplit ▸ List.mem_cons_of_mem _ hp
    rw [hparent, isAbsolute_pathOf, hnil]
    rfl
  · cases gs with
    | nil => exact absurd (List.cons.inj hsplit).1.symm hq
    | cons g gs =>
      obtain rfl : "" = g := (List.cons.inj hsplit).1
      have htail : l = gs ++ [q] ++ rest := (List.cons.inj hsplit).2
      have hnil : rest = [] := by
        refine List.eq_nil_iff_forall_not_mem.mpr fun p hp => hnamed p ?_ (hrest p hp)
        rw [htail]
        exact List.mem_append_right _ hp
      rw [hnil, List.append_nil] at htail
      obtain ⟨a, as, has⟩ := List.exists_cons_of_ne_nil (List.append_ne_nil_of_right_ne_nil gs
        (List.cons_ne_nil q []))
      rw [hparent, htail, pathOf, List.cons_append, has, String.intercalate_cons_cons,
        String.empty_append]

theorem length_le_length_pathOf (hl : ∀ n ∈ l, IsName n) : l.length ≤ (pathOf l).length := by
  have hpieces := Text.length_pieces_le (· == '/') (pathOf l).toList
  have hlength : (Path.pieces (pathOf l)).length = _ := congrArg List.length (pieces_pathOf hl)
  rw [Path.pieces, List.length_map] at hlength
  rw [hlength, List.length_cons, String.length_toList] at hpieces
  split at hpieces
  · rename_i hnil
    rw [hnil]
    exact Nat.zero_le _
  · exact Nat.le_of_succ_le_succ hpieces

theorem ancestorsFrom_pathOf (hl : ∀ n ∈ l, IsName n) {fuel : Nat} (hfuel : l.length ≤ fuel) :
    Path.ancestorsFrom fuel (pathOf l) = l.inits.reverse.map pathOf := by
  induction l using List.reverseRecOn generalizing fuel with
  | nil =>
    cases fuel with
    | zero => rfl
    | succ fuel => rw [Path.ancestorsFrom, parent?_pathOf_nil]; rfl
  | append_singleton l n ih =>
    obtain ⟨hinit, hlast⟩ := List.forall_mem_append.mp hl
    have hn := List.forall_mem_singleton.mp hlast
    rw [List.length_append, List.length_singleton] at hfuel
    obtain ⟨fuel, rfl⟩ : ∃ k, fuel = k + 1 := ⟨fuel - 1, by omega⟩
    rw [Path.ancestorsFrom, parent?_pathOf_concat hinit hn]
    simp [ih hinit (Nat.le_of_succ_le_succ hfuel), List.inits_append]

theorem ancestors_pathOf (hl : ∀ n ∈ l, IsName n) :
    Path.ancestors (pathOf l) = l.inits.reverse.map pathOf :=
  ancestorsFrom_pathOf hl (length_le_length_pathOf hl)

end Tree

namespace SettingsSource

/-! ### The nearest file of a project -/

section

variable {t : Tree} {l m : Location}

def held? (t : Tree) (d : Location) : Option Location :=
  (names.map fun n => d ++ [n]).find? t.isFileAt

/-- The settings file in the nearest directory. -/
def nearest? (t : Tree) (l : Location) : Option Location := l.inits.reverse.findSome? (held? t)

theorem nearest?_nil (t : Tree) : nearest? t [] = held? t [] := by
  cases h : held? t [] <;> simp [nearest?, h]

theorem nearest?_concat (t : Tree) (l : Location) (n : String) :
    nearest? t (l ++ [n]) = (held? t (l ++ [n])).or (nearest? t l) := by
  cases h : held? t (l ++ [n]) <;> simp [nearest?, List.inits_append, h]

theorem isName_of_mem_names : ∀ n ∈ names, IsName n := by decide

theorem find?_join_pathOf {ns : List String} (hl : ∀ n ∈ l, IsName n) (hns : ∀ n ∈ ns, IsName n) :
    (ns.map (Path.join (Tree.pathOf l))).find? t.isFile =
      ((ns.map fun n => l ++ [n]).find? t.isFileAt).map Tree.pathOf := by
  induction ns with
  | nil => rfl
  | cons n ns ih =>
    obtain ⟨hn, hrest⟩ := List.forall_mem_cons.mp hns
    have hfile : t.isFile (Tree.pathOf (l ++ [n])) = t.isFileAt (l ++ [n]) :=
      Tree.isFile_pathOf (List.forall_mem_append.mpr ⟨hl, List.forall_mem_singleton.mpr hn⟩)
    rw [List.map_cons, List.map_cons, Tree.join_pathOf hl hn, List.find?_cons, List.find?_cons,
      hfile, ih hrest]
    cases t.isFileAt (l ++ [n]) <;> rfl

/-- The search over paths is one over places. -/
theorem findSome?_inits (hl : ∀ n ∈ l, IsName n) :
    (l.inits.reverse.map Tree.pathOf).findSome?
        (fun d => (names.map (Path.join d)).find? t.isFile) =
      (nearest? t l).map Tree.pathOf := by
  have hheld := find?_join_pathOf (t := t) hl isName_of_mem_names
  induction l using List.reverseRecOn with
  | nil =>
    have hinits : ([] : Location).inits.reverse = [[]] := rfl
    rw [nearest?_nil, hinits, List.map_singleton, List.findSome?_cons, hheld, held?]
    cases (names.map fun n => [] ++ [n]).find? t.isFileAt <;> rfl
  | append_singleton l n ih =>
    obtain ⟨hinit, -⟩ := List.forall_mem_append.mp hl
    have hrest := ih hinit (find?_join_pathOf hinit isName_of_mem_names)
    have hinits : (l ++ [n]).inits.reverse = (l ++ [n]) :: l.inits.reverse := by
      simp [List.inits_append]
    rw [nearest?_concat, hinits, List.map_cons, List.findSome?_cons, hheld, hrest, held?]
    cases (names.map fun k => l ++ [n] ++ [k]).find? t.isFileAt <;> rfl

theorem findProject?_eq (ht : t.IsSound) {start : String} (hl : t.locate? start = some l) :
    findProject? t start = (nearest? t l).map Tree.pathOf := by
  have hnamed := ht.isName (Tree.hasAt_of_locate? hl)
  rw [findProject?, directories, hl]
  dsimp only
  rw [Tree.ancestors_pathOf hnamed, findSome?_inits hnamed]

theorem held?_eq (t : Tree) (d : Location) :
    held? t d =
      if t.isFileAt (d ++ ["ebl-lint.toml"]) = true then some (d ++ ["ebl-lint.toml"])
      else if t.isFileAt (d ++ [".ebl-lint.toml"]) = true then some (d ++ [".ebl-lint.toml"])
      else none := by
  simp only [held?, names, List.map_cons, List.map_nil, List.find?_cons, List.find?_nil]
  cases t.isFileAt (d ++ ["ebl-lint.toml"]) <;> cases t.isFileAt (d ++ [".ebl-lint.toml"]) <;> rfl

theorem exists_of_held? {d : Location} (h : held? t d = some m) : ∃ n ∈ names, m = d ++ [n] ∧
    t.isFileAt m = true ∧ (t.isFileAt (d ++ ["ebl-lint.toml"]) = true → n = "ebl-lint.toml") := by
  rw [held?_eq] at h
  split at h
  · rename_i hplain
    obtain rfl := Option.some.inj h
    exact ⟨_, by decide, rfl, hplain, fun _ => rfl⟩
  · rename_i hplain
    split at h
    · rename_i hdotted
      obtain rfl := Option.some.inj h
      exact ⟨_, by decide, rfl, hdotted, fun hfile => absurd hfile hplain⟩
    · cases h

theorem held?_eq_none_iff {d : Location} :
    held? t d = none ↔ ∀ n ∈ names, t.isFileAt (d ++ [n]) = false := by
  simp [held?]

/-- The settings file in a directory above a place, where no directory farther down has one, and
with no dot if there are two. -/
structure IsNearest (t : Tree) (l d : Location) (n : String) : Prop where
  above : d <+: l
  named : n ∈ names
  file : t.isFileAt (d ++ [n]) = true
  undotted : t.isFileAt (d ++ ["ebl-lint.toml"]) = true → n = "ebl-lint.toml"
  deepest (e : Location) : e <+: l → d.length < e.length →
    ∀ k ∈ names, t.isFileAt (e ++ [k]) = false

theorem IsNearest.unique {d e : Location} {n k : String} (h : IsNearest t l d n)
    (h' : IsNearest t l e k) : d = e ∧ n = k := by
  have hlength : d.length = e.length := by
    rcases Nat.lt_trichotomy d.length e.length with hlt | heq | hlt
    · exact absurd h'.file (by simp [h.deepest e h'.above hlt k h'.named])
    · exact heq
    · exact absurd h.file (by simp [h'.deepest d h.above hlt n h.named])
  obtain rfl : d = e :=
    (List.prefix_of_prefix_length_le h.above h'.above hlength.le).eq_of_length hlength
  refine ⟨rfl, ?_⟩
  have hnames : ∀ p ∈ names, p = "ebl-lint.toml" ∨ p = ".ebl-lint.toml" := by decide
  rcases hnames n h.named with rfl | rfl
  · exact (h'.undotted h.file).symm
  · rcases hnames k h'.named with rfl | rfl
    · exact h.undotted h'.file
    · rfl

theorem nearest?_eq_none_iff :
    nearest? t l = none ↔ ∀ d, d <+: l → ∀ n ∈ names, t.isFileAt (d ++ [n]) = false := by
  simp [nearest?, held?_eq_none_iff]

theorem exists_isNearest (h : nearest? t l = some m) : ∃ d n, m = d ++ [n] ∧ IsNearest t l d n := by
  induction l using List.reverseRecOn with
  | nil =>
    rw [nearest?_nil] at h
    obtain ⟨n, hn, rfl, hfile, hundotted⟩ := exists_of_held? h
    refine ⟨[], n, rfl, List.prefix_rfl, hn, hfile, hundotted, fun e he hlt => ?_⟩
    rw [List.prefix_nil.mp he] at hlt
    exact absurd hlt (Nat.lt_irrefl _)
  | append_singleton l a ih =>
    rw [nearest?_concat] at h
    cases hheld : held? t (l ++ [a]) with
    | some c =>
      rw [hheld, Option.some_or] at h
      obtain rfl := Option.some.inj h
      obtain ⟨n, hn, rfl, hfile, hundotted⟩ := exists_of_held? hheld
      exact ⟨l ++ [a], n, rfl, List.prefix_rfl, hn, hfile, hundotted, fun e he hlt =>
        absurd he.length_le (Nat.not_le.mpr hlt)⟩
    | none =>
      rw [hheld, Option.none_or] at h
      obtain ⟨d, n, rfl, hnearest⟩ := ih h
      refine ⟨d, n, rfl, hnearest.above.trans (List.prefix_append l [a]), hnearest.named,
        hnearest.file, hnearest.undotted, fun e he hlt => ?_⟩
      rcases List.prefix_concat_iff.mp he with rfl | he
      · exact held?_eq_none_iff.mp hheld
      · exact hnearest.deepest e he hlt

theorem nearest?_eq_some_iff : nearest? t l = some m ↔ ∃ d n, m = d ++ [n] ∧ IsNearest t l d n := by
  refine ⟨exists_isNearest, ?_⟩
  rintro ⟨d, n, rfl, h⟩
  cases hnearest : nearest? t l with
  | none =>
    have hnone := nearest?_eq_none_iff.mp hnearest d h.above n h.named
    exact absurd h.file (by simp [hnone])
  | some c =>
    obtain ⟨e, k, rfl, h'⟩ := exists_isNearest hnearest
    obtain ⟨rfl, rfl⟩ := h.unique h'
    rfl

end

/-! ### Where the search begins -/

section

variable {t : Tree} {l m : Location} {target : String}

/-- The place to search from: that of the target, or of the directory that a file is in. -/
def searchPlace (t : Tree) (m : Location) : Location := if t.isFileAt m then m.dropLast else m

theorem exists_directory (ht : t.IsSound) (hm : t.locate? target = some m)
    (hfile : t.isFileAt m = true) : ∃ qs n d, Path.pieces target = qs ++ [n] ∧ IsName n ∧
      t.follow? (t.base target) qs = some d ∧ t.isDirectoryAt d = true ∧ m = d ++ [n] := by
  have hne : target ≠ "" := by
    rintro rfl
    cases hm
  obtain ⟨qs, n, hpieces⟩ := (List.eq_nil_or_concat' _).resolve_left (Path.pieces_ne_nil target)
  rw [Tree.locate?_eq hne, hpieces, Tree.follow?_append, Option.bind_eq_some_iff] at hm
  obtain ⟨d, hd, hm⟩ := hm
  have hnodir := ht.isDirectoryAt_eq_false hfile
  -- other pieces than names lead to directories only
  obtain ⟨hdir, ⟨-, hm⟩ | ⟨-, hm⟩ | ⟨⟨hempty, hhere, hup⟩, -, hm⟩⟩ :=
    Tree.follow?_cons_eq_some_iff.mp hm
  · rw [← Option.some.inj hm, hdir] at hnodir
    cases hnodir
  · rw [← Option.some.inj hm, Tree.isDirectoryAt_of_isPrefix hdir d.dropLast_prefix] at hnodir
    cases hnodir
  · have hmem : n ∈ Path.pieces target := hpieces ▸ List.mem_append_right qs List.mem_cons_self
    exact ⟨qs, n, d, hpieces, ⟨hempty, hhere, hup, Path.noSlash_of_mem_pieces n hmem⟩, hd, hdir,
      (Option.some.inj hm).symm⟩

theorem startOf_of_parent? {parent : String} (hfile : t.isFile target = true)
    (hparent : Path.parent? target = some parent) :
    startOf t target = if parent = "" then "." else parent := by
  rw [startOf, hfile, if_pos rfl, hparent]
  split
  · rename_i hempty
    rw [if_pos (Option.some.inj hempty)]
  · rename_i hnone
    cases hnone
  · rename_i hempty hp
    obtain rfl := Option.some.inj hp
    rw [if_neg hempty]

theorem locate?_startOf_of_isFileAt (ht : t.IsSound) (hm : t.locate? target = some m)
    (hfile : t.isFileAt m = true) : t.locate? (startOf t target) = some m.dropLast := by
  have his : t.isFile target = true := Tree.isFile_iff.mpr ⟨m, hm, hfile⟩
  obtain ⟨qs, n, d, hpieces, hn, hd, hdir, rfl⟩ := exists_directory ht hm hfile
  rw [List.dropLast_concat]
  obtain ⟨fs, rest, rfl, hrest, hparent⟩ := Path.exists_parent? hpieces hn
  rcases hparent with ⟨rfl, hparent⟩ | ⟨gs, q, rfl, hq, hparent⟩
  · -- the name stands alone: the file is in the top or in the start
    obtain rfl : d = t.base target := Tree.eq_of_follow?_skipped hrest hd
    rw [startOf_of_parent? his hparent, Tree.base]
    rw [Tree.base] at hdir
    by_cases habs : Path.isAbsolute target = true
    · rw [if_pos habs, if_pos habs, if_neg (by decide)]
      exact ht.locate?_pathOf (.inr (Tree.isDirectoryAt_iff.mpr (.inl rfl)))
    · rw [if_neg habs] at hdir ⊢
      rw [if_neg habs, if_pos rfl, Tree.locate?_eq (by decide),
        Path.pieces_of_noSlash (by decide)]
      exact Tree.follow?_skipped (by simp) hdir
  · obtain ⟨hne, hlocate⟩ := Tree.locate?_intercalate (t := t) hq
      (by rwa [List.append_assoc] at hpieces)
    rw [startOf_of_parent? his hparent, if_neg hne, hlocate]
    rw [Tree.follow?_append, Option.bind_eq_some_iff] at hd
    obtain ⟨e, he, hd⟩ := hd
    rw [he, Tree.eq_of_follow?_skipped hrest hd]

/-- The search begins at the target, or at the directory that a file is in. -/
theorem locate?_startOf (ht : t.IsSound) (hm : t.locate? target = some m) :
    t.locate? (startOf t target) = some (searchPlace t m) := by
  cases hfile : t.isFileAt m with
  | false =>
    have hnot : t.isFile target = false := by simp [Tree.isFile, hm, hfile]
    rw [startOf, hnot, if_neg Bool.false_ne_true, searchPlace, hfile, if_neg Bool.false_ne_true, hm]
  | true => rw [locate?_startOf_of_isFileAt ht hm hfile, searchPlace, hfile, if_pos rfl]

end

/-! ### Sources -/

section

variable {t : Tree} {target : String} {m : Location} {shared : Option String}

def IsShared (t : Tree) (shared : Option String) (p : String) : Prop :=
  ∃ g d, shared = some g ∧ p = Path.join g everywhereName ∧ t.place? g = some d ∧
    t.isFileAt (d ++ [everywhereName]) = true

theorem IsShared.unique {p q : String} (h : IsShared t shared p) (h' : IsShared t shared q) :
    p = q := by
  obtain ⟨g, _, rfl, rfl, -⟩ := h
  obtain ⟨_, _, hg, rfl, -⟩ := h'
  rw [Option.some.inj hg]

theorem find_eq (ht : t.IsSound) (hm : t.locate? target = some m) :
    find t target none shared =
      match (nearest? t (searchPlace t m)).map Tree.pathOf with
      | some p => project p
      | none =>
        match shared.map (Path.join · everywhereName) with
        | some p => if t.isFile p then everywhere p else default
        | none => default := by
  rw [← findProject?_eq ht (locate?_startOf ht hm)]
  rfl

/-- The settings are the nearest of the project; without them, those for all projects. -/
theorem find_cases (ht : t.IsSound) (hm : t.locate? target = some m) (shared : Option String) :
    (∃ c, nearest? t (searchPlace t m) = some c ∧
        find t target none shared = project (Tree.pathOf c)) ∨
      nearest? t (searchPlace t m) = none ∧
        ((∃ p, IsShared t shared p ∧ find t target none shared = everywhere p) ∨
          (∀ p, ¬IsShared t shared p) ∧ find t target none shared = default) := by
  have hname : IsName everywhereName := by decide
  rw [find_eq ht hm]
  cases nearest? t (searchPlace t m) with
  | some c => exact .inl ⟨c, rfl, rfl⟩
  | none =>
    refine .inr ⟨rfl, ?_⟩
    cases shared with
    | none =>
      refine .inr ⟨?_, rfl⟩
      rintro p ⟨g, d, hg, -⟩
      cases hg
    | some g =>
      by_cases hfile : t.isFile (Path.join g everywhereName) = true
      · obtain ⟨d, hd, hplace⟩ := (Tree.isFile_join hname).mp hfile
        exact .inl ⟨_, ⟨g, d, rfl, rfl, hd, hplace⟩, if_pos hfile⟩
      · refine .inr ⟨?_, if_neg hfile⟩
        rintro p ⟨_, d, hg, -, hd, hplace⟩
        obtain rfl := Option.some.inj hg
        exact hfile ((Tree.isFile_join hname).mpr ⟨d, hd, hplace⟩)

theorem find_eq_project_iff (ht : t.IsSound) (hm : t.locate? target = some m) {p : String} :
    find t target none shared = project p ↔
      ∃ c, nearest? t (searchPlace t m) = some c ∧ p = Tree.pathOf c := by
  rcases find_cases ht hm shared with ⟨c, hc, h⟩ | ⟨hc, ⟨q, -, h⟩ | ⟨-, h⟩⟩
  · simp [hc, h, eq_comm]
  · simp [hc, h]
  · simp [hc, h]

theorem exists_find_eq_project_iff (ht : t.IsSound) (hm : t.locate? target = some m) :
    (∃ p, find t target none shared = project p) ↔ nearest? t (searchPlace t m) ≠ none := by
  simp only [find_eq_project_iff ht hm, Option.ne_none_iff_exists']
  constructor
  · rintro ⟨_, c, hc, -⟩
    exact ⟨c, hc⟩
  · rintro ⟨c, hc⟩
    exact ⟨_, c, hc, rfl⟩

theorem find_eq_everywhere_iff (ht : t.IsSound) (hm : t.locate? target = some m) {p : String} :
    find t target none shared = everywhere p ↔
      nearest? t (searchPlace t m) = none ∧ IsShared t shared p := by
  rcases find_cases ht hm shared with ⟨c, hc, h⟩ | ⟨hc, ⟨q, hq, h⟩ | ⟨hno, h⟩⟩
  · simp [hc, h]
  · rw [h, everywhere.injEq]
    constructor
    · rintro rfl
      exact ⟨hc, hq⟩
    · exact fun hp => hq.unique hp.2
  · simp [h, hno]

theorem find_eq_default_iff (ht : t.IsSound) (hm : t.locate? target = some m) :
    find t target none shared = default ↔
      nearest? t (searchPlace t m) = none ∧ ∀ p, ¬IsShared t shared p := by
  rcases find_cases ht hm shared with ⟨c, hc, h⟩ | ⟨hc, ⟨q, hq, h⟩ | ⟨hno, h⟩⟩
  · simp [hc, h]
  · simp only [h, reduceCtorEq, false_iff, not_and, not_forall, not_not]
    exact fun _ => ⟨q, hq⟩
  · exact iff_of_true h ⟨hc, hno⟩

/-- Targets that are searched from the same place have the same settings. -/
theorem find_congr {target' : String} {m' : Location} (ht : t.IsSound)
    (hm : t.locate? target = some m) (hm' : t.locate? target' = some m')
    (h : searchPlace t m' = searchPlace t m) (named : Option String) :
    find t target' named shared = find t target named shared := by
  cases named with
  | some p => rfl
  | none => rw [find_eq ht hm, find_eq ht hm', h]

theorem searchPlace_dropLast (ht : t.IsSound) (hfile : t.isFileAt m = true) :
    searchPlace t m.dropLast = searchPlace t m := by
  rcases List.eq_nil_or_concat' m with rfl | ⟨d, n, rfl⟩
  · cases ht.isDirectoryAt_eq_false hfile
  · have hno : ¬t.isFileAt d = true := fun h => by
      have hdir := Tree.isDirectoryAt_of_isFileAt_concat hfile
      simp [ht.isDirectoryAt_eq_false h] at hdir
    rw [List.dropLast_concat, searchPlace, if_neg hno, searchPlace, if_pos hfile,
      List.dropLast_concat]

end

/-! ### Files farther away -/

/-- A place for a file in a directory above the given one, or for the file for all projects. -/
inductive IsFarther (d : Location) : Location → Prop
  | above {e : Location} (n : String) (h : e <+: d) (hne : e ≠ d) : IsFarther d (e ++ [n])
  | everywhere (e : Location) : IsFarther d (e ++ [everywhereName])

theorem IsFarther.ne {d e l : Location} {n : String} (h : IsFarther d l) (hn : n ∈ names)
    (he : d.length ≤ e.length) : e ++ [n] ≠ l := by
  intro hl
  cases h with
  | above k habove hne =>
    obtain ⟨rfl, -⟩ := List.append_inj' hl rfl
    exact hne (habove.eq_of_length_le he)
  | everywhere e' =>
    obtain ⟨-, hname⟩ := List.append_inj' hl rfl
    rw [List.singleton_inj.mp hname] at hn
    exact absurd hn (by decide)

/-- Files are added to a tree, one after the other, farther away than a directory. -/
inductive AddsFarther (d : Location) (t : Tree) : Tree → Prop
  | refl : AddsFarther d t t
  | add {t' : Tree} {l : Location} (h : AddsFarther d t t') (hl : IsFarther d l)
      (hroom : t'.HasRoomAt l) (bytes : ByteArray) : AddsFarther d t (t'.put l bytes)

section

variable {t t' : Tree} {target : String} {l d m : Location} {n : String}

theorem searchPlace_put (hm : t.HasAt m) (hroom : t.HasRoomAt l) (bytes : ByteArray) :
    searchPlace (t.put l bytes) m = searchPlace t m := by
  have hfile : (t.put l bytes).isFileAt m = t.isFileAt m := by
    rw [Bool.eq_iff_iff, Tree.isFileAt_put]
    constructor
    · rintro (rfl | h)
      · exact hm.resolve_right (by simp [hroom.free])
      · exact h
    · exact .inr
  rw [searchPlace, hfile, searchPlace]

/-- One file more that is farther away leaves the nearest one. -/
theorem IsNearest.put {s : Location} (h : IsNearest t s d n) (hl : IsFarther d l)
    (bytes : ByteArray) : IsNearest (t.put l bytes) s d n where
  above := h.above
  named := h.named
  file := Tree.isFileAt_put.mpr (.inr h.file)
  undotted hfile := by
    rcases Tree.isFileAt_put.mp hfile with hd | hd
    · exact absurd hd (hl.ne (by decide) le_rfl)
    · exact h.undotted hd
  deepest e he hlt k hk := by
    rw [Bool.eq_false_iff, Ne, Tree.isFileAt_put, not_or]
    exact ⟨hl.ne hk hlt.le, by simp [h.deepest e he hlt k hk]⟩

theorem AddsFarther.keeps (h : AddsFarther d t t') (ht : t.IsSound) (hm : t.locate? target = some m)
    (hnearest : IsNearest t (searchPlace t m) d n) : t'.IsSound ∧ t'.locate? target = some m ∧
      IsNearest t' (searchPlace t' m) d n := by
  induction h with
  | refl => exact ⟨ht, hm, hnearest⟩
  | add _ hl hroom bytes ih =>
    obtain ⟨ht', hm', hnearest'⟩ := ih
    refine ⟨ht'.put hroom bytes, Tree.locate?_put hm' _ bytes, ?_⟩
    rw [searchPlace_put (Tree.hasAt_of_locate? hm') hroom]
    exact hnearest'.put hl bytes

end

/-! ### The lookup -/

/-- Which settings a target gets that leads to a place. -/
structure IsLookup (t : Tree) (target : String) (m : Location) (shared : Option String) : Prop where
  /-- A file that is named is taken, whatever there is. -/
  explicit (t' : Tree) (target' p : String) : find t' target' (some p) shared = explicit p
  /-- A project has settings if a directory on the way up has a file for them. -/
  project_iff : (∃ p, find t target none shared = project p) ↔
    ∃ d, d <+: searchPlace t m ∧ ∃ n ∈ names, t.isFileAt (d ++ [n]) = true
  /-- These settings are in the nearest such directory. -/
  nearest (p : String) : find t target none shared = project p ↔
    ∃ d n, IsNearest t (searchPlace t m) d n ∧ p = Tree.pathOf (d ++ [n])
  /-- No directory is taken for a file. -/
  noDirectory (d : Location) (n : String) : IsNearest t (searchPlace t m) d n →
    t.isDirectoryAt (d ++ [n]) = false
  everywhere_iff (p : String) : find t target none shared = everywhere p ↔
    (¬∃ q, find t target none shared = project q) ∧ IsShared t shared p
  default_iff : find t target none shared = default ↔
    (¬∃ q, find t target none shared = project q) ∧ ∀ p, ¬IsShared t shared p
  /-- A file has the settings of its directory. -/
  directory (directory : String) (named : Option String) : t.isFileAt m = true →
    t.locate? directory = some m.dropLast →
      find t directory named shared = find t target named shared
  /-- Files farther away than the settings of a project change nothing. -/
  stable (d : Location) (n : String) (t' : Tree) : IsNearest t (searchPlace t m) d n →
    AddsFarther d t t' → find t' target none shared = project (Tree.pathOf (d ++ [n]))

/-- The nearest settings file decides, by the same order everywhere. -/
theorem isLookup_find {t : Tree} {target : String} {m : Location} (ht : t.IsSound)
    (hm : t.locate? target = some m) (shared : Option String) : IsLookup t target m shared := by
  have hnone : (¬∃ q, find t target none shared = project q) ↔
      nearest? t (searchPlace t m) = none := by
    rw [exists_find_eq_project_iff ht hm, ne_eq, not_not]
  constructor
  case explicit => exact fun _ _ _ => rfl
  case project_iff =>
    rw [exists_find_eq_project_iff ht hm, ne_eq, nearest?_eq_none_iff]
    simp
  case nearest =>
    intro p
    simp only [find_eq_project_iff ht hm, nearest?_eq_some_iff]
    constructor
    · rintro ⟨_, ⟨d, n, rfl, h⟩, rfl⟩
      exact ⟨d, n, h, rfl⟩
    · rintro ⟨d, n, h, rfl⟩
      exact ⟨_, ⟨d, n, rfl, h⟩, rfl⟩
  case noDirectory => exact fun d n h => ht.isDirectoryAt_eq_false h.file
  case everywhere_iff =>
    intro p
    rw [hnone, find_eq_everywhere_iff ht hm]
  case default_iff => rw [hnone, find_eq_default_iff ht hm]
  case directory =>
    intro directory named hfile hdirectory
    exact find_congr ht hm hdirectory (searchPlace_dropLast ht hfile) named
  case stable =>
    intro d n t' h hadds
    obtain ⟨ht', hm', h'⟩ := hadds.keeps ht hm h
    exact (find_eq_project_iff ht' hm').mpr ⟨_, nearest?_eq_some_iff.mpr ⟨d, n, rfl, h'⟩, rfl⟩

/-- A project with settings above a directory that has a settings file's name itself. -/
def nestedTree : Tree where
  files := [(["ebl-lint.toml"], .empty), (["loans", ".ebl-lint.toml"], .empty),
    (["loans", "drafts", "ebl-lint.toml", "notes"], .empty),
    (["loans", "drafts", "car.ebl.json"], .empty), (["home", "config.toml"], .empty)]
  start := ["loans", "drafts"]

theorem isLookup_find_nestedTree :
    nestedTree.IsSound ∧
      nestedTree.locate? "car.ebl.json" = some ["loans", "drafts", "car.ebl.json"] ∧
      IsLookup nestedTree "car.ebl.json" ["loans", "drafts", "car.ebl.json"] (some "/home") ∧
      find nestedTree "car.ebl.json" none (some "/home") = project "/loans/.ebl-lint.toml" := by
  have hsound : nestedTree.IsSound := by decide +kernel
  have hplace : nestedTree.locate? "car.ebl.json" = some ["loans", "drafts", "car.ebl.json"] := by
    decide +kernel
  exact ⟨hsound, hplace, isLookup_find hsound hplace _, by decide +kernel⟩

end SettingsSource
end ProcessLint
