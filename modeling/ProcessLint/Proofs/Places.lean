import Mathlib.Data.List.Basic
import Mathlib.Data.List.Infix
import Mathlib.Data.List.Induction
import ProcessLint.Files.Tree
import ProcessLint.Proofs.PathParts

/-! Trees as they are on a disk, and where paths lead in them: a path of names leads to the place
with those names, and a name behind the path of a directory to the place below it. -/
namespace ProcessLint
namespace Tree

open ProcessLint.Path (IsName)

/-! ### Sound trees -/

/-- All places have names, each file is listed once, and no file is a directory. -/
structure IsSound (t : Tree) : Prop where
  named : ∀ f ∈ t.files, ∀ n ∈ f.1, IsName n
  namedDirectories : ∀ d ∈ t.directories, ∀ n ∈ d, IsName n
  distinct : (t.files.map Prod.fst).Nodup
  apart : ∀ f ∈ t.files, t.isDirectoryAt f.1 = false

instance (t : Tree) : Decidable t.IsSound :=
  decidable_of_iff ((∀ f ∈ t.files, ∀ n ∈ f.1, IsName n) ∧
      (∀ d ∈ t.directories, ∀ n ∈ d, IsName n) ∧ (t.files.map Prod.fst).Nodup ∧
      ∀ f ∈ t.files, t.isDirectoryAt f.1 = false)
    ⟨fun ⟨hn, hd, hf, ha⟩ => ⟨hn, hd, hf, ha⟩, fun ⟨hn, hd, hf, ha⟩ => ⟨hn, hd, hf, ha⟩⟩

section

variable {t : Tree} {l m : Location} {n path : String} {ps qs : List String}

theorem isFileAt_iff : t.isFileAt l = true ↔ l ∈ t.files.map Prod.fst := by
  rw [isFileAt, content?]
  induction t.files with
  | nil => simp
  | cons f fs ih =>
    obtain ⟨k, bytes⟩ := f
    cases h : l == k with
    | true => simp [beq_iff_eq.mp h]
    | false => simp [List.lookup_cons, h, ih, beq_eq_false_iff_ne.mp h]

theorem isDirectoryAt_iff : t.isDirectoryAt l = true ↔
    l = [] ∨ (∃ d ∈ t.directories, l <+: d) ∨ ∃ f ∈ t.files, l <+: f.1 ∧ l ≠ f.1 := by
  simp [isDirectoryAt, or_assoc]

def HasAt (t : Tree) (l : Location) : Prop := t.isFileAt l = true ∨ t.isDirectoryAt l = true

theorem isDirectoryAt_of_isPrefix (h : t.isDirectoryAt m = true) (hl : l <+: m) :
    t.isDirectoryAt l = true := by
  rw [isDirectoryAt_iff] at h ⊢
  rcases h with rfl | ⟨d, hd, hm⟩ | ⟨f, hf, hm, hne⟩
  · exact .inl (List.prefix_nil.mp hl)
  · exact .inr (.inl ⟨d, hd, hl.trans hm⟩)
  · refine .inr (.inr ⟨f, hf, hl.trans hm, ?_⟩)
    rintro rfl
    exact hne (hm.eq_of_length_le hl.length_le)

theorem HasAt.isDirectoryAt_above (h : t.HasAt m) (hl : l <+: m) (hne : l ≠ m) :
    t.isDirectoryAt l = true := by
  rcases h with h | h
  · obtain ⟨f, hf, rfl⟩ := List.mem_map.mp (isFileAt_iff.mp h)
    exact isDirectoryAt_iff.mpr (.inr (.inr ⟨f, hf, hl, hne⟩))
  · exact isDirectoryAt_of_isPrefix h hl

theorem isDirectoryAt_of_isFileAt_concat (h : t.isFileAt (l ++ [n]) = true) :
    t.isDirectoryAt l = true :=
  HasAt.isDirectoryAt_above (.inl h) (List.prefix_append l [n]) (by simp)

theorem IsSound.isDirectoryAt_eq_false (ht : t.IsSound) (h : t.isFileAt l = true) :
    t.isDirectoryAt l = false := by
  obtain ⟨f, hf, rfl⟩ := List.mem_map.mp (isFileAt_iff.mp h)
  exact ht.apart f hf

theorem IsSound.isName (ht : t.IsSound) (h : t.HasAt l) : ∀ n ∈ l, IsName n := by
  intro n hn
  rcases h with h | h
  · obtain ⟨f, hf, rfl⟩ := List.mem_map.mp (isFileAt_iff.mp h)
    exact ht.named f hf n hn
  · rcases isDirectoryAt_iff.mp h with rfl | ⟨d, hd, hl⟩ | ⟨f, hf, hl, -⟩
    · exact absurd hn List.not_mem_nil
    · exact ht.namedDirectories d hd n (hl.subset hn)
    · exact ht.named f hf n (hl.subset hn)

/-- The places below the top where something is: those that begin the place of a file or of a
directory. -/
def places (t : Tree) : List Location := (t.files.map Prod.fst ++ t.directories).flatMap List.inits

theorem mem_places (hl : l ≠ []) : l ∈ t.places ↔ t.HasAt l := by
  simp only [places, List.mem_flatMap, List.mem_append, List.mem_inits, HasAt, isFileAt_iff,
    isDirectoryAt_iff, hl, false_or]
  constructor
  · rintro ⟨m, hm | hm, hlm⟩
    · by_cases hne : l = m
      · exact .inl (hne ▸ hm)
      · obtain ⟨f, hf, rfl⟩ := List.mem_map.mp hm
        exact .inr (.inr ⟨f, hf, hlm, hne⟩)
    · exact .inr (.inl ⟨m, hm, hlm⟩)
  · rintro (hfile | ⟨d, hd, hld⟩ | ⟨f, hf, hlf, -⟩)
    · exact ⟨l, .inl hfile, List.prefix_rfl⟩
    · exact ⟨d, .inr hd, hld⟩
    · exact ⟨f.1, .inl (List.mem_map_of_mem hf), hlf⟩

/-! ### Following pieces -/

/-- The first piece is left in a directory: it leads nowhere, up, or to something that is there. -/
theorem follow?_cons_eq_some_iff {p : String} : t.follow? l (p :: ps) = some m ↔
    t.isDirectoryAt l = true ∧
      ((p = "" ∨ p = ".") ∧ t.follow? l ps = some m ∨
        p = ".." ∧ t.follow? l.dropLast ps = some m ∨
        (p ≠ "" ∧ p ≠ "." ∧ p ≠ "..") ∧ t.HasAt (l ++ [p]) ∧ t.follow? (l ++ [p]) ps = some m) := by
  rw [follow?]
  by_cases hdir : t.isDirectoryAt l = true
  · rw [hdir, Bool.not_true, if_neg Bool.false_ne_true]
    by_cases hskipped : p = "" ∨ p = "."
    · rcases hskipped with rfl | rfl <;> simp
    · rw [if_neg hskipped]
      rw [not_or] at hskipped
      by_cases hup : p = ".."
      · simp [hup]
      · simp [hskipped, hup, HasAt]
  · simp [hdir]

theorem follow?_append (l : Location) (ps qs : List String) :
    t.follow? l (ps ++ qs) = (t.follow? l ps).bind fun m => t.follow? m qs := by
  induction ps generalizing l with
  | nil => simp [follow?]
  | cons p ps ih =>
    rw [List.cons_append, follow?, follow?]
    simp only [ih]
    split_ifs <;> rfl

theorem eq_of_follow?_skipped (h : ∀ p ∈ ps, p = "" ∨ p = ".") (hm : t.follow? l ps = some m) :
    m = l := by
  induction ps with
  | nil => exact (Option.some.inj hm).symm
  | cons p ps ih =>
    obtain ⟨hp, hps⟩ := List.forall_mem_cons.mp h
    rw [follow?, if_pos hp] at hm
    split at hm
    · cases hm
    · exact ih hps hm

theorem follow?_skipped (h : ∀ p ∈ ps, p = "" ∨ p = ".") (hl : t.isDirectoryAt l = true) :
    t.follow? l ps = some l := by
  induction ps with
  | nil => rfl
  | cons p ps ih =>
    obtain ⟨hp, hps⟩ := List.forall_mem_cons.mp h
    rw [follow?, hl, if_pos hp]
    exact ih hps

theorem follow?_name (hn : IsName n) :
    t.follow? l [n] = some m ↔ t.isDirectoryAt l = true ∧ m = l ++ [n] ∧ t.HasAt m := by
  rw [follow?_cons_eq_some_iff]
  simp only [hn.ne_empty, hn.ne_here, hn.ne_up, follow?, Option.some.injEq, or_self, false_and,
    false_or, ne_eq, not_false_eq_true, and_self, true_and]
  refine and_congr_right fun _ => ?_
  constructor
  · rintro ⟨hhas, rfl⟩
    exact ⟨rfl, hhas⟩
  · rintro ⟨rfl, hhas⟩
    exact ⟨hhas, rfl⟩

theorem HasAt.of_follow? (hl : t.HasAt l) (h : t.follow? l ps = some m) : t.HasAt m := by
  induction ps generalizing l with
  | nil => exact Option.some.inj h ▸ hl
  | cons p ps ih =>
    obtain ⟨hdir, ⟨-, h⟩ | ⟨-, h⟩ | ⟨-, hhas, h⟩⟩ := follow?_cons_eq_some_iff.mp h
    · exact ih hl h
    · exact ih (.inr (isDirectoryAt_of_isPrefix hdir l.dropLast_prefix)) h
    · exact ih hhas h

/-- Names lead to the place with these names, if there is something. -/
theorem follow?_names (hm : t.HasAt (l ++ ps)) (hps : ∀ p ∈ ps, IsName p) :
    t.follow? l ps = some (l ++ ps) := by
  induction ps using List.reverseRecOn with
  | nil => simp [follow?]
  | append_singleton ps p ih =>
    obtain ⟨hinit, hp⟩ := List.forall_mem_append.mp hps
    have hname := List.forall_mem_singleton.mp hp
    have hdir : t.isDirectoryAt (l ++ ps) = true :=
      hm.isDirectoryAt_above (by simp) (by simp)
    rw [follow?_append, ih (.inr hdir) hinit, Option.bind_some, follow?_name hname,
      List.append_assoc]
    exact ⟨hdir, rfl, hm⟩

/-! ### Paths -/

def base (t : Tree) (path : String) : Location := if Path.isAbsolute path then [] else t.start

theorem locate?_eq (h : path ≠ "") :
    t.locate? path = t.follow? (t.base path) (Path.pieces path) := by
  rw [locate?, if_neg (by simpa using h), base]

/-- The pieces of a path up to one that is not empty are the path of what they lead to. -/
theorem locate?_intercalate {p : String} (hp : p ≠ "")
    (hpath : Path.pieces path = ps ++ [p] ++ qs) :
    "/".intercalate (ps ++ [p]) ≠ "" ∧
      t.locate? ("/".intercalate (ps ++ [p])) = t.follow? (t.base path) (ps ++ [p]) := by
  have hpieces : Path.pieces ("/".intercalate (ps ++ [p])) = ps ++ [p] :=
    Path.pieces_intercalate (by simp) fun q hq =>
      Path.noSlash_of_mem_pieces q (hpath ▸ List.mem_append_left qs hq)
  have hne := Path.ne_empty_of_pieces hp hpieces
  refine ⟨hne, ?_⟩
  rw [locate?_eq hne, hpieces, base, base, Path.isAbsolute_congr hp hpieces hpath]

theorem hasAt_of_locate? (h : t.locate? path = some l) : t.HasAt l := by
  have hne : path ≠ "" := by
    rintro rfl
    cases h
  rw [locate?_eq hne] at h
  obtain ⟨p, ps, hps⟩ := List.exists_cons_of_ne_nil (Path.pieces_ne_nil path)
  have hbase : t.isDirectoryAt (t.base path) = true := (follow?_cons_eq_some_iff.mp (hps ▸ h)).1
  exact HasAt.of_follow? (.inr hbase) h

theorem isFile_iff : t.isFile path = true ↔ ∃ m, t.locate? path = some m ∧ t.isFileAt m = true := by
  simp [isFile, Option.any_eq_true]

theorem isAbsolute_pathOf (l : Location) : Path.isAbsolute (pathOf l) = true := by
  simp [pathOf, Path.isAbsolute]

theorem pieces_pathOf (hl : ∀ n ∈ l, IsName n) :
    Path.pieces (pathOf l) = "" :: if l = [] then [""] else l := by
  have hpath : pathOf l = "" ++ "/" ++ "/".intercalate l := by simp [pathOf]
  rw [hpath, Path.pieces_append_slash, Path.pieces_of_noSlash (by decide : '/' ∉ "".toList)]
  split
  · rename_i hnil
    rw [hnil]
    rfl
  · rename_i hnil
    rw [Path.pieces_intercalate hnil fun n hn => (hl n hn).noSlash]
    rfl

theorem locate?_pathOf (hl : ∀ n ∈ l, IsName n) : t.locate? (pathOf l) = t.follow? [] l := by
  have hne : pathOf l ≠ "" := by simp [pathOf]
  have htop : t.isDirectoryAt [] = true := isDirectoryAt_iff.mpr (.inl rfl)
  rw [locate?_eq hne, base, if_pos (isAbsolute_pathOf l), pieces_pathOf hl, ← List.singleton_append,
    follow?_append, follow?_skipped (by simp) htop, Option.bind_some]
  split
  · rename_i hnil
    rw [hnil]
    exact follow?_skipped (by simp) htop
  · rfl

theorem IsSound.locate?_pathOf (ht : t.IsSound) (h : t.HasAt l) :
    t.locate? (pathOf l) = some l := by
  rw [Tree.locate?_pathOf (ht.isName h), follow?_names h (ht.isName h), List.nil_append]

theorem eq_of_follow?_names (hps : ∀ p ∈ ps, IsName p) (h : t.follow? l ps = some m) :
    m = l ++ ps := by
  induction ps using List.reverseRecOn generalizing m with
  | nil => simpa [follow?] using h.symm
  | append_singleton ps p ih =>
    obtain ⟨hinit, hp⟩ := List.forall_mem_append.mp hps
    rw [follow?_append, Option.bind_eq_some_iff] at h
    obtain ⟨d, hd, h⟩ := h
    obtain ⟨-, rfl, -⟩ := (follow?_name (List.forall_mem_singleton.mp hp)).mp h
    rw [ih hinit hd, List.append_assoc]

theorem isFile_pathOf (hl : ∀ n ∈ l, IsName n) : t.isFile (pathOf l) = t.isFileAt l := by
  rw [Bool.eq_iff_iff, isFile_iff, Tree.locate?_pathOf hl]
  constructor
  · rintro ⟨m, hm, hfile⟩
    rwa [eq_of_follow?_names hl hm, List.nil_append] at hfile
  · exact fun h => ⟨l, follow?_names (.inl h) hl, h⟩

theorem join_pathOf (hl : ∀ n ∈ l, IsName n) (hn : IsName n) :
    Path.join (pathOf l) n = pathOf (l ++ [n]) := by
  have hboth : ∀ p ∈ l ++ [n], IsName p :=
    List.forall_mem_append.mpr ⟨hl, List.forall_mem_singleton.mpr hn⟩
  apply Path.eq_of_pieces_eq
  rw [Path.pieces_join hn.noSlash, pieces_pathOf hboth, if_neg (by simp), Path.front,
    pieces_pathOf hl]
  by_cases hnil : l = []
  · simp [hnil]
  · have hlast : ("" :: l).getLast? ≠ some "" := by
      intro hlast
      rw [List.getLast?_cons_of_ne_nil hnil] at hlast
      exact (hl "" (List.mem_of_getLast? hlast)).ne_empty rfl
    rw [if_neg hnil, if_neg hlast]
    rfl

/-- The place of a directory; an empty path stands for the start. -/
def place? (t : Tree) (path : String) : Option Location :=
  if path = "" then some t.start else t.locate? path

theorem place?_eq_some_iff (hl : t.isDirectoryAt l = true) :
    t.place? path = some l ↔ t.follow? (t.base path) (Path.front path) = some l := by
  by_cases hpath : path = ""
  · subst hpath
    exact Iff.rfl
  rw [place?, if_neg hpath, locate?_eq hpath, Path.front]
  split
  · rename_i hlast
    obtain ⟨qs, hqs⟩ := List.getLast?_eq_some_iff.mp hlast
    rw [hqs, List.dropLast_concat, follow?_append, Option.bind_eq_some_iff]
    constructor
    · rintro ⟨m, hm, h⟩
      rwa [eq_of_follow?_skipped (by simp) h]
    · exact fun h => ⟨l, h, follow?_skipped (by simp) hl⟩
  · rfl

theorem locate?_join (hn : IsName n) : t.locate? (Path.join path n) =
    (t.follow? (t.base path) (Path.front path)).bind fun d => t.follow? d [n] := by
  have hpieces := Path.pieces_join hn.noSlash path
  rw [locate?_eq (Path.ne_empty_of_pieces hn.ne_empty hpieces), base,
    Path.isAbsolute_join hn.noSlash, hpieces, follow?_append, base]

/-- The file of a name behind the path of a directory is the one in that directory. -/
theorem isFile_join (hn : IsName n) : t.isFile (Path.join path n) = true ↔
    ∃ d, t.place? path = some d ∧ t.isFileAt (d ++ [n]) = true := by
  simp only [isFile_iff, locate?_join hn, Option.bind_eq_some_iff]
  constructor
  · rintro ⟨m, ⟨d, hd, h⟩, hfile⟩
    obtain ⟨hdir, rfl, -⟩ := (follow?_name hn).mp h
    exact ⟨d, (place?_eq_some_iff hdir).mpr hd, hfile⟩
  · rintro ⟨d, hd, hfile⟩
    have hdir := isDirectoryAt_of_isFileAt_concat hfile
    have hfollow := (follow?_name hn).mpr ⟨hdir, rfl, .inl hfile⟩
    exact ⟨d ++ [n], ⟨d, (place?_eq_some_iff hdir).mp hd, hfollow⟩, hfile⟩

theorem locate?_foldl_join (hroot : t.locate? path = some l) (hm : t.HasAt (l ++ ps))
    (hps : ∀ p ∈ ps, IsName p) : t.locate? (ps.foldl Path.join path) = some (l ++ ps) := by
  induction ps using List.reverseRecOn with
  | nil => rwa [List.append_nil]
  | append_singleton ps p ih =>
    obtain ⟨hinit, hp⟩ := List.forall_mem_append.mp hps
    have hname := List.forall_mem_singleton.mp hp
    have hdir : t.isDirectoryAt (l ++ ps) = true := hm.isDirectoryAt_above (by simp) (by simp)
    have hplace : t.place? (ps.foldl Path.join path) = some (l ++ ps) := by
      have hlocate := ih (.inr hdir) hinit
      rw [place?, if_neg, hlocate]
      intro hempty
      rw [hempty] at hlocate
      cases hlocate
    rw [List.foldl_append, List.foldl_cons, List.foldl_nil, locate?_join hname,
      (place?_eq_some_iff hdir).mp hplace, Option.bind_some, follow?_name hname,
      List.append_assoc]
    exact ⟨hdir, rfl, hm⟩

/-! ### Adding a file -/

/-- A file can be put at the place: it has names, no directory is there, and no file is above. -/
structure HasRoomAt (t : Tree) (l : Location) : Prop where
  named : ∀ n ∈ l, IsName n
  free : t.isDirectoryAt l = false
  reachable (m : Location) : m <+: l → m ≠ l → t.isFileAt m = false

variable {bytes : ByteArray}

theorem isFileAt_put : (t.put l bytes).isFileAt m = true ↔ m = l ∨ t.isFileAt m = true := by
  rw [isFileAt, content?_put, isFileAt]
  split
  · simp [*]
  · simp [*]

theorem mem_files_put {f : Location × ByteArray} :
    f ∈ (t.put l bytes).files ↔ f = (l, bytes) ∨ f ∈ t.files ∧ f.1 ≠ l := by
  simp [put]

theorem isDirectoryAt_put :
    (t.put l bytes).isDirectoryAt m = true ↔ t.isDirectoryAt m = true ∨ m <+: l ∧ m ≠ l := by
  rw [isDirectoryAt_iff, isDirectoryAt_iff]
  constructor
  · rintro (rfl | hd | ⟨f, hf, hm, hne⟩)
    · exact .inl (.inl rfl)
    · exact .inl (.inr (.inl hd))
    · rcases mem_files_put.mp hf with rfl | ⟨hf, -⟩
      · exact .inr ⟨hm, hne⟩
      · exact .inl (.inr (.inr ⟨f, hf, hm, hne⟩))
  · rintro ((rfl | hd | ⟨f, hf, hm, hne⟩) | ⟨hm, hne⟩)
    · exact .inl rfl
    · exact .inr (.inl hd)
    · refine .inr (.inr ?_)
      by_cases hl : f.1 = l
      · exact ⟨(l, bytes), mem_files_put.mpr (.inl rfl), hl ▸ hm, hl ▸ hne⟩
      · exact ⟨f, mem_files_put.mpr (.inr ⟨hf, hl⟩), hm, hne⟩
    · exact .inr (.inr ⟨(l, bytes), mem_files_put.mpr (.inl rfl), hm, hne⟩)

theorem IsSound.put (ht : t.IsSound) (hl : t.HasRoomAt l) (bytes : ByteArray) :
    (t.put l bytes).IsSound := by
  constructor
  case named =>
    intro f hf
    rcases mem_files_put.mp hf with rfl | ⟨hf, -⟩
    · exact hl.named
    · exact ht.named f hf
  case namedDirectories => exact ht.namedDirectories
  case distinct =>
    refine List.nodup_cons.mpr ⟨by simp, ?_⟩
    exact ht.distinct.sublist (List.filter_sublist.map _)
  case apart =>
    intro f hf
    rw [Bool.eq_false_iff, Ne, isDirectoryAt_put]
    rcases mem_files_put.mp hf with rfl | ⟨hf, -⟩
    · simp [hl.free]
    · rintro (hdir | ⟨hm, hne⟩)
      · exact absurd hdir (by simp [ht.apart f hf])
      · have hfile : t.isFileAt f.1 = true := isFileAt_iff.mpr (List.mem_map_of_mem hf)
        exact absurd hfile (by simp [hl.reachable f.1 hm hne])

/-- More files and directories lead no path elsewhere. -/
theorem follow?_mono {t' : Tree} (hfile : ∀ m, t.isFileAt m = true → t'.isFileAt m = true)
    (hdir : ∀ m, t.isDirectoryAt m = true → t'.isDirectoryAt m = true)
    (h : t.follow? l ps = some m) : t'.follow? l ps = some m := by
  induction ps generalizing l with
  | nil => exact h
  | cons p ps ih =>
    obtain ⟨hl, hp⟩ := follow?_cons_eq_some_iff.mp h
    refine follow?_cons_eq_some_iff.mpr ⟨hdir l hl, ?_⟩
    rcases hp with ⟨hskipped, h⟩ | ⟨hup, h⟩ | ⟨hname, hhas, h⟩
    · exact .inl ⟨hskipped, ih h⟩
    · exact .inr (.inl ⟨hup, ih h⟩)
    · exact .inr (.inr ⟨hname, hhas.imp (hfile _) (hdir _), ih h⟩)

theorem locate?_put (h : t.locate? path = some m) (l : Location) (bytes : ByteArray) :
    (t.put l bytes).locate? path = some m := by
  have hne : path ≠ "" := by
    rintro rfl
    cases h
  rw [locate?_eq hne] at h ⊢
  exact follow?_mono (fun _ hm => isFileAt_put.mpr (.inr hm))
    (fun _ hm => isDirectoryAt_put.mpr (.inl hm)) h

end

end Tree
end ProcessLint
