import Mathlib.Data.List.Dedup
import Mathlib.Data.List.Lex
import Mathlib.Data.Prod.Lex
import Mathlib.Data.String.Basic
import ProcessLint.Command.Execute
import ProcessLint.Proofs.Places
import ProcessLint.Proofs.Verdict

/-! Which files are found below a directory: those that a walker yields and no pattern leaves out,
in the order of their paths. How the walker comes to them does not matter, and patterns together
leave what each of them leaves by itself. -/
namespace ProcessLint

open ProcessLint.Path (IsName)

/-! ### The order of paths -/

namespace Path

/-- The top comes first, then here and up, then names. -/
def Part.key : Part → ℕ ×ₗ String
  | .root => toLex (0, "")
  | .here => toLex (1, "")
  | .up => toLex (2, "")
  | .name s => toLex (3, s)

/-- Paths are compared part by part. -/
def sortKey (path : String) : List (ℕ ×ₗ String) := (parts path).map Part.key

section

variable {base : String} {l m : Location}

theorem sortKey_foldl_join (hl : ∀ n ∈ l, IsName n) :
    sortKey (l.foldl join base) = sortKey base ++ l.map fun n => Part.key (.name n) := by
  rw [sortKey, parts_foldl_join hl, List.map_append, List.map_map]
  rfl

theorem map_key_lt (h : l.isUpTo m = true) (hne : l ≠ m) :
    (l.map fun n => Part.key (.name n)) < m.map fun n => Part.key (.name n) := by
  induction l generalizing m with
  | nil =>
    obtain ⟨b, m, rfl⟩ := List.exists_cons_of_ne_nil hne.symm
    exact List.nil_lt_cons _ _
  | cons a l ih =>
    cases m with
    | nil => cases h
    | cons b m =>
      rw [List.map_cons, List.map_cons, List.cons_lt_cons_iff]
      rcases (Location.isUpTo_cons ..).mp h with hab | ⟨rfl, hlm⟩
      · exact .inl (Prod.Lex.toLex_lt_toLex.mpr (.inr ⟨rfl, hab⟩))
      · exact .inr ⟨rfl, ih hlm fun heq => hne (congrArg (a :: ·) heq)⟩

theorem sortKey_lt (hl : ∀ n ∈ l, IsName n) (hm : ∀ n ∈ m, IsName n) (h : l.isUpTo m = true)
    (hne : l ≠ m) : sortKey (l.foldl join base) < sortKey (m.foldl join base) := by
  rw [sortKey_foldl_join hl, sortKey_foldl_join hm]
  exact List.append_left_lt (map_key_lt h hne)

theorem eq_of_sortKey_eq (hl : ∀ n ∈ l, IsName n) (hm : ∀ n ∈ m, IsName n)
    (h : sortKey (l.foldl join base) = sortKey (m.foldl join base)) : l = m := by
  by_contra hne
  rcases Location.isUpTo_total l m with hle | hle
  · exact absurd h (sortKey_lt hl hm hle hne).ne
  · exact absurd h.symm (sortKey_lt hm hl hle (Ne.symm hne)).ne

end

end Path

namespace Discovery

/-! ### Patterns -/

def AreValid (ps : List String) : Prop := ∀ p ∈ ps, (Exclusion.ofText? p).isSome = true

instance (ps : List String) : Decidable (AreValid ps) :=
  inferInstanceAs (Decidable (∀ p ∈ ps, (Exclusion.ofText? p).isSome = true))

section

variable {ps qs : List String}

theorem AreValid.append (hp : AreValid ps) (hq : AreValid qs) : AreValid (ps ++ qs) :=
  List.forall_mem_append.mpr ⟨hp, hq⟩

theorem exclusions_of_areValid (h : AreValid ps) :
    exclusions ps = .ok (ps.filterMap Exclusion.ofText?) := by
  induction ps with
  | nil => rfl
  | cons p ps ih =>
    obtain ⟨hp, hps⟩ := List.forall_mem_cons.mp h
    obtain ⟨e, he⟩ := Option.isSome_iff_exists.mp hp
    rw [exclusions, he, ih hps, List.filterMap_cons_some he]
    rfl

theorem exists_exclusions_eq_error (h : ¬AreValid ps) :
    ∃ p ∈ ps, Exclusion.ofText? p = none ∧ exclusions ps = .error (.invalidPattern p) := by
  induction ps with
  | nil => exact absurd nofun h
  | cons p ps ih =>
    cases he : Exclusion.ofText? p with
    | none => exact ⟨p, List.mem_cons_self, he, by rw [exclusions, he]⟩
    | some e =>
      have hrest : ¬AreValid ps := fun hps =>
        h (List.forall_mem_cons.mpr ⟨Option.isSome_iff_exists.mpr ⟨e, he⟩, hps⟩)
      obtain ⟨q, hq, hnone, herror⟩ := ih hrest
      refine ⟨q, List.mem_cons_of_mem p hq, hnone, ?_⟩
      rw [exclusions, he, herror]
      rfl

end

end Discovery

/-- A pattern leaves a path out: the path fits it, or leads through what the plain pattern names. -/
def Exclusion.LeavesOut (e : Exclusion) (path : Location) : Prop :=
  fits e.wildcards ("/".intercalate path).toList = true ∨
    e.plain ≠ "" ∧ Path.parts e.plain <+: path.map .name

theorem Exclusion.excludes_iff {e : Exclusion} {path : Location} :
    e.excludes path = true ↔ e.LeavesOut path := by
  simp [excludes, LeavesOut]

namespace Discovery

/-! ### What a walker yields -/

/-- Neither an entry below a directory nor a directory on the way to it is ignored. -/
def IsReached (t : Tree) (s : Selection) (l path : Location) : Prop :=
  ∀ p, p <+: path → p ≠ [] → isIgnored t s (l ++ p) (t.isDirectoryAt (l ++ p)) = false

/-- A walker yields each entry once that is reached, in any order. -/
structure IsWalk (t : Tree) (s : Selection) (l : Location) (walk : List Location) : Prop where
  nodup : walk.Nodup
  mem_iff (path : Location) : path ∈ walk ↔ t.HasAt (l ++ path) ∧ IsReached t s l path

/-- What is taken of a walk: the files that are wanted, in the order of their paths. -/
def gather (t : Tree) (root : String) (l : Location) (s : Selection) (es : List Exclusion)
    (walk : List Location) : List String :=
  ((walk.filter fun path => t.isFileAt (l ++ path) && isWanted s es path).map
    (·.foldl Path.join root)).mergeSort fun p q => Path.sortKey p ≤ Path.sortKey q

/-- A walker goes through what is below a path. It would take a lone dash for the standard input,
and it would stop at an ignore file above the path that has a faulty line. -/
structure IsWalkable (t : Tree) (s : Selection) (root : String) (l : Location) : Prop where
  noDash : Path.parts root ≠ [.name "-"]
  readable : isSpoiled t s l = false

section

variable {t : Tree} {s : Selection} {es : List Exclusion} {l m path : Location} {root : String}

theorem forall_isPrefix_iff {P : Location → Prop} (hne : path ≠ []) :
    (∀ p, p <+: path → p ≠ [] → P p) ↔
      P path ∧ ∀ n < path.length, n = 0 ∨ P (path.take n) := by
  constructor
  · intro h
    refine ⟨h path List.prefix_rfl hne, fun n _ => or_iff_not_imp_left.mpr fun hzero => ?_⟩
    exact h _ (List.take_prefix n path) (by simp [hzero, hne])
  · rintro ⟨hlast, hway⟩ p hp hpne
    rcases hp.length_le.eq_or_lt with heq | hlt
    · rwa [hp.eq_of_length heq]
    · have h := (hway p.length hlt).resolve_left (by simpa using hpne)
      rwa [← List.prefix_iff_eq_take.mp hp] at h

theorem isReached_iff (ht : t.IsSound) (hne : path ≠ []) (hfile : t.isFileAt (l ++ path) = true) :
    isReached t s l path = true ↔ IsReached t s l path := by
  simp only [IsReached, forall_isPrefix_iff hne, ht.isDirectoryAt_eq_false hfile, isReached,
    Bool.and_eq_true, Bool.not_eq_true', List.all_eq_true, List.mem_range, Bool.or_eq_true,
    decide_eq_true_eq]
  refine and_congr_right fun _ => forall₂_congr fun n hn => ?_
  have hshort : path.take n ≠ path := fun heq => by
    have hlength := congrArg List.length heq
    rw [List.length_take] at hlength
    omega
  have hdirectory : t.isDirectoryAt (l ++ path.take n) = true :=
    Tree.HasAt.isDirectoryAt_above (.inl hfile)
      ((List.prefix_append_right_inj l).mpr (List.take_prefix n path)) (by simpa)
  rw [hdirectory]

/-- The names that lead from a place to one below it. -/
def beneath? (l m : Location) : Option Location :=
  if l.isPrefixOf m && l != m then some (m.drop l.length) else none

theorem beneath?_eq_some_iff : beneath? l m = some path ↔ path ≠ [] ∧ m = l ++ path := by
  rw [beneath?]
  split
  · rename_i h
    rw [Bool.and_eq_true, List.isPrefixOf_iff_prefix, bne_iff_ne] at h
    obtain ⟨⟨rest, rfl⟩, hne⟩ := h
    have hrest : rest ≠ [] := by simpa using hne
    rw [List.drop_left, Option.some.injEq, List.append_right_inj]
    constructor
    · rintro rfl
      exact ⟨hrest, rfl⟩
    · exact fun h => h.2
  · rename_i h
    constructor
    · exact nofun
    · rintro ⟨hne, rfl⟩
      simp [hne] at h

theorem nodup_filterMap_beneath? {ms : List Location} (h : ms.Nodup) :
    (ms.filterMap (beneath? l)).Nodup := by
  refine List.Nodup.filterMap (fun m m' path hm hm' => ?_) h
  obtain ⟨-, rfl⟩ := beneath?_eq_some_iff.mp hm
  obtain ⟨-, rfl⟩ := beneath?_eq_some_iff.mp hm'
  rfl

theorem mem_filterMap_beneath? {ms : List Location} :
    path ∈ ms.filterMap (beneath? l) ↔ path ≠ [] ∧ l ++ path ∈ ms := by
  simp only [List.mem_filterMap, beneath?_eq_some_iff]
  constructor
  · rintro ⟨_, hmem, hne, rfl⟩
    exact ⟨hne, hmem⟩
  · rintro ⟨hne, hmem⟩
    exact ⟨_, hmem, hne, rfl⟩

/-! ### The files below a directory -/

theorem below_eq (t : Tree) (s : Selection) (es : List Exclusion) (l : Location) :
    below t s es l = (((t.files.map Prod.fst).filterMap (beneath? l)).filter
      fun path => isReached t s l path && isWanted s es path).mergeSort Location.isUpTo := by
  rw [List.filterMap_map]
  rfl

theorem mem_below (ht : t.IsSound) (hl : t.isDirectoryAt l = true) : path ∈ below t s es l ↔
    t.isFileAt (l ++ path) = true ∧ IsReached t s l path ∧ isWanted s es path = true := by
  rw [below_eq, List.mem_mergeSort, List.mem_filter, mem_filterMap_beneath?, ← Tree.isFileAt_iff,
    Bool.and_eq_true]
  constructor
  · rintro ⟨⟨hne, hfile⟩, hreached, hwanted⟩
    exact ⟨hfile, (isReached_iff ht hne hfile).mp hreached, hwanted⟩
  · rintro ⟨hfile, hreached, hwanted⟩
    have hne : path ≠ [] := by
      rintro rfl
      rw [List.append_nil] at hfile
      rw [ht.isDirectoryAt_eq_false hfile] at hl
      cases hl
    exact ⟨⟨hne, hfile⟩, (isReached_iff ht hne hfile).mpr hreached, hwanted⟩

theorem nodup_below (ht : t.IsSound) : (below t s es l).Nodup := by
  rw [below_eq, (List.mergeSort_perm _ _).nodup_iff]
  exact (nodup_filterMap_beneath? ht.distinct).filter _

theorem isName_of_mem_below (ht : t.IsSound) (hl : t.isDirectoryAt l = true)
    (h : path ∈ below t s es l) : ∀ n ∈ path, IsName n := fun n hn =>
  ht.isName (.inl ((mem_below ht hl).mp h).1) n (List.mem_append_right l hn)

theorem pairwise_map_below (ht : t.IsSound) (hl : t.isDirectoryAt l = true) :
    ((below t s es l).map (·.foldl Path.join root)).Pairwise fun p q =>
      Path.sortKey p < Path.sortKey q := by
  rw [List.pairwise_map]
  refine ((Run.pairwise_below t s es l).and (nodup_below ht)).imp_of_mem ?_
  intro p q hp hq h
  exact Path.sortKey_lt (isName_of_mem_below ht hl hp) (isName_of_mem_below ht hl hq) h.1 h.2

theorem pairwise_gather (walk : List Location) :
    (gather t root l s es walk).Pairwise fun p q => Path.sortKey p ≤ Path.sortKey q := by
  have hsorted := @List.pairwise_mergeSort _
    (fun p q : String => decide (Path.sortKey p ≤ Path.sortKey q))
    (by simpa using fun p q r => le_trans) (by simpa using fun p q => le_total _ _)
    ((walk.filter fun path => t.isFileAt (l ++ path) && isWanted s es path).map
      (·.foldl Path.join root))
  exact hsorted.imp of_decide_eq_true

/-- What is taken of a walk does not depend on the order of the walk. -/
theorem gather_eq (ht : t.IsSound) (hl : t.isDirectoryAt l = true) {walk : List Location}
    (hwalk : IsWalk t s l walk) :
    gather t root l s es walk = (below t s es l).map (·.foldl Path.join root) := by
  have hperm : (walk.filter fun path => t.isFileAt (l ++ path) && isWanted s es path).Perm
      (below t s es l) := by
    refine (List.perm_ext_iff_of_nodup (hwalk.nodup.filter _) (nodup_below ht)).mpr fun path => ?_
    rw [List.mem_filter, hwalk.mem_iff, Bool.and_eq_true, mem_below ht hl]
    constructor
    · rintro ⟨⟨-, hreached⟩, hfile, hwanted⟩
      exact ⟨hfile, hreached, hwanted⟩
    · rintro ⟨hfile, hreached, hwanted⟩
      exact ⟨⟨.inl hfile, hreached⟩, hfile, hwanted⟩
  have hgather : (gather t root l s es walk).Perm
      ((below t s es l).map (·.foldl Path.join root)) :=
    (List.mergeSort_perm _ _).trans (hperm.map _)
  refine hgather.eq_of_pairwise ?_ (pairwise_gather walk) ((pairwise_map_below ht hl).imp le_of_lt)
  intro p q hp hq hpq hqp
  obtain ⟨a, ha, rfl⟩ := List.mem_map.mp (hgather.mem_iff.mp hp)
  obtain ⟨b, hb, rfl⟩ := List.mem_map.mp hq
  rw [Path.eq_of_sortKey_eq (isName_of_mem_below ht hl ha) (isName_of_mem_below ht hl hb)
    (le_antisymm hpq hqp)]

theorem exists_isWalk (s : Selection) (hl : t.isDirectoryAt l = true) :
    ∃ walk, IsWalk t s l walk := by
  classical
  refine ⟨[] :: (t.places.dedup.filterMap (beneath? l)).filter (IsReached t s l ·), ?_,
    fun path => ?_⟩
  · refine List.nodup_cons.mpr
      ⟨?_, (nodup_filterMap_beneath? (List.nodup_dedup t.places)).filter _⟩
    rw [List.mem_filter, mem_filterMap_beneath?]
    exact fun h => h.1.1 rfl
  · rw [List.mem_cons, List.mem_filter, mem_filterMap_beneath?, List.mem_dedup, decide_eq_true_eq]
    by_cases hne : path = []
    · subst hne
      refine iff_of_true (.inl rfl) ⟨.inr (by rwa [List.append_nil]), fun p hp hpne => ?_⟩
      exact absurd (List.prefix_nil.mp hp) hpne
    · rw [Tree.mem_places (by simp [hne])]
      simp [hne]

/-! ### Excluding more -/

theorem below_append (ht : t.IsSound) (hl : t.isDirectoryAt l = true) (es fs : List Exclusion) :
    below t s (es ++ fs) l = (below t s es l).filter (· ∈ below t s fs l) := by
  have hmem (path : Location) : path ∈ below t s (es ++ fs) l ↔
      path ∈ (below t s es l).filter (· ∈ below t s fs l) := by
    rw [List.mem_filter, decide_eq_true_eq, mem_below ht hl, mem_below ht hl, mem_below ht hl]
    simp only [isWanted, List.any_append, Bool.not_or, Bool.and_eq_true]
    tauto
  have hperm := (List.perm_ext_iff_of_nodup (nodup_below ht) ((nodup_below ht).filter _)).mpr hmem
  exact hperm.eq_of_pairwise (fun _ _ _ _ => Location.isUpTo_antisymm)
    (Run.pairwise_below t s (es ++ fs) l) ((Run.pairwise_below t s es l).filter _)

theorem map_below_append (ht : t.IsSound) (hl : t.isDirectoryAt l = true) (root : String)
    (es fs : List Exclusion) : (below t s (es ++ fs) l).map (·.foldl Path.join root) =
      ((below t s es l).map (·.foldl Path.join root)).filter
        (· ∈ (below t s fs l).map (·.foldl Path.join root)) := by
  rw [below_append ht hl, List.filter_map]
  refine congrArg _ (List.filter_congr fun path hpath => decide_eq_decide.mpr ?_)
  constructor
  · exact fun h => List.mem_map_of_mem h
  · intro h
    obtain ⟨path', h', heq⟩ := List.mem_map.mp h
    have hsame := Path.eq_of_sortKey_eq (isName_of_mem_below ht hl h')
      (isName_of_mem_below ht hl hpath) (congrArg Path.sortKey heq)
    exact hsame ▸ h'

theorem isFile_eq_false (ht : t.IsSound) (hroot : t.locate? root = some l)
    (hl : t.isDirectoryAt l = true) : t.isFile root = false := by
  have hnofile : t.isFileAt l = false := by
    by_contra hfile
    rw [Bool.not_eq_false] at hfile
    cases hl.symm.trans (ht.isDirectoryAt_eq_false hfile)
  simp [Tree.isFile, hroot, hnofile]

theorem collect_of_error (ht : t.IsSound) (hroot : t.locate? root = some l)
    (hl : t.isDirectoryAt l = true) {f : Fault} (h : exclusions s.exclude = .error f) :
    collect t root s = .error f := by
  rw [collect, isFile_eq_false ht hroot hl, if_neg Bool.false_ne_true, h]
  rfl

theorem collect_of_areValid (ht : t.IsSound) (hroot : t.locate? root = some l)
    (hl : t.isDirectoryAt l = true) (h : IsWalkable t s root l) (hs : AreValid s.exclude) :
    collect t root s =
      .ok ((below t s (s.exclude.filterMap Exclusion.ofText?) l).map (·.foldl Path.join root)) := by
  rw [collect, isFile_eq_false ht hroot hl, if_neg Bool.false_ne_true, exclusions_of_areValid hs]
  simp only [hroot, h.readable, if_neg h.noDash, if_neg Bool.false_ne_true]
  rfl

theorem collect_append (ht : t.IsSound) (hroot : t.locate? root = some l)
    (hl : t.isDirectoryAt l = true) (h : IsWalkable t s root l) {ps qs : List String}
    (hps : AreValid ps) (hqs : AreValid qs) : ∃ fs gs,
      collect t root { s with exclude := ps } = .ok fs ∧
      collect t root { s with exclude := qs } = .ok gs ∧
      collect t root { s with exclude := ps ++ qs } = .ok (fs.filter (· ∈ gs)) := by
  have hboth := collect_of_areValid (s := { s with exclude := ps ++ qs }) ht hroot hl
    ⟨h.noDash, h.readable⟩ (hps.append hqs)
  rw [List.filterMap_append, map_below_append ht hl] at hboth
  exact ⟨_, _, collect_of_areValid ht hroot hl ⟨h.noDash, h.readable⟩ hps,
    collect_of_areValid ht hroot hl ⟨h.noDash, h.readable⟩ hqs, hboth⟩

end

/-! ### The files found -/

/-- A file below a directory is to be looked at: a walker comes to it, it has the right name, and
no pattern leaves it out. -/
structure IsSelected (t : Tree) (s : Selection) (l : Location) (ps : List String)
    (path : Location) : Prop where
  file : t.isFileAt (l ++ path) = true
  reached : IsReached t s l path
  suffixed : ∃ name, path.getLast? = some name ∧ s.suffix.toList <:+ name.toList
  kept : ∀ p ∈ ps, ∀ e, Exclusion.ofText? p = some e → ¬e.LeavesOut path

theorem isSelected_iff {t : Tree} {s : Selection} {l path : Location} {ps : List String}
    (ht : t.IsSound) (hl : t.isDirectoryAt l = true) : IsSelected t s l ps path ↔
      path ∈ below t s (ps.filterMap Exclusion.ofText?) l := by
  have hwanted : isWanted s (ps.filterMap Exclusion.ofText?) path = true ↔
      (∃ name, path.getLast? = some name ∧ s.suffix.toList <:+ name.toList) ∧
        ∀ p ∈ ps, ∀ e, Exclusion.ofText? p = some e → ¬e.LeavesOut path := by
    simp only [isWanted, Bool.and_eq_true, Option.any_eq_true, List.isSuffixOf_iff_suffix,
      Bool.not_eq_true', List.any_eq_false, List.mem_filterMap, Exclusion.excludes_iff]
    refine and_congr_right fun _ => ?_
    constructor
    · exact fun h p hp e he => h e ⟨p, hp, he⟩
    · rintro h e ⟨p, hp, he⟩
      exact h p hp e he
  rw [mem_below ht hl, hwanted]
  exact ⟨fun ⟨hf, hr, hs, hk⟩ => ⟨hf, hr, hs, hk⟩, fun ⟨hf, hr, hs, hk⟩ => ⟨hf, hr, hs, hk⟩⟩

/-- The paths of the files below a directory that are to be looked at. -/
structure IsListing (t : Tree) (s : Selection) (root : String) (l : Location) (ps : List String)
    (fs : List String) : Prop where
  ordered : fs.Pairwise fun p q => Path.sortKey p < Path.sortKey q
  mem_iff (f : String) : f ∈ fs ↔ ∃ path, IsSelected t s l ps path ∧ f = path.foldl Path.join root
  /-- The paths lead to files. -/
  files : ∀ f ∈ fs, t.isFile f = true
  /-- Each walk gives the same. -/
  gathered (walk : List Location) : IsWalk t s l walk →
    gather t root l s (ps.filterMap Exclusion.ofText?) walk = fs

theorem isListing_below {t : Tree} {s : Selection} {root : String} {l : Location}
    (ht : t.IsSound) (hroot : t.locate? root = some l) (hl : t.isDirectoryAt l = true)
    (ps : List String) : IsListing t s root l ps
      ((below t s (ps.filterMap Exclusion.ofText?) l).map (·.foldl Path.join root)) := by
  constructor
  case ordered => exact pairwise_map_below ht hl
  case mem_iff =>
    intro f
    simp only [List.mem_map, isSelected_iff ht hl, eq_comm]
  case files =>
    intro f hf
    obtain ⟨path, hpath, rfl⟩ := List.mem_map.mp hf
    have hfile := ((mem_below ht hl).mp hpath).1
    have hplace := Tree.locate?_foldl_join hroot (.inl hfile) (isName_of_mem_below ht hl hpath)
    exact Tree.isFile_iff.mpr ⟨_, hplace, hfile⟩
  case gathered => exact fun walk hwalk => gather_eq ht hl hwalk

/-- The files below a directory are found exactly and in order, and further patterns only leave out
more. -/
structure IsExact (t : Tree) (s : Selection) (root : String) (l : Location) : Prop where
  /-- There are walks, so that the listings say something about them. -/
  walked : ∃ walk, IsWalk t s l walk
  lists (ps : List String) : IsWalkable t s root l → AreValid ps →
    ∃ fs, collect t root { s with exclude := ps } = .ok fs ∧ IsListing t s root l ps fs
  additive (ps qs : List String) : IsWalkable t s root l → AreValid ps → AreValid qs →
    ∃ fs gs, collect t root { s with exclude := ps } = .ok fs ∧
      collect t root { s with exclude := qs } = .ok gs ∧
      collect t root { s with exclude := ps ++ qs } = .ok (fs.filter (· ∈ gs))
  /-- The patterns of the command line are added to those of the settings. -/
  overridden (o : Command.CheckOptions) (x : Settings) : x.selection = s →
    IsWalkable t s root l → AreValid s.exclude → AreValid o.exclude →
    ∃ fs gs, collect t root s = .ok fs ∧ collect t root { s with exclude := o.exclude } = .ok gs ∧
      collect t root (o.override x).selection = .ok (fs.filter (· ∈ gs))
  fails (ps : List String) : ¬AreValid ps → ∃ p ∈ ps, Exclusion.ofText? p = none ∧
    collect t root { s with exclude := ps } = .error (.invalidPattern p)

/-- What is collected below a directory is exact, whatever the patterns. -/
theorem isExact_collect {t : Tree} {root : String} {l : Location} (ht : t.IsSound)
    (hroot : t.locate? root = some l) (hl : t.isDirectoryAt l = true) (s : Selection) :
    IsExact t s root l := by
  constructor
  case walked => exact exists_isWalk s hl
  case lists =>
    intro ps h hps
    exact ⟨_, collect_of_areValid ht hroot hl ⟨h.noDash, h.readable⟩ hps,
      isListing_below ht hroot hl ps⟩
  case additive => exact fun ps qs h hps hqs => collect_append ht hroot hl h hps hqs
  case overridden =>
    rintro o x rfl h hs ho
    exact collect_append ht hroot hl h hs ho
  case fails =>
    intro ps hps
    obtain ⟨p, hp, hnone, herror⟩ := exists_exclusions_eq_error hps
    exact ⟨p, hp, hnone, collect_of_error ht hroot hl herror⟩

def draftsTree : Tree where
  files := [(["loans", "b.ebl.json"], .empty), (["loans", "a", "nested.ebl.json"], .empty),
    (["loans", "drafts", "wip.ebl.json"], .empty), (["loans", "notes.ebl"], .empty),
    (["loans", "old", "b.ebl.json"], .empty), (["loans", ".gitignore"], "old/\n".toUTF8)]

def withoutDrafts : Selection := { exclude := ["**/drafts/**"] }

theorem isExact_collect_draftsTree :
    draftsTree.IsSound ∧ draftsTree.locate? "loans" = some ["loans"] ∧
      draftsTree.isDirectoryAt ["loans"] = true ∧
      IsExact draftsTree withoutDrafts "loans" ["loans"] ∧
      IsWalkable draftsTree withoutDrafts "loans" ["loans"] ∧
      collect draftsTree "loans" withoutDrafts =
        .ok ["loans/a/nested.ebl.json", "loans/b.ebl.json"] := by
  have hsound : draftsTree.IsSound := by decide +kernel
  have hroot : draftsTree.locate? "loans" = some ["loans"] := by decide +kernel
  have hdirectory : draftsTree.isDirectoryAt ["loans"] = true := by decide +kernel
  have hwalkable : IsWalkable draftsTree withoutDrafts "loans" ["loans"] :=
    ⟨by decide +kernel, by decide +kernel⟩
  have hbelow : below draftsTree withoutDrafts
      (withoutDrafts.exclude.filterMap Exclusion.ofText?) ["loans"] =
        [["a", "nested.ebl.json"], ["b.ebl.json"]] :=
    List.Perm.eq_of_pairwise (fun _ _ _ _ => Location.isUpTo_antisymm)
      (Run.pairwise_below _ _ _ _) (by decide)
      ((List.mergeSort_perm _ _).trans (by decide +kernel))
  refine ⟨hsound, hroot, hdirectory, isExact_collect hsound hroot hdirectory _, hwalkable, ?_⟩
  rw [collect_of_areValid hsound hroot hdirectory hwalkable (by decide +kernel), hbelow]
  decide +kernel

end Discovery
end ProcessLint
