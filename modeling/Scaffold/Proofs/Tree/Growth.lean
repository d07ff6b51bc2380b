import Scaffold.Tree
import Scaffold.Proofs.Entries
import Mathlib.Tactic.Common

/-!
# How a tree grows

A run only ever adds directories to a tree and replaces the content of files. Two consequences carry
everything that is said later about files a run does not touch.

* **Walking is stable.** A walk that ends at a directory or at an untouched file ends there in every
  grown tree as well (`find_directory_of_grows`, `find_file_of_grows`).
* **Writing twice is writing once.** A file that holds the bytes already makes the write the identity
  on the tree (`writeFile_of_find`), and the directories on the way to it need no making
  (`makeDirs_of_find`).
-/

namespace Scaffold.Tree

variable {t t' : Tree} {here place parts names : List String} {p : Path}

/-! ## Walking -/

/-- The place a name leads to. -/
def enter (place : List String) (part : String) : List String :=
  if part == ".." then place.dropLast else place ++ [part]

theorem findFrom_cons (h : t.get? place = some .directory) (part : String) :
    t.findFrom place (part :: parts) = t.findFrom (enter place part) parts := by
  simp [findFrom, h, enter]

theorem get?_of_findFrom_directory_end {q : List String}
    (h : t.findFrom place parts = .directory q) : t.get? q = some .directory := by
  induction parts generalizing place with
  | nil =>
    rw [findFrom] at h
    split at h <;> simp_all
  | cons part rest ih =>
    rw [findFrom_cons (get?_of_findFrom_directory h)] at h
    exact ih h

/-- What stands at the end of a walk to a file. -/
theorem get?_of_findFrom_file {q : List String} {c : ByteArray}
    (h : t.findFrom place parts = .file q c) : t.get? q = some (.file c) := by
  induction parts generalizing place with
  | nil =>
    rw [findFrom] at h
    split at h <;> simp_all
  | cons part rest ih =>
    rw [findFrom] at h
    split at h
    · exact ih h
    · cases h
    · cases h

theorem get?_of_findFrom_vacant {q : List String} (h : t.findFrom place parts = .vacant q) :
    t.get? q = none := by
  induction parts generalizing place with
  | nil =>
    rw [findFrom] at h
    split at h <;> simp_all
  | cons part rest ih =>
    rw [findFrom] at h
    split at h
    · exact ih h
    · cases h
    · cases h

/-- A walk goes on from the directory that its first part leads to. -/
theorem findFrom_append {q : List String} (h : t.findFrom place parts = .directory q) :
    t.findFrom place (parts ++ names) = t.findFrom q names := by
  induction parts generalizing place with
  | nil =>
    rw [findFrom] at h
    split at h <;> simp_all
  | cons part rest ih =>
    have hdir := get?_of_findFrom_directory h
    rw [findFrom_cons hdir] at h
    rw [List.cons_append, findFrom_cons hdir, ih h]

/-- Whether a walk ends at something, or at a place where something can be put. -/
def Found.reaches : Found → Option (List String)
  | .directory q => some q
  | .file q _ => some q
  | .vacant q => some q
  | .missing => none
  | .blocked => none

@[simp]
theorem reaches_findFrom_nil (t : Tree) (place : List String) :
    (t.findFrom place []).reaches = some place := by
  rw [findFrom]
  split <;> rfl

/-- A walk that arrives has been at a directory before each name. -/
theorem findFrom_append_reaches {q : List String} (hne : names ≠ [])
    (h : (t.findFrom place (parts ++ names)).reaches = some q) :
    ∃ d, t.findFrom place parts = .directory d := by
  obtain ⟨name, names, rfl⟩ := List.exists_cons_of_ne_nil hne
  induction parts generalizing place with
  | nil =>
    rw [List.nil_append, findFrom] at h
    split at h
    · exact ⟨place, findFrom_nil_directory ‹_›⟩
    · cases h
    · cases h
  | cons part rest ih =>
    rw [List.cons_append, findFrom] at h
    split at h
    · rename_i hdir
      rw [findFrom_cons hdir]
      exact ih h
    · cases h
    · cases h

/-- A walk that reaches a place goes on to it from the directory before the last name. -/
theorem exists_of_find_concat {front q : List String} {last : String}
    (h : (t.find (front ++ [last])).reaches = some q) :
    ∃ d, t.findFrom [] front = .directory d ∧ t.get? d = some .directory ∧ enter d last = q := by
  obtain ⟨d, hd⟩ := findFrom_append_reaches (by simp) h
  have hdirectory := get?_of_findFrom_directory_end hd
  rw [find, findFrom_append hd, findFrom_cons hdirectory, reaches_findFrom_nil] at h
  exact ⟨d, hd, hdirectory, Option.some.inj h⟩

/-- Names other than the double dots are added to the place one after another. -/
theorem reaches_eq_append {q : List String} (hplain : ".." ∉ names)
    (h : (t.findFrom place names).reaches = some q) : q = place ++ names := by
  induction names generalizing place with
  | nil =>
    rw [reaches_findFrom_nil] at h
    rw [List.append_nil, Option.some.inj h]
  | cons name rest ih =>
    simp only [List.mem_cons, not_or] at hplain
    rw [findFrom] at h
    split at h
    · have hname : (name == "..") = false := by
        simpa using fun e => hplain.1 e.symm
      rw [hname] at h
      have := ih hplain.2 h
      simpa using this
    · cases h
    · cases h

/-- A walk ends at a place that ends in the last names of the path. -/
theorem suffix_of_reaches {q : List String} (hplain : ".." ∉ names) (hne : names ≠ [])
    (h : (t.find (parts ++ names)).reaches = some q) : names <:+ q := by
  obtain ⟨d, hd⟩ := findFrom_append_reaches hne h
  rw [find, findFrom_append hd] at h
  exact ⟨d, (reaches_eq_append hplain h).symm⟩

/-! ## Growth -/

/-- The second tree has all directories of the first, and the same files with the same bytes except
those that stand at a place of `W`. -/
structure Grows (W : List String → Prop) (t t' : Tree) : Prop where
  /-- directories stay -/
  directory : ∀ q, t.get? q = some .directory → t'.get? q = some .directory
  /-- outside of `W` no file is changed, and none is new -/
  file : ∀ q c, ¬ W q → (t'.get? q = some (.file c) ↔ t.get? q = some (.file c))

variable {W W' : List String → Prop}

theorem Grows.refl (W : List String → Prop) (t : Tree) : Grows W t t :=
  ⟨fun _ h => h, fun _ _ _ => Iff.rfl⟩

theorem Grows.trans {t'' : Tree} (h : Grows W t t') (h' : Grows W t' t'') : Grows W t t'' :=
  ⟨fun q hq => h'.directory q (h.directory q hq),
    fun q c hW => (h'.file q c hW).trans (h.file q c hW)⟩

theorem Grows.mono (h : Grows W t t') (hW : ∀ q, W q → W' q) : Grows W' t t' :=
  ⟨h.directory, fun q c hq => h.file q c fun hw => hq (hW q hw)⟩

theorem findFrom_directory_of_grows {q : List String} (hg : Grows W t t')
    (h : t.findFrom place parts = .directory q) : t'.findFrom place parts = .directory q := by
  induction parts generalizing place with
  | nil =>
    have hplace := get?_of_findFrom_directory h
    rw [findFrom_nil_directory hplace] at h
    rw [findFrom_nil_directory (hg.directory _ hplace), h]
  | cons part rest ih =>
    have hplace := get?_of_findFrom_directory h
    rw [findFrom_cons hplace] at h
    rw [findFrom_cons (hg.directory _ hplace), ih h]

/-- A directory is found again in a grown tree. -/
theorem find_directory_of_grows {q : List String} (hg : Grows W t t')
    (h : t.find parts = .directory q) : t'.find parts = .directory q :=
  findFrom_directory_of_grows hg h

/-- A file outside of `W` is found again in a grown tree. -/
theorem find_file_of_grows {q : List String} {c : ByteArray} (hg : Grows W t t') (hW : ¬ W q)
    (h : t.find parts = .file q c) : t'.find parts = .file q c := by
  have hq := get?_of_findFrom_file h
  rcases List.eq_nil_or_concat parts with rfl | ⟨front, last, rfl⟩
  · have hreaches := reaches_findFrom_nil t []
    rw [← find, h] at hreaches
    obtain rfl : q = [] := Option.some.inj hreaches
    simp [get?] at hq
  · rw [List.concat_eq_append] at h ⊢
    obtain ⟨d, hd, hdir, rfl⟩ := exists_of_find_concat (by rw [h]; rfl)
    rw [find, findFrom_append (findFrom_directory_of_grows hg hd),
      findFrom_cons (hg.directory _ hdir), findFrom, (hg.file _ c hW).2 hq]

/-! ## Changing one place -/

theorem ne_nil_of_get?_ne_directory (h : t.get? place ≠ some .directory) : place ≠ [] := by
  rintro rfl
  exact h (by simp [get?])

/-- Putting a directory at a free place lets the tree grow. -/
theorem grows_set_directory (h : t.get? place = none) : Grows W t (t.set place .directory) := by
  have hne : place ≠ [] := ne_nil_of_get?_ne_directory (t := t) (by simp [h])
  refine ⟨fun q hq => ?_, fun q c _ => ?_⟩
  · rw [get?_set _ _ _ _ hne]
    split
    · rfl
    · exact hq
  · rw [get?_set _ _ _ _ hne]
    split
    · simp_all
    · exact Iff.rfl

/-- Putting a file at a place of `W` where no directory stands lets the tree grow. -/
theorem grows_set_file {c : ByteArray} (h : t.get? place ≠ some .directory) (hW : W place) :
    Grows W t (t.set place (.file c)) := by
  have hne := ne_nil_of_get?_ne_directory h
  refine ⟨fun q hq => ?_, fun q c hWq => ?_⟩
  · have hpq : place ≠ q := by
      rintro rfl
      exact h hq
    rw [get?_set _ _ _ _ hne, if_neg hpq, hq]
  · have hpq : place ≠ q := by
      rintro rfl
      exact hWq hW
    rw [get?_set _ _ _ _ hne, if_neg hpq]

/-- A walk that avoids the place is not affected by what is put there; one that ends there finds
it. -/
theorem findFrom_set {q : List String} {c : ByteArray} (hq : t.get? q ≠ some .directory)
    (h : (t.findFrom place parts).reaches = some q) :
    (t.set q (.file c)).findFrom place parts = .file q c := by
  have hne := ne_nil_of_get?_ne_directory hq
  induction parts generalizing place with
  | nil =>
    rw [reaches_findFrom_nil] at h
    rw [findFrom, Option.some.inj h, get?_set _ _ _ _ hne, if_pos rfl]
  | cons part rest ih =>
    rw [findFrom] at h
    split at h
    · rename_i hdir
      have hpq : q ≠ place := by
        rintro rfl
        exact hq hdir
      have hset : (t.set q (.file c)).get? place = some .directory := by
        rw [get?_set _ _ _ _ hne, if_neg hpq, hdir]
      rw [findFrom_cons hset]
      exact ih h
    · cases h
    · cases h

/-- Putting back what stands at a place changes nothing. -/
theorem set_of_get? {node : Node} (hne : place ≠ []) (h : t.get? place = some node) :
    t.set place node = t := by
  have hempty : place.isEmpty = false := by simpa using hne
  rw [get?, hempty] at h
  rw [set, Entries.insert_of_get? (by simpa using h)]

/-! ## Making directories -/

theorem grows_makeDir (h : t.makeDir here p = .ok t') : Grows W t t' := by
  unfold makeDir at h
  split at h
  · cases h
  · split at h
    · rename_i place hfind
      cases h
      exact grows_set_directory (get?_of_findFrom_vacant hfind)
    · cases h
      exact Grows.refl W t
    all_goals cases h

/-- Making the directories on the way to a path lets the tree grow and touches no file, even when
it fails. -/
theorem grows_makeDirsFrom (t : Tree) (p : Path) (fuel : Nat) :
    Grows W t (t.makeDirsFrom here p fuel).1 := by
  induction fuel generalizing t p with
  | zero =>
    rw [makeDirsFrom]
    split
    · exact grows_makeDir ‹_›
    · exact Grows.refl W t
  | succ fuel ih =>
    rw [makeDirsFrom]
    split
    · exact grows_makeDir ‹_›
    · have hparents := ih t p.parent
      split
      · rename_i hp
        rw [hp] at hparents
        exact hparents
      · rename_i hp
        rw [hp] at hparents
        split
        · exact hparents.trans (grows_makeDir ‹_›)
        · exact hparents
    · exact Grows.refl W t

theorem grows_makeDirs (t : Tree) (p : Path) : Grows W t (t.makeDirs here p).1 :=
  grows_makeDirsFrom t p _

/-- A directory that is there need not be made. -/
theorem makeDirs_of_find {q : List String} (hnull : p.holdsNull = false)
    (h : t.find (p.absolute here) = .directory q) : t.makeDirs here p = (t, none) := by
  have hmake : t.makeDir here p = .ok t := by
    simp [makeDir, hnull, h]
  unfold makeDirs
  cases p.parts.length <;> simp [makeDirsFrom, hmake]

/-! ## Writing a file -/

/-- A write that succeeds lets the tree grow, and touches only the place it leads to. -/
theorem grows_writeFile {c : ByteArray} (h : t.writeFile here p c = .ok t')
    (hW : ∀ q, (t.find (p.absolute here)).reaches = some q → W q) : Grows W t t' := by
  unfold writeFile at h
  split at h
  · cases h
  · split at h
    · rename_i place hfind
      cases h
      have hnone := get?_of_findFrom_vacant hfind
      exact grows_set_file (by simp [hnone]) (hW place (by rw [hfind]; rfl))
    · rename_i place old hfind
      cases h
      have hold := get?_of_findFrom_file hfind
      exact grows_set_file (by simp [hold]) (hW place (by rw [hfind]; rfl))
    all_goals cases h

/-- A write that succeeds leaves the bytes at the end of its path. -/
theorem find_of_writeFile {c : ByteArray} (h : t.writeFile here p c = .ok t') :
    p.holdsNull = false ∧ ∃ q, t'.find (p.absolute here) = .file q c := by
  unfold writeFile at h
  split at h
  · cases h
  · rename_i hnull
    refine ⟨by simpa using hnull, ?_⟩
    split at h
    · rename_i q hfind
      cases h
      have hnone := get?_of_findFrom_vacant hfind
      exact ⟨q, findFrom_set (by simp [hnone]) (by rw [← find, hfind]; rfl)⟩
    · rename_i q old hfind
      cases h
      have hold := get?_of_findFrom_file hfind
      exact ⟨q, findFrom_set (by simp [hold]) (by rw [← find, hfind]; rfl)⟩
    all_goals cases h

/-- Writing the bytes that are there already changes nothing. -/
theorem writeFile_of_find {q : List String} {c : ByteArray} (hnull : p.holdsNull = false)
    (h : t.find (p.absolute here) = .file q c) : t.writeFile here p c = .ok t := by
  have hq := get?_of_findFrom_file h
  have hne : q ≠ [] := ne_nil_of_get?_ne_directory (t := t) (by simp [hq])
  simp [writeFile, hnull, h, set_of_get? hne hq]

end Scaffold.Tree
