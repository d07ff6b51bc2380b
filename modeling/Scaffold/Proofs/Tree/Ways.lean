import Scaffold.Proofs.Tree.Growth
import Mathlib.Data.List.Infix

/-!
# Ways down a tree

What stands on the way from a place along names that lead further down at each step. Where such a walk
ends is decided by what stands at the places on the way, and by nothing else.

* **A way is open** if there are directories all along, and **clear** if there is no file. A clear way
  that is not open ends where a directory is missing.
* **A closed tree** has a directory above everything that stands in it. Making directories and writing
  files keep a tree closed.
-/

namespace Scaffold.Tree

variable {t t' : Tree} {root front names here : List String} {last : String} {p : Path}

/-! ## Ways -/

/-- There are directories all along the names. -/
def Open (t : Tree) (root names : List String) : Prop :=
  ∀ way, way <+: names → t.get? (root ++ way) = some .directory

/-- There is no file along the names. -/
def Clear (t : Tree) (root names : List String) : Prop :=
  ∀ way, way <+: names → ∀ c, t.get? (root ++ way) ≠ some (.file c)

theorem Open.clear (h : t.Open root names) : t.Clear root names := by
  intro way hway c hfile
  rw [h way hway] at hfile
  cases hfile

theorem Clear.of_concat (h : t.Clear root (front ++ [last])) : t.Clear root front :=
  fun way hway => h way (hway.trans (List.prefix_append _ _))

theorem Clear.concat (h : t.Clear root front)
    (hlast : ∀ c, t.get? (root ++ (front ++ [last])) ≠ some (.file c)) :
    t.Clear root (front ++ [last]) := by
  intro way hway
  rcases List.prefix_concat_iff.1 hway with rfl | hway
  · exact hlast
  · exact h way hway

/-- What grew from a tree has its files. -/
theorem Clear.of_grows (h : t'.Clear root names) (hgrows : t.Grows (fun _ => False) t') :
    t.Clear root names :=
  fun way hway c hfile => h way hway c ((hgrows.file _ c not_false).2 hfile)

theorem Clear.grows (h : t.Clear root names) (hgrows : t.Grows (fun _ => False) t') :
    t'.Clear root names :=
  fun way hway c hfile => h way hway c ((hgrows.file _ c not_false).1 hfile)

theorem not_mem_of_concat (h : ".." ∉ front ++ [last]) : ".." ∉ front :=
  fun hmem => h (List.mem_append_left _ hmem)

/-- A walk that arrives comes along an open way. -/
theorem open_of_findFrom (hplain : ".." ∉ names) {q : List String}
    (h : (t.findFrom root (names ++ [last])).reaches = some q) : t.Open root names := by
  rintro way ⟨rest, rfl⟩
  rw [List.append_assoc] at h
  obtain ⟨d, hd⟩ := findFrom_append_reaches (by simp) h
  have hway : ".." ∉ way := fun hmem => hplain (List.mem_append_left _ hmem)
  have hplace : d = root ++ way := reaches_eq_append hway (by rw [hd]; rfl)
  rw [← hplace]
  exact get?_of_findFrom_directory_end hd

theorem enter_of_plain {name : String} (h : ".." ∉ name :: names) (place : List String) :
    enter place name = place ++ [name] := by
  rw [enter, if_neg]
  intro heq
  exact h (eq_of_beq heq ▸ .head _)

/-- The way from the next place on. -/
theorem Open.tail {name : String} (h : t.Open root (name :: names)) :
    t.Open (root ++ [name]) names := by
  intro way hway
  rw [← List.append_cons]
  exact h (name :: way) (List.cons_prefix_cons.2 ⟨rfl, hway⟩)

theorem Clear.tail {name : String} (h : t.Clear root (name :: names)) :
    t.Clear (root ++ [name]) names := by
  intro way hway
  rw [← List.append_cons]
  exact h (name :: way) (List.cons_prefix_cons.2 ⟨rfl, hway⟩)

theorem Open.get?_start (h : t.Open root names) : t.get? root = some .directory := by
  simpa using h [] List.nil_prefix

/-- An open way leads to the directory at its end. -/
theorem Open.findFrom (h : t.Open root names) (hplain : ".." ∉ names) :
    t.findFrom root names = .directory (root ++ names) := by
  induction names generalizing root with
  | nil =>
    rw [List.append_nil]
    exact findFrom_nil_directory h.get?_start
  | cons name names ih =>
    have hnames : ".." ∉ names := fun hmem => hplain (.tail _ hmem)
    rw [findFrom_cons h.get?_start, enter_of_plain hplain, ih h.tail hnames, ← List.append_cons]

/-- What a walk finds behind an open way is what stands there. -/
theorem Open.findFrom_concat (h : t.Open root front) (hplain : ".." ∉ front ++ [last]) :
    t.findFrom root (front ++ [last]) = t.findFrom (root ++ (front ++ [last])) [] := by
  have hdirectory : t.get? (root ++ front) = some .directory := h front (List.prefix_refl _)
  have hlast : ".." ∉ [last] := fun hmem => hplain (List.mem_append_right _ hmem)
  rw [findFrom_append (h.findFrom (not_mem_of_concat hplain)), findFrom_cons hdirectory,
    enter_of_plain hlast, List.append_assoc]

/-- A clear way is not blocked. -/
theorem Clear.findFrom_ne_blocked (h : t.Clear root names) (hplain : ".." ∉ names) :
    t.findFrom root names ≠ .blocked := by
  induction names generalizing root with
  | nil =>
    rw [findFrom]
    split <;> simp
  | cons name names ih =>
    have hnames : ".." ∉ names := fun hmem => hplain (.tail _ hmem)
    cases hroot : t.get? root with
    | none =>
      rw [findFrom, hroot]
      simp
    | some node =>
      cases node with
      | directory =>
        rw [findFrom_cons hroot, enter_of_plain hplain]
        exact ih h.tail hnames
      | file c => exact absurd (by rw [List.append_nil, hroot]) (h [] List.nil_prefix c)

/-- A clear way that is not open ends where a directory is missing. -/
theorem Clear.findFrom_missing (h : t.Clear root (front ++ [last])) (hnot : ¬ t.Open root front)
    (hplain : ".." ∉ front ++ [last]) : t.findFrom root (front ++ [last]) = .missing := by
  have hopen {q : List String} (hq : (t.findFrom root (front ++ [last])).reaches = some q) : False :=
    hnot (open_of_findFrom (not_mem_of_concat hplain) hq)
  cases hfound : t.findFrom root (front ++ [last]) with
  | missing => rfl
  | blocked => exact absurd hfound (h.findFrom_ne_blocked hplain)
  | directory q => exact (hopen (by rw [hfound]; rfl)).elim
  | file q c => exact (hopen (by rw [hfound]; rfl)).elim
  | vacant q => exact (hopen (by rw [hfound]; rfl)).elim

/-- The second tree has directories along the names, and is otherwise the first. -/
structure Paves (root names : List String) (t t' : Tree) : Prop where
  /-- there are directories all along -/
  opened : t'.Open root names
  /-- elsewhere nothing is changed -/
  kept (q : List String) : (∀ way, way <+: names → q ≠ root ++ way) → t'.get? q = t.get? q

theorem Paves.refl (h : t.Open root names) : Paves root names t t := ⟨h, fun _ _ => rfl⟩

/-- A place behind the names is not on the way. -/
theorem append_concat_ne {way : List String} (hway : way <+: front) :
    root ++ (front ++ [last]) ≠ root ++ way := by
  intro heq
  have hlength := congrArg List.length (List.append_cancel_left heq)
  have hle := hway.length_le
  simp at hlength
  omega

/-- The way to a directory that is put behind an open way. -/
theorem Open.paves_set (h : t.Open root front) :
    Paves root (front ++ [last]) t (t.set (root ++ (front ++ [last])) .directory) where
  opened := by
    intro way hway
    rw [get?_set _ _ _ _ (by simp)]
    rcases List.prefix_concat_iff.1 hway with rfl | hway
    · rw [if_pos rfl]
    · rw [if_neg (append_concat_ne hway)]
      exact h way hway
  kept q hq := by
    rw [get?_set _ _ _ _ (by simp), if_neg]
    exact (hq _ (List.prefix_refl _)).symm

theorem Open.concat (h : t.Open root front) (hlast : t.get? (root ++ (front ++ [last])) = some .directory) :
    t.Open root (front ++ [last]) := by
  intro way hway
  rcases List.prefix_concat_iff.1 hway with rfl | hway
  · exact hlast
  · exact h way hway

/-- The directories along a longer way, made in two steps. -/
theorem Paves.concat {t'' : Tree} (h : Paves root front t t')
    (h' : Paves root (front ++ [last]) t' t'') : Paves root (front ++ [last]) t t'' where
  opened := h'.opened
  kept q hq := by
    rw [h'.kept q hq]
    exact h.kept q fun way hway => hq way (hway.trans (List.prefix_append _ _))

/-- The last step of making directories. -/
theorem exists_makeDir_of_makeDirsFrom {fuel : Nat}
    (h : t.makeDirsFrom here p fuel = (t', none)) :
    ∃ t₁, t.Grows (fun _ => False) t₁ ∧ t₁.makeDir here p = .ok t' := by
  cases fuel with
  | zero =>
    rw [makeDirsFrom] at h
    split at h
    · cases h
      exact ⟨t, .refl _ t, ‹_›⟩
    · cases h
  | succ fuel =>
    rw [makeDirsFrom] at h
    split at h
    · cases h
      exact ⟨t, .refl _ t, ‹_›⟩
    · split at h
      · cases h
      · rename_i t₁ hparents
        have hgrows : t.Grows (fun _ => False) t₁ := by
          have hgrown : t.Grows (fun _ => False) (t.makeDirsFrom here p.parent fuel).1 :=
            grows_makeDirsFrom t p.parent fuel
          rwa [hparents] at hgrown
        split at h
        · cases h
          exact ⟨t₁, hgrows, ‹_›⟩
        · cases h
    · cases h

/-! ## Closed trees -/

/-- There is a directory above everything. -/
def Closed (t : Tree) : Prop :=
  ∀ front last node, t.get? (front ++ [last]) = some node → t.get? front = some .directory

theorem closed_empty : Tree.empty.Closed := by
  intro front last node h
  simp [get?, empty] at h

/-- A tree is closed if each of its nodes is in a directory. -/
theorem closed_of_nodes (h : ∀ e ∈ t.nodes, t.get? e.1.dropLast = some .directory) : t.Closed := by
  intro front last node hget
  rw [get?, if_neg (by simp)] at hget
  have hdirectory := h _ (Entries.mem_of_get? hget)
  rwa [List.dropLast_concat] at hdirectory

/-- In a closed tree the way to everything is open. -/
theorem Closed.open_of_get? {node : Node} (h : t.Closed)
    (hget : t.get? (root ++ (front ++ [last])) = some node) : t.Open root front := by
  induction front using List.reverseRecOn generalizing last node with
  | nil =>
    intro way hway
    obtain rfl := List.prefix_nil.1 hway
    rw [List.append_nil]
    exact h root last node hget
  | append_singleton front name ih =>
    rw [← List.append_assoc] at hget
    have hdirectory := h _ last node hget
    exact (ih hdirectory).concat hdirectory

/-- A tree stays closed when something is put into a directory, in the place of no other directory. -/
theorem Closed.set {node : Node} {place : List String} (h : t.Closed)
    (hparent : t.get? place = some .directory)
    (hfree : t.get? (place ++ [last]) ≠ some .directory ∨ node = .directory) :
    (t.set (place ++ [last]) node).Closed := by
  intro front name node' hget
  rw [get?_set _ _ _ _ (by simp)] at hget ⊢
  split at hget
  · rename_i heq
    obtain ⟨rfl, -⟩ := List.append_inj' heq rfl
    rw [if_neg (by simp), hparent]
  · have hfront := h front name node' hget
    split
    · rename_i heq
      rcases hfree with hfree | rfl
      · rw [heq] at hfree
        exact absurd hfront hfree
      · rfl
    · exact hfront

/-- A free place that a walk ends at is in a directory. -/
theorem Closed.exists_of_vacant {parts q : List String} (h : t.Closed)
    (hvacant : t.find parts = .vacant q) :
    ∃ place last, q = place ++ [last] ∧ t.get? place = some .directory := by
  have hnone := get?_of_findFrom_vacant hvacant
  rcases List.eq_nil_or_concat parts with rfl | ⟨front, last, rfl⟩
  · rw [find, findFrom_nil_directory (by rfl)] at hvacant
    cases hvacant
  · rw [List.concat_eq_append] at hvacant
    obtain ⟨d, -, hdirectory, hq⟩ := exists_of_find_concat (by rw [hvacant]; rfl)
    rw [enter] at hq
    split at hq
    · -- above a directory there is no free place
      rcases List.eq_nil_or_concat d with rfl | ⟨above, name, rfl⟩
      · subst hq
        cases hnone
      · rw [List.concat_eq_append] at hdirectory hq
        have habove := h above name _ hdirectory
        rw [List.dropLast_concat] at hq
        rw [hq, hnone] at habove
        cases habove
    · exact ⟨d, last, hq.symm, hdirectory⟩

theorem Closed.makeDir (h : t.Closed) (hmake : t.makeDir here p = .ok t') : t'.Closed := by
  rw [Tree.makeDir] at hmake
  split at hmake
  · cases hmake
  · split at hmake
    · rename_i q hfind
      obtain ⟨place, last, rfl, hplace⟩ := h.exists_of_vacant hfind
      cases hmake
      exact h.set hplace (.inr rfl)
    · cases hmake
      exact h
    all_goals cases hmake

theorem Closed.makeDirsFrom (h : t.Closed) (p : Path) (fuel : Nat) :
    (t.makeDirsFrom here p fuel).1.Closed := by
  induction fuel generalizing t p with
  | zero =>
    rw [Tree.makeDirsFrom]
    split
    · exact h.makeDir ‹_›
    · exact h
  | succ fuel ih =>
    rw [Tree.makeDirsFrom]
    split
    · exact h.makeDir ‹_›
    · have hparents := ih h p.parent
      split
      · rename_i hp
        rwa [hp] at hparents
      · rename_i hp
        rw [hp] at hparents
        split
        · exact hparents.makeDir ‹_›
        · exact hparents
    · exact h

theorem Closed.writeFile {c : ByteArray} (h : t.Closed) (hwrite : t.writeFile here p c = .ok t') :
    t'.Closed := by
  rw [Tree.writeFile] at hwrite
  split at hwrite
  · cases hwrite
  · split at hwrite
    · rename_i q hfind
      have hnone := get?_of_findFrom_vacant hfind
      obtain ⟨place, last, rfl, hplace⟩ := h.exists_of_vacant hfind
      cases hwrite
      exact h.set hplace (.inl (by simp [hnone]))
    · rename_i q old hfind
      have hold := get?_of_findFrom_file hfind
      rcases List.eq_nil_or_concat q with rfl | ⟨place, last, rfl⟩
      · cases hold
      · rw [List.concat_eq_append] at hold hwrite
        cases hwrite
        exact h.set (h place last _ hold) (.inl (by simp [hold]))
    all_goals cases hwrite

end Scaffold.Tree
