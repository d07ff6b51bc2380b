import Scaffold.Feature
import Scaffold.Proofs.Disk.Frame
import Scaffold.Proofs.Tree.Ways

/-!
# Files below a directory

Where the path of a project leads to a directory, a file below it has a place of its own: the place of
the directory and the file's names. What a write does is then said by what stands at places.

* **A write succeeds** if and only if no file stands on the way and no directory at the end.
* **What it leaves** is the text in its place, directories on the way, and everything else as it was.
* **What is read** below the directory is what stands at the place, in a closed tree.
-/

namespace Scaffold

open Run Feature

/-- The path of a project leads to a directory. -/
def LeadsTo (project : Path) (root : List String) (s : Session) : Prop :=
  s.tree.find (project.absolute s.here) = .directory root

/-- The places of the files with the listed names below a directory. -/
def placesOf (root : List String) (L : List (List String)) : List (List String) := L.map (root ++ ·)

/-- The second session has the files of the first, except for those at the listed places. -/
structure FrameAt (places : List (List String)) (s t : Session) : Prop where
  /-- the working directory is the same -/
  here : t.here = s.here
  /-- the tree has grown -/
  tree : s.tree.Grows (· ∈ places) t.tree

variable {project : Path} {root names front here : List String} {last : String}
  {s t u : Session} {tree tree' : Tree} {places : List (List String)}

theorem FrameAt.refl (places : List (List String)) (s : Session) : FrameAt places s s :=
  ⟨rfl, .refl _ _⟩

theorem FrameAt.trans (h : FrameAt places s t) (h' : FrameAt places t u) : FrameAt places s u :=
  ⟨h'.here.trans h.here, h.tree.trans h'.tree⟩

theorem LeadsTo.of_grows {W : List String → Prop} (h : LeadsTo project root s)
    (hhere : t.here = s.here) (htree : s.tree.Grows W t.tree) : LeadsTo project root t := by
  rw [LeadsTo, hhere]
  exact Tree.find_directory_of_grows htree h

namespace Feature

theorem absolute_below (here : List String) (project : Path) (names : List String) :
    (below project names).absolute here = project.absolute here ++ names := by
  rw [Path.absolute, Path.absolute, below]
  cases project.anchor <;> simp

theorem parent_below (project : Path) (front : List String) (last : String) :
    (below project (front ++ [last])).parent = below project front := by
  rw [Path.parent, below, below, ← List.append_assoc, List.dropLast_concat]

theorem holdsNull_below (project : Path) (names : List String) :
    (below project names).holdsNull =
      (project.holdsNull || names.any (·.toList.contains '\x00')) := by
  simp [below, Path.holdsNull]

theorem holdsNull_front (h : (below project (front ++ [last])).holdsNull = false) :
    (below project front).holdsNull = false := by
  rw [← parent_below project front last]
  exact Path.holdsNull_parent h

theorem parts_below_ne_nil (hplain : Plain names) : (below project names).parts ≠ [] := by
  simp [below, hplain.1]

theorem find_below (hroot : tree.find (project.absolute here) = .directory root)
    (names : List String) :
    tree.find ((below project names).absolute here) = tree.findFrom root names := by
  rw [absolute_below]
  exact Tree.findFrom_append hroot

end Feature

namespace Disk

/-! ## Making directories -/

/-- One directory is made behind an open way, unless it is there. -/
theorem makeDir_below (hroot : tree.find (project.absolute here) = .directory root)
    (hplain : ".." ∉ front ++ [last]) (hnull : (below project (front ++ [last])).holdsNull = false)
    (hopen : tree.Open root front) (hclear : tree.Clear root (front ++ [last])) :
    ∃ tree', tree.makeDir here (below project (front ++ [last])) = .ok tree' ∧
      tree.Paves root (front ++ [last]) tree' := by
  have hfind := (find_below hroot (front ++ [last])).trans (hopen.findFrom_concat hplain)
  rw [Tree.makeDir, if_neg (by simp [hnull]), hfind, Tree.findFrom]
  cases hget : tree.get? (root ++ (front ++ [last])) with
  | none => exact ⟨_, rfl, hopen.paves_set⟩
  | some node =>
    cases node with
    | directory => exact ⟨tree, rfl, .refl (hopen.concat hget)⟩
    | file c => exact absurd hget (hclear _ (List.prefix_refl _) c)

theorem makeDir_below_missing (hroot : tree.find (project.absolute here) = .directory root)
    (hplain : ".." ∉ front ++ [last]) (hnull : (below project (front ++ [last])).holdsNull = false)
    (hnot : ¬ tree.Open root front) (hclear : tree.Clear root (front ++ [last])) :
    tree.makeDir here (below project (front ++ [last])) = .error .missing := by
  have hfind := (find_below hroot (front ++ [last])).trans (hclear.findFrom_missing hnot hplain)
  rw [Tree.makeDir, if_neg (by simp [hnull]), hfind]

/-- The directories along a clear way are made. -/
theorem makeDirsFrom_below (hroot : tree.find (project.absolute here) = .directory root)
    (hplain : ".." ∉ names) (hnull : (below project names).holdsNull = false)
    (hclear : tree.Clear root names) {fuel : Nat} (hfuel : names.length ≤ fuel) :
    ∃ tree', tree.makeDirsFrom here (below project names) fuel = (tree', none) ∧
      tree.Paves root names tree' := by
  induction names using List.reverseRecOn generalizing fuel with
  | nil =>
    have hfind := (find_below hroot []).trans
      (Tree.findFrom_nil_directory (Tree.get?_of_findFrom_directory_end hroot))
    have hmake : tree.makeDir here (below project []) = .ok tree := by
      rw [Tree.makeDir, if_neg (by simp [hnull]), hfind]
    refine ⟨tree, ?_, .refl fun way hway => ?_⟩
    · cases fuel <;> rw [Tree.makeDirsFrom, hmake]
    · obtain rfl := List.prefix_nil.1 hway
      rw [List.append_nil]
      exact Tree.get?_of_findFrom_directory_end hroot
  | append_singleton front last ih =>
    obtain ⟨fuel, rfl⟩ : ∃ k, fuel = k + 1 := ⟨fuel - 1, by simp at hfuel; omega⟩
    rw [Tree.makeDirsFrom]
    by_cases hopen : tree.Open root front
    · obtain ⟨tree', hmake, hpaves⟩ := makeDir_below hroot hplain hnull hopen hclear
      rw [hmake]
      exact ⟨tree', rfl, hpaves⟩
    · -- the directories on the way are made first
      obtain ⟨tree₁, hparents, hpaves₁⟩ := ih (Tree.not_mem_of_concat hplain) (holdsNull_front hnull)
        hclear.of_concat (show front.length ≤ fuel by simpa using hfuel)
      have hgrows : tree.Grows (fun _ => False) tree₁ := by
        have hgrown : tree.Grows (fun _ => False)
            (tree.makeDirsFrom here (below project front) fuel).1 :=
          Tree.grows_makeDirsFrom tree _ fuel
        rwa [hparents] at hgrown
      obtain ⟨tree', hmake, hpaves⟩ := makeDir_below (Tree.find_directory_of_grows hgrows hroot)
        hplain hnull hpaves₁.opened (hclear.grows hgrows)
      rw [makeDir_below_missing hroot hplain hnull hopen hclear, parent_below]
      simp only [hparents, hmake]
      exact ⟨tree', rfl, hpaves₁.concat hpaves⟩

/-- Where a directory can be made, there is no file on the way. -/
theorem clear_of_makeDir_below (hroot : tree.find (project.absolute here) = .directory root)
    (hplain : ".." ∉ names)
    (h : tree.makeDir here (below project names) = .ok tree') : tree.Clear root names := by
  rcases List.eq_nil_or_concat names with rfl | ⟨front, last, rfl⟩
  · intro way hway c
    obtain rfl := List.prefix_nil.1 hway
    rw [List.append_nil, Tree.get?_of_findFrom_directory_end hroot]
    exact nofun
  rw [List.concat_eq_append] at hplain h ⊢
  have hfind : tree.find ((below project (front ++ [last])).absolute here) = _ :=
    find_below hroot _
  have hreaches : ∃ q, (tree.findFrom root (front ++ [last])).reaches = some q := by
    rw [← hfind]
    rw [Tree.makeDir] at h
    split at h
    · cases h
    · split at h
      · rename_i q hq
        exact ⟨q, by rw [hq]; rfl⟩
      · rename_i q hq
        exact ⟨q, by rw [hq]; rfl⟩
      all_goals cases h
  obtain ⟨q, hq⟩ := hreaches
  have hopen := Tree.open_of_findFrom (Tree.not_mem_of_concat hplain) hq
  refine hopen.clear.concat fun c hfile => ?_
  have hend := hopen.findFrom_concat hplain
  rw [Tree.findFrom, hfile] at hend
  rw [Tree.makeDir, hfind, hend] at h
  split at h <;> cases h

/-- Where directories have been made, there was no file on the way. -/
theorem clear_of_makeDirs_below (hroot : tree.find (project.absolute here) = .directory root)
    (hplain : ".." ∉ names) (h : tree.makeDirs here (below project names) = (tree', none)) :
    tree.Clear root names := by
  obtain ⟨tree₁, hgrows, hmake⟩ := Tree.exists_makeDir_of_makeDirsFrom h
  exact (clear_of_makeDir_below (Tree.find_directory_of_grows hgrows hroot) hplain hmake).of_grows
    hgrows

/-! ## Writing -/

/-- Nothing is in the way of a file. -/
structure Writable (project : Path) (root names : List String) (s : Session) : Prop where
  /-- the path holds no null character -/
  null : (below project names).holdsNull = false
  /-- no file stands on the way -/
  clear : s.tree.Clear root names.dropLast
  /-- no directory stands at the end -/
  free : s.tree.get? (root ++ names) ≠ some .directory

/-- What a write leaves. -/
structure Wrote (root names : List String) (c : ByteArray) (s t : Session) : Prop where
  /-- the working directory is the same -/
  here : t.here = s.here
  /-- the bytes are in their place -/
  file : t.tree.get? (root ++ names) = some (.file c)
  /-- there are directories on the way -/
  opened : t.tree.Open root names.dropLast
  /-- elsewhere nothing is changed -/
  kept (q : List String) : q ≠ root ++ names → (∀ way, way <+: names.dropLast → q ≠ root ++ way) →
    t.tree.get? q = s.tree.get? q

theorem writeFile_below {c : ByteArray} (hroot : tree.find (project.absolute here) = .directory root)
    (hplain : ".." ∉ front ++ [last]) (hnull : (below project (front ++ [last])).holdsNull = false)
    (hopen : tree.Open root front)
    (hfree : tree.get? (root ++ (front ++ [last])) ≠ some .directory) :
    tree.writeFile here (below project (front ++ [last])) c =
      .ok (tree.set (root ++ (front ++ [last])) (.file c)) := by
  have hfind := (find_below hroot (front ++ [last])).trans (hopen.findFrom_concat hplain)
  rw [Tree.writeFile, if_neg (by simp [hnull]), hfind, Tree.findFrom]
  cases hget : tree.get? (root ++ (front ++ [last])) with
  | none => rfl
  | some node =>
    cases node with
    | directory => exact absurd hget hfree
    | file => rfl

theorem free_of_writeFile_below {c : ByteArray}
    (hroot : tree.find (project.absolute here) = .directory root) (hplain : ".." ∉ front ++ [last])
    (hopen : tree.Open root front)
    (h : tree.writeFile here (below project (front ++ [last])) c = .ok tree') :
    tree.get? (root ++ (front ++ [last])) ≠ some .directory := by
  intro hget
  have hfind := (find_below hroot (front ++ [last])).trans (hopen.findFrom_concat hplain)
  rw [Tree.findFrom, hget] at hfind
  rw [Tree.writeFile, hfind] at h
  split at h <;> cases h

/-- What making the directories and putting the file has left. -/
theorem wrote_set {c : ByteArray} {u : Session} (hhere : u.here = s.here)
    (hpaves : s.tree.Paves root front u.tree) :
    Wrote root (front ++ [last]) c s
      { u with tree := u.tree.set (root ++ (front ++ [last])) (.file c) } where
  here := hhere
  file := by
    change (Tree.set _ _ _).get? _ = _
    rw [Tree.get?_set _ _ _ _ (by simp), if_pos rfl]
  opened way hway := by
    change (Tree.set _ _ _).get? _ = _
    rw [List.dropLast_concat] at hway
    rw [Tree.get?_set _ _ _ _ (by simp), if_neg (Tree.append_concat_ne hway)]
    exact hpaves.opened way hway
  kept q hq hways := by
    change (Tree.set _ _ _).get? _ = _
    rw [List.dropLast_concat] at hways
    rw [Tree.get?_set _ _ _ _ (by simp), if_neg hq.symm]
    exact hpaves.kept q hways

theorem makeDirs_below (hroot : tree.find (project.absolute here) = .directory root)
    (hplain : ".." ∉ names) (hnull : (below project names).holdsNull = false)
    (hclear : tree.Clear root names) :
    ∃ tree', tree.makeDirs here (below project names) = (tree', none) ∧
      tree.Paves root names tree' ∧ tree'.find (project.absolute here) = .directory root := by
  obtain ⟨tree', hmake, hpaves⟩ := makeDirsFrom_below hroot hplain hnull hclear
    (show names.length ≤ (below project names).parts.length by simp [below])
  have hgrows : tree.Grows (fun _ => False) (tree.makeDirs here (below project names)).1 :=
    Tree.grows_makeDirs tree _
  rw [Tree.makeDirs, hmake] at hgrows
  exact ⟨tree', hmake, hpaves, Tree.find_directory_of_grows hgrows hroot⟩

/-- **A write with nothing in its way succeeds.** -/
theorem Writable.exists_perform_write (h : Writable project root names s)
    (hroot : LeadsTo project root s) (hplain : Plain names) (text : String) :
    ∃ t, (write (below project names) text).perform s = (.ok (), t) := by
  obtain ⟨front, last, rfl⟩ := (List.eq_nil_or_concat names).resolve_left hplain.1
  obtain ⟨hnull, hclear, hfree⟩ := h
  rw [List.concat_eq_append] at hplain hnull hclear hfree ⊢
  rw [List.dropLast_concat] at hclear
  obtain ⟨tree₁, hmake, hpaves, hroot₁⟩ :=
    makeDirs_below hroot (Tree.not_mem_of_concat hplain.2) (holdsNull_front hnull) hclear
  have hparents : (makeParents (below project (front ++ [last]))).perform s =
      (.ok (), { s with tree := tree₁ }) := by
    rw [perform_makeParents, parent_below, hmake]
  rw [write_eq, perform_bind_of_ok hparents]
  refine ⟨_, perform_put_ok (writeFile_below hroot₁ hplain.2 hnull hpaves.opened ?_)⟩
  rw [hpaves.kept _ fun way hway => Tree.append_concat_ne hway]
  exact hfree

/-- **What a write did that succeeded**, and what was there before. -/
theorem wrote_of_write {text : String} (hroot : LeadsTo project root s) (hplain : Plain names)
    (h : (write (below project names) text).perform s = (.ok (), t)) :
    Writable project root names s ∧ Wrote root names text.toUTF8 s t := by
  obtain ⟨front, last, rfl⟩ := (List.eq_nil_or_concat names).resolve_left hplain.1
  rw [List.concat_eq_append] at hplain h ⊢
  rw [write_eq, perform_bind_ok] at h
  obtain ⟨_, u, hparents, hput⟩ := h
  rw [perform_makeParents, parent_below] at hparents
  rcases hmake : s.tree.makeDirs s.here (below project front) with ⟨tree₁, _ | ⟨problem, p⟩⟩ <;>
    rw [hmake] at hparents <;> cases hparents
  obtain ⟨tree₂, hw, rfl⟩ := perform_put_iff.1 hput
  have hclear := clear_of_makeDirs_below hroot (Tree.not_mem_of_concat hplain.2) hmake
  have hnull := (Tree.find_of_writeFile hw).1
  obtain ⟨tree', hmake', hpaves, hroot₁⟩ :=
    makeDirs_below hroot (Tree.not_mem_of_concat hplain.2) (holdsNull_front hnull) hclear
  obtain rfl : tree' = tree₁ := congrArg Prod.fst (hmake'.symm.trans hmake)
  have hfree := free_of_writeFile_below hroot₁ hplain.2 hpaves.opened hw
  cases hw.symm.trans
    (writeFile_below (c := text.toUTF8) hroot₁ hplain.2 hnull hpaves.opened hfree)
  rw [hpaves.kept _ fun way hway => Tree.append_concat_ne hway] at hfree
  refine ⟨⟨hnull, ?_, hfree⟩, wrote_set rfl hpaves⟩
  rw [List.dropLast_concat]
  exact hclear

/-- Whatever becomes of a write, it touches no other file. -/
theorem frameAt_write (hroot : LeadsTo project root s) (hplain : Plain names)
    (hmem : root ++ names ∈ places) (text : String) :
    FrameAt places s ((write (below project names) text).perform s).2 := by
  have hparents : FrameAt places s ((makeParents (below project names)).perform s).2 := by
    have hgrows : s.tree.Grows (· ∈ places)
        (s.tree.makeDirs s.here (below project names).parent).1 := Tree.grows_makeDirs s.tree _
    rw [perform_makeParents]
    rcases h : s.tree.makeDirs s.here (below project names).parent with ⟨tree, _ | ⟨problem, p⟩⟩ <;>
      rw [h] at hgrows <;> exact ⟨rfl, hgrows⟩
  rw [write_eq, perform_bind]
  rcases hmake : (makeParents (below project names)).perform s with ⟨_ | _, u⟩ <;>
    rw [hmake] at hparents
  · exact hparents
  · refine hparents.trans ?_
    have hroot' := hroot.of_grows hparents.here hparents.tree
    change FrameAt places u ((put (below project names) text).perform u).2
    rcases put_cases (below project names) text u with
      ⟨tree, hw, hput⟩ | ⟨problem, -, hput⟩ <;> rw [hput]
    · refine ⟨rfl, Tree.grows_writeFile hw fun q hq => ?_⟩
      rw [find_below hroot'] at hq
      rw [Tree.reaches_eq_append hplain.2 hq]
      exact hmem
    · exact .refl places u

/-- Writing keeps a tree closed, even when it fails. -/
theorem closed_write (p : Path) (text : String) :
    Maintains (fun s => s.tree.Closed) (write p text) := by
  refine Maintains.bind ?_ fun _ => ?_
  · intro s hs
    have hmade : (s.tree.makeDirs s.here p.parent).1.Closed := hs.makeDirsFrom _ _
    rw [perform_makeParents]
    rcases h : s.tree.makeDirs s.here p.parent with ⟨tree, _ | ⟨problem, q⟩⟩ <;>
      rw [h] at hmade <;> exact hmade
  · intro s hs
    change (((put p text).perform s).2.tree).Closed
    rcases put_cases p text s with ⟨tree, hw, hput⟩ | ⟨problem, -, hput⟩ <;> rw [hput]
    · exact hs.writeFile hw
    · exact hs

/-! ## Reading -/

/-- In a closed tree the bytes of a file are those that stand at its place. -/
theorem readFile?_below (hroot : LeadsTo project root s) (hclosed : s.tree.Closed)
    (hplain : Plain names) {c : ByteArray} :
    s.tree.readFile? s.here (below project names) = some c ↔
      s.tree.get? (root ++ names) = some (.file c) := by
  obtain ⟨front, last, rfl⟩ := (List.eq_nil_or_concat names).resolve_left hplain.1
  rw [List.concat_eq_append] at hplain ⊢
  constructor
  · intro h
    obtain ⟨q, hq⟩ := find_of_readFile? h
    rw [find_below hroot] at hq
    have hplace : q = root ++ (front ++ [last]) :=
      Tree.reaches_eq_append hplain.2 (by rw [hq]; rfl)
    rw [← hplace]
    exact Tree.get?_of_findFrom_file hq
  · intro h
    have hopen := hclosed.open_of_get? h
    apply readFile?_of_find (q := root ++ (front ++ [last]))
    rw [find_below hroot, hopen.findFrom_concat hplain.2, Tree.findFrom, h]

end Disk

end Scaffold
