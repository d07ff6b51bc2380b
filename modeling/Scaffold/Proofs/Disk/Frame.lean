import Scaffold.Template.Source
import Scaffold.Proofs.Run.Calculus

/-!
# What reading and writing do to a session

One lemma for each operation on files: the place that it touches, what it leaves there, and when it
has nothing left to do.

* **Names below a path** decide where a write goes: `Plain` names are those that a walk cannot leave
  again, so the place of the file ends in them whatever stands before.
* **Lists apart.** A file whose names are `Apart` from a list is not among the files that the list
  may touch, so it is read as before (`readFile?_of_frame`).
* **A written text is held**, and a text that is held need not be written again
  (`holds_of_write`, `Holds.stays`).
-/

namespace Scaffold

/-! ## Names of files -/

/-- Names that lead further down at each step. -/
def Plain (names : List String) : Prop := names ≠ [] ∧ ".." ∉ names

instance (names : List String) : Decidable (Plain names) := inferInstanceAs (Decidable (_ ∧ _))

/-- No listed sequence of names can be at the end of a place that ends in `names`. -/
def Apart (L : List (List String)) (names : List String) : Prop :=
  ∀ other ∈ L, ¬ other <:+ names ∧ ¬ names <:+ other

instance (L : List (List String)) (names : List String) : Decidable (Apart L names) :=
  inferInstanceAs (Decidable (∀ other ∈ L, _))

variable {L : List (List String)} {names place : List String} {s t : Session} {p : Path}

theorem Apart.not_endsIn (h : Apart L names) (hplace : names <:+ place) : ¬ EndsIn L place := by
  rintro ⟨other, hmem, hother⟩
  rcases List.suffix_or_suffix_of_suffix hother hplace with hsuffix | hsuffix
  · exact (h other hmem).1 hsuffix
  · exact (h other hmem).2 hsuffix

theorem apart_nil (names : List String) : Apart [] names := nofun

namespace Path

theorem suffix_absolute (here : List String) (h : names <:+ p.parts) :
    names <:+ p.absolute here := by
  unfold absolute
  split
  · exact h.trans (List.suffix_append _ _)
  · exact h

/-- The names on the way to a path are those to its parent and the last one. -/
theorem absolute_eq_parent (here : List String) (h : p.parts ≠ []) :
    ∃ last, p.absolute here = p.parent.absolute here ++ [last] := by
  obtain ⟨front, last, hparts⟩ := List.eq_nil_or_concat p.parts |>.resolve_left h
  rw [List.concat_eq_append] at hparts
  refine ⟨last, ?_⟩
  unfold absolute parent
  cases p.anchor <;> simp [hparts]

theorem holdsNull_parent (h : p.holdsNull = false) : p.parent.holdsNull = false := by
  simp only [holdsNull, parent, List.any_eq_false] at h ⊢
  exact fun part hpart => h part (List.dropLast_subset _ hpart)

end Path

/-! ## Reading -/

theorem find_of_readFile? {t : Tree} {here : List String} {c : ByteArray}
    (h : t.readFile? here p = some c) : ∃ q, t.find (p.absolute here) = .file q c := by
  unfold Tree.readFile? at h
  split at h
  · rename_i q content hfind
    cases h
    exact ⟨q, hfind⟩
  · cases h

theorem readFile?_of_find {t : Tree} {here q : List String} {c : ByteArray}
    (h : t.find (p.absolute here) = .file q c) : t.readFile? here p = some c := by
  simp [Tree.readFile?, h]

/-- A file whose names are apart from the list is read as before. -/
theorem readFile?_of_frame {c : ByteArray} (hframe : Frame L s t) (hplain : Plain names)
    (hp : names <:+ p.parts) (hapart : Apart L names)
    (h : s.tree.readFile? s.here p = some c) : t.tree.readFile? t.here p = some c := by
  obtain ⟨q, hq⟩ := find_of_readFile? h
  obtain ⟨front, hfront⟩ := Path.suffix_absolute s.here hp
  have hsuffix : names <:+ q :=
    Tree.suffix_of_reaches hplain.2 hplain.1
      (show (s.tree.find (front ++ names)).reaches = some q by rw [hfront, hq]; rfl)
  rw [hframe.here]
  exact readFile?_of_find (Tree.find_file_of_grows hframe.tree (hapart.not_endsIn hsuffix) hq)

theorem isDirectory_of_frame (hframe : Frame L s t) (h : s.tree.isDirectory s.here p = true) :
    t.tree.isDirectory t.here p = true := by
  unfold Tree.isDirectory at h ⊢
  split at h
  · rename_i q hq
    rw [hframe.here, Tree.find_directory_of_grows hframe.tree hq]
  · cases h

namespace Disk

open Run

@[simp]
theorem perform_bytes? (p : Path) (s : Session) :
    (bytes? p).perform s = (.ok (s.tree.readFile? s.here p), s) := rfl

theorem quiet_bytes? (p : Path) : Quiet (bytes? p) :=
  ⟨fun _ => rfl, fun h => by simp [h.tree, h.here]⟩

theorem quiet_isDirectory (p : Path) : Quiet (isDirectory p) where
  still _ := rfl
  blind {s t} h := by
    change Except.ok (t.tree.isDirectory t.here p) = Except.ok (s.tree.isDirectory s.here p)
    rw [h.tree, h.here]

theorem quiet_require (p : Path) (feature : Option String) : Quiet (require p feature) := by
  refine (quiet_bytes? p).bind fun bytes => ?_
  cases bytes with
  | none => exact Quiet.failWith _
  | some bytes => exact Quiet.orFail _ _

theorem quiet_requireJson (p : Path) (feature : Option String) : Quiet (requireJson p feature) :=
  (quiet_require p feature).bind fun _ => Quiet.orFail _ _

/-- A text is read exactly if the path leads to a file that holds it. -/
theorem perform_require_ok {feature : Option String} {text : String} :
    (require p feature).perform s = (.ok text, t) ↔
      t = s ∧ ∃ c, s.tree.readFile? s.here p = some c ∧ textOf c = .ok text := by
  rw [require, perform_bind, perform_bytes?]
  cases s.tree.readFile? s.here p with
  | none => simp
  | some c => cases h : textOf c <;> simp [h, eq_comm, and_comm]

/-- The same text is read as long as the bytes are the same. -/
theorem stays_require {feature : Option String} {c : ByteArray} {text : String}
    (h : s.tree.readFile? s.here p = some c) (htext : textOf c = .ok text) :
    Stays (require p feature) text s :=
  (quiet_require p feature).stays (by rw [perform_require_ok.2 ⟨rfl, c, h, htext⟩])

/-! ## Writing -/

theorem perform_makeParents (p : Path) (s : Session) :
    (makeParents p).perform s =
      match s.tree.makeDirs s.here p.parent with
      | (tree, none) => (.ok (), { s with tree := tree })
      | (tree, some (problem, path)) => (.error (.storage problem path), { s with tree := tree }) := by
  rw [makeParents, perform_bind_of_ok (perform_get s)]
  rcases s.tree.makeDirs s.here p.parent with ⟨tree, _ | ⟨problem, path⟩⟩ <;> rfl

theorem within_makeParents (p : Path) : Within L (makeParents p) where
  frame s := by
    have hgrows : s.tree.Grows (EndsIn L) (s.tree.makeDirs s.here p.parent).1 :=
      Tree.grows_makeDirs s.tree p.parent
    rw [perform_makeParents]
    rcases h : s.tree.makeDirs s.here p.parent with ⟨tree, _ | ⟨problem, path⟩⟩ <;>
      rw [h] at hgrows <;> exact ⟨rfl, hgrows⟩
  blind {s t} hst := by
    rw [perform_makeParents, perform_makeParents, hst.tree, hst.here]
    rcases s.tree.makeDirs s.here p.parent with ⟨tree, _ | ⟨problem, path⟩⟩
    · exact ⟨rfl, rfl, rfl⟩
    · exact ⟨rfl, rfl, rfl⟩

/-- The second half of a write: the bytes go into the file. -/
def put (p : Path) (text : String) : Run Unit := do
  let s ← get
  match s.tree.writeFile s.here p text.toUTF8 with
  | .ok tree => set { s with tree := tree }
  | .error problem => failWith (.storage problem p)

theorem write_eq (p : Path) (text : String) :
    write p text = (makeParents p >>= fun _ => put p text) := rfl

theorem perform_put_ok {tree : Tree} {text : String}
    (h : s.tree.writeFile s.here p text.toUTF8 = .ok tree) :
    (put p text).perform s = (.ok (), { s with tree := tree }) := by
  rw [put, perform_bind_of_ok (perform_get s), h]
  rfl

theorem perform_put_error {problem : Tree.Problem} {text : String}
    (h : s.tree.writeFile s.here p text.toUTF8 = .error problem) :
    (put p text).perform s = (.error (.storage problem p), s) := by
  rw [put, perform_bind_of_ok (perform_get s), h]
  rfl

/-- The bytes are put into the tree, or nothing is done. -/
theorem put_cases (p : Path) (text : String) (s : Session) :
    (∃ tree, s.tree.writeFile s.here p text.toUTF8 = .ok tree ∧
      (put p text).perform s = (.ok (), { s with tree := tree })) ∨
    ∃ problem, s.tree.writeFile s.here p text.toUTF8 = .error problem ∧
      (put p text).perform s = (.error (.storage problem p), s) := by
  cases hw : s.tree.writeFile s.here p text.toUTF8 with
  | ok tree => exact .inl ⟨tree, rfl, perform_put_ok hw⟩
  | error problem => exact .inr ⟨problem, rfl, perform_put_error hw⟩

theorem perform_put_iff {text : String} : (put p text).perform s = (.ok (), t) ↔
    ∃ tree, s.tree.writeFile s.here p text.toUTF8 = .ok tree ∧ t = { s with tree := tree } := by
  constructor
  · intro h
    rcases put_cases p text s with ⟨tree, hw, hput⟩ | ⟨problem, -, hput⟩ <;>
      cases hput.symm.trans h
    exact ⟨tree, hw, rfl⟩
  · rintro ⟨tree, hw, rfl⟩
    exact perform_put_ok hw

theorem within_put (hplain : Plain names) (hp : names <:+ p.parts) (hmem : names ∈ L)
    (text : String) : Within L (put p text) where
  frame s := by
    rcases put_cases p text s with ⟨tree, hw, hput⟩ | ⟨problem, -, hput⟩ <;> rw [hput]
    · refine ⟨rfl, Tree.grows_writeFile hw fun q hq => ⟨names, hmem, ?_⟩⟩
      obtain ⟨front, hfront⟩ := Path.suffix_absolute s.here hp
      exact Tree.suffix_of_reaches hplain.2 hplain.1 (hfront.symm ▸ hq)
    · exact Frame.refl L s
  blind {s t} hst := by
    have heq : t.tree.writeFile t.here p text.toUTF8 = s.tree.writeFile s.here p text.toUTF8 := by
      rw [hst.tree, hst.here]
    rcases put_cases p text s with ⟨tree, hw, hput⟩ | ⟨problem, hw, hput⟩ <;> rw [hput]
    · rw [perform_put_ok (heq.trans hw)]
      exact ⟨rfl, rfl, hst.here⟩
    · rw [perform_put_error (heq.trans hw)]
      exact ⟨rfl, hst⟩

/-- A write touches only the file that its path names. -/
theorem within_write (hplain : Plain names) (hp : names <:+ p.parts) (hmem : names ∈ L)
    (text : String) : Within L (write p text) :=
  (within_makeParents p).bind fun _ => within_put hplain hp hmem text

/-- Every failure of a write is one of the files. -/
theorem failsWith_write (p : Path) (text : String) :
    FailsWith (fun e => ∃ problem q, e = .storage problem q) (write p text) := by
  rw [write_eq]
  refine .bind (fun s e he => ?_) fun _ s e he => ?_
  · rw [perform_makeParents] at he
    rcases hmake : s.tree.makeDirs s.here p.parent with ⟨tree, _ | ⟨problem, q⟩⟩ <;>
      rw [hmake] at he <;> cases he
    exact ⟨problem, q, rfl⟩
  · rcases put_cases p text s with ⟨tree, -, hput⟩ | ⟨problem, -, hput⟩ <;>
      rw [hput] at he <;> cases he
    exact ⟨problem, p, rfl⟩

/-! ## Writing a string -/

/-- A text is written. Any other string empties the file, and then fails. -/
theorem writeString_cases (p : Path) (w : Wide) :
    (∃ text, w = .text text ∧ writeString p w = write p text) ∨
      ∃ halves, w.asText = .error halves ∧
        writeString p w = (write p "" >>= fun _ => failWith (.unencodable halves)) := by
  cases w with
  | text text => exact .inl ⟨text, rfl, rfl⟩
  | half before u after => exact .inr ⟨_, rfl, rfl⟩

/-- Only texts are written. -/
theorem perform_writeString_ok {w : Wide} : (writeString p w).perform s = (.ok (), t) ↔
    ∃ text, w = .text text ∧ (write p text).perform s = (.ok (), t) := by
  rcases writeString_cases p w with ⟨text, rfl, hwrite⟩ | ⟨halves, herror, hwrite⟩
  · rw [hwrite]
    exact ⟨fun h => ⟨text, rfl, h⟩, fun ⟨_, rfl, h⟩ => h⟩
  · rw [hwrite, perform_bind_ok]
    constructor
    · rintro ⟨_, u, -, h⟩
      cases h
    · rintro ⟨text, rfl, -⟩
      cases herror

/-- A string that is no text leaves its file empty, unless the file cannot even be emptied. -/
theorem perform_writeString_error {w : Wide} {e : Failure} :
    (writeString p w).perform s = (.error e, t) ↔
      (∃ text, w = .text text ∧ (write p text).perform s = (.error e, t)) ∨
      ∃ halves, w.asText = .error halves ∧
        ((write p "").perform s = (.error e, t) ∨
          (write p "").perform s = (.ok (), t) ∧ e = .unencodable halves) := by
  rcases writeString_cases p w with ⟨text, rfl, hwrite⟩ | ⟨halves, herror, hwrite⟩
  · rw [hwrite]
    constructor
    · exact fun h => .inl ⟨text, rfl, h⟩
    · rintro (⟨_, heq, h⟩ | ⟨_, h, -⟩)
      · cases heq
        exact h
      · cases h
  · rw [hwrite, perform_bind_error]
    constructor
    · rintro (h | ⟨_, u, hu, h⟩)
      · exact .inr ⟨halves, herror, .inl h⟩
      · cases h
        exact .inr ⟨halves, herror, .inr ⟨hu, rfl⟩⟩
    · rintro (⟨_, rfl, -⟩ | ⟨halves', herror', h | ⟨hu, rfl⟩⟩)
      · cases herror
      · exact .inl h
      · cases herror.symm.trans herror'
        exact .inr ⟨(), t, hu, rfl⟩

theorem within_writeString (hplain : Plain names) (hp : names <:+ p.parts) (hmem : names ∈ L)
    (w : Wide) : Within L (writeString p w) := by
  rcases writeString_cases p w with ⟨text, -, hwrite⟩ | ⟨halves, -, hwrite⟩ <;> rw [hwrite]
  · exact within_write hplain hp hmem text
  · exact (within_write hplain hp hmem "").bind fun _ => (Quiet.failWith _).within

/-! ## What is held -/

/-- The path leads to a file that holds the text, and can be written. -/
structure Holds (p : Path) (text : String) (s : Session) : Prop where
  /-- the path has a last name -/
  parts : p.parts ≠ []
  /-- the path holds no null character -/
  null : p.holdsNull = false
  /-- the bytes of the file are those of the text -/
  bytes : s.tree.readFile? s.here p = some text.toUTF8

theorem Holds.of_frame {text : String} (h : Holds p text s) (hframe : Frame L s t)
    (hplain : Plain names) (hp : names <:+ p.parts) (hapart : Apart L names) : Holds p text t :=
  ⟨h.parts, h.null, readFile?_of_frame hframe hplain hp hapart h.bytes⟩

theorem Holds.congr {text : String} (h : Holds p text s) (hst : SameFiles s t) : Holds p text t :=
  ⟨h.parts, h.null, by rw [hst.tree, hst.here, h.bytes]⟩

/-- The bytes that were written are in the file. -/
theorem bytes_of_write {text : String} (h : (write p text).perform s = (.ok (), t)) :
    p.holdsNull = false ∧ t.tree.readFile? t.here p = some text.toUTF8 := by
  rw [write_eq, perform_bind_ok] at h
  obtain ⟨_, u, -, hput⟩ := h
  obtain ⟨tree, hw, rfl⟩ := perform_put_iff.1 hput
  obtain ⟨hnull, q, hq⟩ := Tree.find_of_writeFile hw
  exact ⟨hnull, readFile?_of_find hq⟩

/-- **A written text is held.** -/
theorem holds_of_write {text : String} (hparts : p.parts ≠ [])
    (h : (write p text).perform s = (.ok (), t)) : Holds p text t :=
  ⟨hparts, (bytes_of_write h).1, (bytes_of_write h).2⟩

/-- The directory of a file that is there need not be made. -/
theorem perform_makeParents_of_readFile? {c : ByteArray} (hparts : p.parts ≠ [])
    (hnull : p.parent.holdsNull = false) (h : s.tree.readFile? s.here p = some c) :
    (makeParents p).perform s = (.ok (), s) := by
  obtain ⟨q, hq⟩ := find_of_readFile? h
  obtain ⟨last, hlast⟩ := Path.absolute_eq_parent s.here hparts
  have hreaches : (s.tree.findFrom [] (p.parent.absolute s.here ++ [last])).reaches = some q := by
    rw [← hlast, ← Tree.find, hq]
    rfl
  obtain ⟨d, hd⟩ := Tree.findFrom_append_reaches (by simp) hreaches
  rw [perform_makeParents, Tree.makeDirs_of_find hnull hd]

/-- A file that is there takes every text. -/
theorem exists_perform_write {c : ByteArray} (hparts : p.parts ≠ []) (hnull : p.holdsNull = false)
    (h : s.tree.readFile? s.here p = some c) (text : String) :
    ∃ t, (write p text).perform s = (.ok (), t) := by
  obtain ⟨q, hq⟩ := find_of_readFile? h
  have hw : s.tree.writeFile s.here p text.toUTF8 = .ok (s.tree.set q (.file text.toUTF8)) := by
    simp [Tree.writeFile, hnull, hq]
  rw [write_eq, perform_bind_of_ok
    (perform_makeParents_of_readFile? hparts (Path.holdsNull_parent hnull) h)]
  exact ⟨_, perform_put_ok hw⟩

/-- A path that holds the null character is refused where nothing has to be made. -/
theorem perform_write_of_holdsNull {c : ByteArray} (hparts : p.parts ≠ [])
    (hnull : p.holdsNull = true) (h : s.tree.readFile? s.here p = some c) (text : String) :
    ∃ e, (write p text).perform s = (.error e, s) := by
  have hput : s.tree.writeFile s.here p text.toUTF8 = .error .nullName := by
    simp [Tree.writeFile, hnull]
  cases hparent : p.parent.holdsNull with
  | false =>
    rw [write_eq, perform_bind_of_ok (perform_makeParents_of_readFile? hparts hparent h)]
    exact ⟨_, perform_put_error hput⟩
  | true =>
    have hmake : s.tree.makeDirs s.here p.parent = (s.tree, some (.nullName, p.parent)) := by
      have hdir : s.tree.makeDir s.here p.parent = .error .nullName := by
        simp [Tree.makeDir, hparent]
      unfold Tree.makeDirs
      cases p.parent.parts.length <;> simp [Tree.makeDirsFrom, hdir]
    have hparents : (makeParents p).perform s = (.error (.storage .nullName p.parent), s) := by
      rw [perform_makeParents, hmake]
    rw [write_eq]
    exact ⟨_, perform_bind_of_error hparents⟩

/-- A file that is written over stays in its place. -/
theorem find_of_write {q : List String} {c : ByteArray} {text : String} (hparts : p.parts ≠ [])
    (h : s.tree.find (p.absolute s.here) = .file q c)
    (hwrite : (write p text).perform s = (.ok (), t)) :
    t.tree.find (p.absolute t.here) = .file q text.toUTF8 := by
  have hnull := (bytes_of_write hwrite).1
  have hw : s.tree.writeFile s.here p text.toUTF8 = .ok (s.tree.set q (.file text.toUTF8)) := by
    simp [Tree.writeFile, hnull, h]
  have hparents := perform_makeParents_of_readFile? hparts (Path.holdsNull_parent hnull)
    (readFile?_of_find h)
  rw [write_eq, perform_bind_of_ok hparents, perform_put_ok hw] at hwrite
  cases hwrite
  have hq := Tree.get?_of_findFrom_file h
  exact Tree.findFrom_set (by simp [hq]) (by rw [← Tree.find, h]; rfl)

/-- A file that is there is left alone where it cannot be written. -/
theorem eq_of_write_error {c : ByteArray} {text : String} {e : Failure} (hparts : p.parts ≠ [])
    (h : s.tree.readFile? s.here p = some c) (hwrite : (write p text).perform s = (.error e, t)) :
    t = s := by
  cases hnull : p.holdsNull with
  | false =>
    obtain ⟨u, hok⟩ := exists_perform_write hparts hnull h text
    cases hok.symm.trans hwrite
  | true =>
    obtain ⟨e', herror⟩ := perform_write_of_holdsNull hparts hnull h text
    cases herror.symm.trans hwrite
    rfl

/-- **A text that is held need not be written again.** -/
theorem Holds.stays {text : String} (h : Holds p text s) : Stays (write p text) () s := by
  obtain ⟨q, hq⟩ := find_of_readFile? h.bytes
  have hput := perform_put_ok (Tree.writeFile_of_find h.null hq)
  have hrun : (write p text).perform s = (.ok (), s) := by
    have hparents :=
      perform_makeParents_of_readFile? h.parts (Path.holdsNull_parent h.null) h.bytes
    rw [write_eq, perform_bind_of_ok hparents, hput]
  exact ⟨by rw [hrun], by rw [hrun]; exact SameFiles.refl s⟩

end Disk

end Scaffold
