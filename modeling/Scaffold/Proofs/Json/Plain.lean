import Scaffold.Json.Writer
import Scaffold.Proofs.Lists
import Scaffold.Proofs.Text.Wide

/-!
# Plain values

A value is plain if all its strings and keys are texts. These are the values that can be kept in a file:
what the writer makes of a value is a text exactly if the value is plain.
-/

namespace Scaffold.Json

mutual
/-- The strings of a value, with its keys. -/
def texts : Json → List Wide
  | .str s => [s]
  | .arr items => textsOfItems items
  | .obj members => textsOfMembers members
  | .null | .bool _ | .int _ | .float _ => []

/-- The strings of a list. -/
def textsOfItems : List Json → List Wide
  | [] => []
  | v :: items => texts v ++ textsOfItems items

/-- The strings of an object, with its keys. -/
def textsOfMembers : List (Wide × Json) → List Wide
  | [] => []
  | (key, v) :: members => key :: (texts v ++ textsOfMembers members)
end

/-- A value in which no half of a surrogate pair stands alone. -/
def Plain (v : Json) : Prop := ∀ s ∈ v.texts, s.isText = true

instance (v : Json) : Decidable v.Plain := inferInstanceAs (Decidable (∀ s ∈ v.texts, _))

variable {v : Json} {items : List Json} {members : Entries Json Wide}

theorem plain_str {s : Wide} : (str s).Plain ↔ s.isText = true := List.forall_mem_singleton

theorem plain_arr : (arr items).Plain ↔ ∀ v ∈ items, v.Plain := by
  change (∀ s ∈ textsOfItems items, s.isText = true) ↔ _
  induction items with
  | nil => exact iff_of_true nofun nofun
  | cons v items ih => rw [textsOfItems, List.forall_mem_append, ih, List.forall_mem_cons]; rfl

theorem plain_obj :
    (obj members).Plain ↔ ∀ e ∈ members, e.1.isText = true ∧ e.2.Plain := by
  change (∀ s ∈ textsOfMembers members, s.isText = true) ↔ _
  induction members with
  | nil => exact iff_of_true nofun nofun
  | cons e members ih =>
    rw [textsOfMembers, List.forall_mem_cons, List.forall_mem_append, ih, List.forall_mem_cons,
      and_assoc]
    rfl

/-- What counts as nothing has no string but the empty one. -/
theorem plain_of_isFalsy (h : v.isFalsy = true) : v.Plain := by
  cases v with
  | null => exact nofun
  | bool b => exact nofun
  | int i => exact nofun
  | float x => exact nofun
  | str s =>
    cases s with
    | text s => exact plain_str.2 rfl
    | half before u after => cases h
  | arr items =>
    obtain rfl := List.isEmpty_iff.1 h
    exact plain_arr.2 nofun
  | obj members =>
    obtain rfl := List.isEmpty_iff.1 h
    exact plain_obj.2 nofun

/-! ## Written with characters alone -/

theorem areChars_writePoint {p : CodePoint} : AreChars (writePoint p) ↔ ∃ c, p = .char c := by
  cases p <;> simp [writePoint]

theorem areChars_writeText {s : Wide} : AreChars (writeText s) ↔ s.isText = true := by
  have hpoints (l : List CodePoint) : AreChars (l.flatMap writePoint) ↔ AreChars l := by
    induction l with
    | nil => exact Iff.rfl
    | cons p l ih => rw [List.flatMap_cons, areChars_append, areChars_writePoint, ih, areChars_cons]
  rw [writeText, List.cons_append, areChars_cons, areChars_append, hpoints, Wide.isText_iff_points]
  simp

mutual
/-- **A value is written with characters alone exactly if it is plain.** -/
theorem areChars_write (depth : Nat) : (v : Json) → (AreChars (write .file depth v) ↔ v.Plain)
  | .null => iff_of_true (areChars_map_char _) nofun
  | .bool _ => iff_of_true (areChars_map_char _) nofun
  | .int _ => iff_of_true (areChars_map_char _) nofun
  | .float _ => iff_of_true (areChars_map_char _) nofun
  | .str _ => areChars_writeText.trans plain_str.symm
  | .arr [] => iff_of_true (areChars_map_char _) nofun
  | .arr (v :: items) => by
    have hmore := (areChars_writeItems (depth + 1) items).trans plain_arr
    rw [write, plain_arr, List.forall_mem_cons, ← areChars_write (depth + 1) v, ← hmore]
    simp [Style.file]
  | .obj [] => iff_of_true (areChars_map_char _) nofun
  | .obj ((key, v) :: members) => by
    have hmore := (areChars_writeMembers (depth + 1) members).trans plain_obj
    rw [write, plain_obj, List.forall_mem_cons, ← areChars_write (depth + 1) v, ← hmore,
      ← areChars_writeText]
    simp [Style.file, and_assoc]

/-- The items after the first are written with characters alone exactly if they are plain. -/
theorem areChars_writeItems (depth : Nat) : (items : List Json) →
    (AreChars (writeItems .file depth items) ↔ (arr items).Plain)
  | [] => iff_of_true nofun nofun
  | v :: items => by
    have hmore := (areChars_writeItems depth items).trans plain_arr
    rw [writeItems, plain_arr, List.forall_mem_cons, ← areChars_write depth v, ← hmore]
    simp [Style.file]

/-- The members after the first are written with characters alone exactly if they are plain. -/
theorem areChars_writeMembers (depth : Nat) : (members : List (Wide × Json)) →
    (AreChars (writeMembers .file depth members) ↔ (obj members).Plain)
  | [] => iff_of_true nofun nofun
  | (key, v) :: members => by
    have hmore := (areChars_writeMembers depth members).trans plain_obj
    rw [writeMembers, plain_obj, List.forall_mem_cons, ← areChars_write depth v, ← hmore,
      ← areChars_writeText]
    simp [Style.file, and_assoc]
end

/-- **The content of a file is a text exactly if the value is plain.** -/
theorem isText_toFile : v.toFile.isText = true ↔ v.Plain := by
  rw [toFile, Wide.isText_ofPoints, areChars_append, areChars_write]
  exact and_iff_left (areChars_map_char ['\n'])

theorem exists_toFile_eq_iff : (∃ text, v.toFile = .text text) ↔ v.Plain := by
  rw [← isText_toFile]
  exact ⟨fun ⟨_, h⟩ => h ▸ rfl, fun h => ⟨_, Wide.isText_iff.1 h⟩⟩

end Scaffold.Json
