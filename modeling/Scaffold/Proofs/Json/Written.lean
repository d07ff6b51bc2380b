import Scaffold.Proofs.Json.Letters
import Scaffold.Proofs.Json.Numbers
import Scaffold.Proofs.Json.Strings

/-!
# What the writer writes

The values that are read from texts are sound: keys occur once, and numbers are numbers of the
format. What the writer makes of them consists of quoted strings and of characters that mean nothing
outside of a JSON text.

* **Tidy strings** are not changed when comments are taken out of them, and hold no carriage return.
* **Rereading** changes nothing but the numbers that are not integers, and those only as far as
  writing and reading them does.
-/

namespace Scaffold.Json

open Letter

/-! ## Sound values -/

mutual
/-- A value as it is read from a text: each key occurs once, and all numbers fit the format. -/
def Sound : Json → Prop
  | .float x => x.Fits
  | .arr items => SoundItems items
  | .obj members => (Entries.keys members).Nodup ∧ SoundMembers members
  | _ => True

/-- All items are sound. -/
def SoundItems : List Json → Prop
  | [] => True
  | v :: items => Sound v ∧ SoundItems items

/-- All members are sound. -/
def SoundMembers : List (Wide × Json) → Prop
  | [] => True
  | (_, v) :: members => Sound v ∧ SoundMembers members
end

theorem soundItems_iff {items : List Json} : SoundItems items ↔ ∀ v ∈ items, v.Sound := by
  induction items with
  | nil => simp [SoundItems]
  | cons v items ih => simp [SoundItems, ih]

theorem soundMembers_iff {members : Entries Json Wide} :
    SoundMembers members ↔ ∀ e ∈ members, e.2.Sound := by
  induction members with
  | nil => simp [SoundMembers]
  | cons e members ih => simp [SoundMembers, ih]

mutual
/-- The value that is read where a value was written. -/
def reread : Json → Json
  | .float x => .float x.reread
  | .arr items => .arr (rereadItems items)
  | .obj members => .obj (rereadMembers members)
  | .null => .null
  | .bool b => .bool b
  | .int i => .int i
  | .str s => .str s

/-- The items that are read where a list was written. -/
def rereadItems : List Json → List Json
  | [] => []
  | v :: items => reread v :: rereadItems items

/-- The members that are read where an object was written. -/
def rereadMembers : List (Wide × Json) → List (Wide × Json)
  | [] => []
  | (key, v) :: members => (key, reread v) :: rereadMembers members
end

theorem rereadItems_eq (items : List Json) : rereadItems items = items.map reread := by
  induction items with
  | nil => rfl
  | cons v items ih => simp [rereadItems, ih]

theorem rereadMembers_eq (members : Entries Json Wide) :
    rereadMembers members = members.map fun e => (e.1, e.2.reread) := by
  induction members with
  | nil => rfl
  | cons e members ih => simp [rereadMembers, ih]

theorem reread_obj_eq_iff {members : Entries Json Wide} :
    (obj members).reread = obj members ↔ ∀ e ∈ members, e.2.reread = e.2 := by
  rw [reread, rereadMembers_eq, obj.injEq]
  induction members with
  | nil => simp
  | cons e members ih =>
    rw [List.map_cons, List.cons.injEq, ih, List.forall_mem_cons]
    simp [Prod.ext_iff]

theorem reread_arr_eq_iff {items : List Json} :
    (arr items).reread = arr items ↔ ∀ v ∈ items, v.reread = v := by
  rw [reread, rereadItems_eq, arr.injEq]
  induction items with
  | nil => simp
  | cons v items ih => simp [ih]

theorem get?_rereadMembers (members : Entries Json Wide) (key : Wide) :
    Entries.get? key (rereadMembers members) = (Entries.get? key members).map reread := by
  induction members with
  | nil => rfl
  | cons e members ih =>
    rw [rereadMembers, Entries.get?, Entries.get?, ih]
    split <;> rfl

mutual
/-- The numbers of a value that are not integers. -/
def floats : Json → List Binary64
  | .float x => [x]
  | .arr items => floatsOfItems items
  | .obj members => floatsOfMembers members
  | .null | .bool _ | .int _ | .str _ => []

/-- The numbers of a list that are not integers. -/
def floatsOfItems : List Json → List Binary64
  | [] => []
  | v :: items => floats v ++ floatsOfItems items

/-- The numbers of an object that are not integers. -/
def floatsOfMembers : List (Wide × Json) → List Binary64
  | [] => []
  | (_, v) :: members => floats v ++ floatsOfMembers members
end

mutual
/-- **A value is read as it was written** if that holds of its numbers. -/
theorem reread_of_floats : (v : Json) → (∀ x ∈ v.floats, x.reread = x) → v.reread = v
  | .null, _ => rfl
  | .bool _, _ => rfl
  | .int _, _ => rfl
  | .str _, _ => rfl
  | .float x, h => congrArg float (h x (.head _))
  | .arr items, h => congrArg arr (rereadItems_of_floats items h)
  | .obj members, h => congrArg obj (rereadMembers_of_floats members h)

/-- Items are read as they were written if that holds of their numbers. -/
theorem rereadItems_of_floats : (items : List Json) →
    (∀ x ∈ floatsOfItems items, x.reread = x) → rereadItems items = items
  | [], _ => rfl
  | v :: items, h => by
    have hfirst := reread_of_floats v fun x hx => h x (List.mem_append_left _ hx)
    have hmore := rereadItems_of_floats items fun x hx => h x (List.mem_append_right _ hx)
    rw [rereadItems, hfirst, hmore]

/-- Members are read as they were written if that holds of their numbers. -/
theorem rereadMembers_of_floats : (members : List (Wide × Json)) →
    (∀ x ∈ floatsOfMembers members, x.reread = x) → rereadMembers members = members
  | [], _ => rfl
  | (key, v) :: members, h => by
    have hfirst := reread_of_floats v fun x hx => h x (List.mem_append_left _ hx)
    have hmore := rereadMembers_of_floats members fun x hx => h x (List.mem_append_right _ hx)
    rw [rereadMembers, hfirst, hmore]
end

/-! ## Tidy strings -/

/-- A character that begins neither a string nor a comment, and is not changed when a file is read. -/
def isTidyChar (c : Char) : Bool := c != '"' && c != '/' && c != '\r' && c != '\uFEFF'

/-- A string that consists of written strings and tidy characters. -/
inductive Tidy : List CodePoint → Prop
  | nil : Tidy []
  | cons {c : Char} {rest : List CodePoint} : isTidyChar c → Tidy rest → Tidy (.char c :: rest)
  | text {rest : List CodePoint} (s : Wide) : Tidy rest → Tidy (writeText s ++ rest)

theorem Tidy.append {s t : List CodePoint} (hs : Tidy s) (ht : Tidy t) : Tidy (s ++ t) := by
  induction hs with
  | nil => exact ht
  | cons hc _ ih => exact .cons hc ih
  | text s _ ih =>
    rw [List.append_assoc]
    exact .text s ih

theorem tidy_of_forall {s : List Char} (h : ∀ c ∈ s, isTidyChar c) : Tidy (s.map .char) := by
  induction s with
  | nil => exact .nil
  | cons c s ih => exact .cons (h c (.head _)) (ih fun d hd => h d (.tail _ hd))

theorem tidy_writeText (s : Wide) : Tidy (writeText s) := by
  simpa using Tidy.text s .nil

theorem not_mem_writeChar (c : Char) : '\r' ∉ writeChar c := by
  have hpadded : ∀ n < 0x20, '\r' ∉ Text.hexPadded 4 n := by decide
  unfold writeChar
  split_ifs with h1 h2 h3 h4 h5 h6 h7 h8
  all_goals try decide
  · simpa using hpadded c.toNat h8
  · rw [List.mem_singleton]
    rintro rfl
    exact h4 rfl

theorem not_mem_writePoint (p : CodePoint) : CodePoint.char '\r' ∉ writePoint p := by
  cases p with
  | char c => simpa [writePoint] using not_mem_writeChar c
  | half u => simp [writePoint]

theorem Tidy.not_mem {s : List CodePoint} (h : Tidy s) : CodePoint.char '\r' ∉ s := by
  induction h with
  | nil => simp
  | cons hc _ ih =>
    simp only [isTidyChar, Bool.and_eq_true, bne_iff_ne] at hc
    exact List.not_mem_cons_of_ne_of_not_mem (fun h => hc.1.2 (CodePoint.char.inj h).symm) ih
  | text s _ ih => simp [writeText, not_mem_writePoint, ih]

theorem Tidy.head?_ne {s : List CodePoint} (h : Tidy s) : (chars s).head? ≠ some '\uFEFF' := by
  cases h with
  | nil => simp
  | cons hc _ =>
    simp only [isTidyChar, Bool.and_eq_true, bne_iff_ne] at hc
    simpa using hc.2
  | text s _ => simp [writeText]

theorem stringRest_writeChar (c : Char) (tail : List CodePoint) :
    stringRest ((writeChar c).map .char ++ tail) =
      (stringRest tail).map fun r => ((writeChar c).map .char ++ r.1, r.2) := by
  have hescape (e : Char) : stringRest (['\\', e].map .char ++ tail) =
      (stringRest tail).map fun r => (['\\', e].map .char ++ r.1, r.2) := stringRest_escape rfl _ tail
  unfold writeChar
  split_ifs with h1 h2 h3 h4 h5 h6 h7 h8
  all_goals try exact hescape _
  · have hplain : ∀ k < 16, k.digitChar ≠ '"' ∧ k.digitChar ≠ '\\' := by decide
    have hhigh := hplain (c.toNat / 16) (by omega)
    have hlow := hplain (c.toNat % 16) (by omega)
    have hdigit {d : Char} (hd : d ≠ '"' ∧ d ≠ '\\') (rest : List CodePoint) :
        stringRest (.char d :: rest) = (stringRest rest).map fun r => (.char d :: r.1, r.2) :=
      stringRest_plain hd.1 hd.2
    have hzero := hdigit (d := '0') (by decide)
    rw [(hex4?_hexPadded c.toNat h8).1, List.map_cons, List.map_cons, List.cons_append,
      List.cons_append, stringRest_escape rfl]
    simp [hzero, hdigit hhigh, hdigit hlow, Function.comp_def]
  · simp only [beq_iff_eq] at h1 h2
    exact stringRest_plain h1 h2

theorem stringRest_writePoint (p : CodePoint) (tail : List CodePoint) :
    stringRest (writePoint p ++ tail) =
      (stringRest tail).map fun r => (writePoint p ++ r.1, r.2) := by
  cases p with
  | char c => exact stringRest_writeChar c tail
  | half u =>
    exact stringRest_plain (show '\uFFFD' ≠ '"' by decide) (show '\uFFFD' ≠ '\\' by decide)

/-- The rest of a written string is read as far as its mark. -/
theorem stringRest_flatMap (s rest : List CodePoint) :
    stringRest (s.flatMap writePoint ++ .char '"' :: rest) =
      some (s.flatMap writePoint ++ [.char '"'], rest) := by
  induction s with
  | nil => cases rest <;> simp [stringRest]
  | cons p s ih => simp [stringRest_writePoint, ih]

/-- **Taking out comments leaves a tidy string alone.** -/
theorem Tidy.stripComments_append {s : List CodePoint} (h : Tidy s) (rest : List CodePoint) :
    stripComments (s ++ rest) = s ++ stripComments rest := by
  induction h with
  | nil => rfl
  | @cons c s hc _ ih =>
    simp only [isTidyChar, Bool.and_eq_true, bne_iff_ne] at hc
    rw [List.cons_append, stripComments_cons hc.1.1.1 hc.1.1.2, ih, List.cons_append]
  | @text t s _ ih =>
    have hstring := stripComments_string (c := CodePoint.char '"') rfl
      (stringRest_flatMap s.points (t ++ rest))
    simpa [writeText, ih] using hstring

/-! ## The writer is tidy -/

theorem isTidyChar_of_isDigit {c : Char} (h : c.isDigit) : isTidyChar c := by
  have hne : c ≠ '"' ∧ c ≠ '/' ∧ c ≠ '\r' ∧ c ≠ '\uFEFF' := by
    refine ⟨?_, ?_, ?_, ?_⟩ <;> (rintro rfl; revert h; decide)
  simp [isTidyChar, hne]

theorem isTidyChar_signed {negative : Bool} {text : List Char} (h : ∀ c ∈ text, isTidyChar c) :
    ∀ c ∈ signed negative text, isTidyChar c := by
  cases negative with
  | false => exact h
  | true => exact List.forall_mem_cons.2 ⟨by decide, h⟩

theorem isTidyChar_numberText {whole fraction exponent : List Char} (hwhole : IsWhole whole)
    (hfraction : ∀ d ∈ fraction, d.isDigit) (hexponent : IsExponent exponent) :
    ∀ c ∈ numberText whole fraction exponent, isTidyChar c := by
  have hdigits {ds : List Char} (hds : ∀ d ∈ ds, d.isDigit) : ∀ d ∈ ds, isTidyChar d :=
    fun d hd => isTidyChar_of_isDigit (hds d hd)
  refine List.forall_mem_append.2 ⟨?_, List.forall_mem_append.2 ⟨?_, ?_⟩⟩
  · rcases hwhole with rfl | ⟨c, ds, rfl, -, hds⟩
    · exact List.forall_mem_singleton.2 (by decide)
    · exact hdigits hds
  · split
    · exact nofun
    · exact List.forall_mem_cons.2 ⟨by decide, hdigits hfraction⟩
  · rcases hexponent with rfl | ⟨sign, ds, rfl, hsign, -, hds⟩
    · exact nofun
    · refine List.forall_mem_cons.2 ⟨by decide, List.forall_mem_cons.2 ⟨?_, hdigits hds⟩⟩
      rcases hsign with rfl | rfl <;> decide

theorem tidy_writeInt (i : Int) : Tidy ((writeInt i).map .char) := by
  have hdigits : ∀ d ∈ Nat.toDigits 10 i.natAbs, isTidyChar d := fun d hd =>
    isTidyChar_of_isDigit (Nat.isDigit_of_mem_toDigits (by decide) (by decide) hd)
  unfold writeInt
  split
  · exact tidy_of_forall (List.forall_mem_cons.2 ⟨by decide, hdigits⟩)
  · exact tidy_of_forall hdigits

theorem tidy_writeNumber {x : Binary64} (hx : x.Fits) :
    Tidy ((Decimal.Layout.json.write x).map .char) := by
  refine tidy_of_forall ?_
  cases hx with
  | notANumber => decide
  | infinity negative => cases negative <;> decide
  | finite negative m e hm =>
    obtain ⟨text, ⟨whole, fraction, exponent, rfl, hwhole, hfraction, hexponent, -⟩, hwrite⟩ :=
      Binary64.write_finite hm negative e
    rw [hwrite]
    exact isTidyChar_signed (isTidyChar_numberText hwhole hfraction hexponent)

theorem isTidyChar_newLine (depth : Nat) : ∀ c ∈ newLine depth, isTidyChar c := by
  refine List.forall_mem_cons.2 ⟨by decide, fun c hc => ?_⟩
  rw [List.eq_of_mem_replicate hc]
  decide

/-- A mark and a line end after it. -/
theorem tidy_mark_newLine {c : Char} (hc : isTidyChar c) (depth : Nat) :
    Tidy (Style.file.chars (c :: newLine depth)) :=
  tidy_of_forall (List.forall_mem_cons.2 ⟨hc, isTidyChar_newLine depth⟩)

/-- A line end and a mark after it. -/
theorem tidy_newLine_mark {c : Char} (hc : isTidyChar c) (depth : Nat) :
    Tidy (Style.file.chars (newLine depth ++ [c])) :=
  tidy_of_forall (List.forall_mem_append.2 ⟨isTidyChar_newLine depth, List.forall_mem_singleton.2 hc⟩)

theorem tidy_colon : Tidy (Style.file.chars [':', ' ']) := tidy_of_forall (s := [':', ' ']) (by decide)

mutual
/-- **A sound value is written tidily.** -/
theorem tidy_write (depth : Nat) : (v : Json) → v.Sound → Tidy (write .file depth v)
  | .null, _ => tidy_of_forall (s := "null".toList) (by decide)
  | .bool true, _ => tidy_of_forall (s := "true".toList) (by decide)
  | .bool false, _ => tidy_of_forall (s := "false".toList) (by decide)
  | .int i, _ => tidy_writeInt i
  | .float x, h => tidy_writeNumber h
  | .str s, _ => tidy_writeText s
  | .arr [], _ => tidy_of_forall (s := ['[', ']']) (by decide)
  | .arr (v :: items), h => by
    have hfirst := tidy_write (depth + 1) v h.1
    have hmore := tidy_writeItems (depth + 1) items h.2
    have hopen := tidy_mark_newLine (c := '[') (by decide) (depth + 1)
    have hclose := tidy_newLine_mark (c := ']') (by decide) depth
    exact ((hopen.append hfirst).append hmore).append hclose
  | .obj [], _ => tidy_of_forall (s := ['\x7b', '\x7d']) (by decide)
  | .obj ((k, v) :: members), h => by
    have hfirst := tidy_write (depth + 1) v h.2.1
    have hmore := tidy_writeMembers (depth + 1) members h.2.2
    have hopen := tidy_mark_newLine (c := '\x7b') (by decide) (depth + 1)
    have hclose := tidy_newLine_mark (c := '\x7d') (by decide) depth
    have hkey := (hopen.append (tidy_writeText k)).append tidy_colon
    exact ((hkey.append hfirst).append hmore).append hclose

/-- Sound items are written tidily. -/
theorem tidy_writeItems (depth : Nat) :
    (items : List Json) → SoundItems items → Tidy (writeItems .file depth items)
  | [], _ => .nil
  | v :: items, h => by
    have hcomma := tidy_mark_newLine (c := ',') (by decide) depth
    exact (hcomma.append (tidy_write depth v h.1)).append (tidy_writeItems depth items h.2)

/-- Sound members are written tidily. -/
theorem tidy_writeMembers (depth : Nat) :
    (members : List (Wide × Json)) → SoundMembers members →
      Tidy (writeMembers .file depth members)
  | [], _ => .nil
  | (k, v) :: members, h => by
    have hcomma := tidy_mark_newLine (c := ',') (by decide) depth
    have hkey := (hcomma.append (tidy_writeText k)).append tidy_colon
    exact (hkey.append (tidy_write depth v h.1)).append (tidy_writeMembers depth members h.2)
end

/-- **The content of a written file is tidy.** -/
theorem tidy_toFile {v : Json} (h : v.Sound) : Tidy v.toFile.points := by
  rw [toFile, Wide.points_ofPoints]
  exact (tidy_write 0 v h).append (.cons (by decide) .nil)

/-- A text that a file is to hold has no carriage return. -/
theorem not_mem_of_toFile {v : Json} {text : String} (h : v.Sound) (htext : v.toFile = .text text) :
    '\r' ∉ text.toList := by
  have hnot := (tidy_toFile h).not_mem
  rw [htext] at hnot
  simpa [Wide.points] using hnot

end Scaffold.Json
