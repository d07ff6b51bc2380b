import Scaffold.Json.Token
import Scaffold.Json.Writer
import Scaffold.Proofs.Lists
import Scaffold.Proofs.Text.Wide
import Mathlib.Data.List.Basic

/-!
# Reading back strings

Each code point of a written string is read back as itself: most of them stand for themselves, the
others are written as an escape that the reader undoes.
-/

namespace Scaffold.Json

open Letter

variable {γ : Type} [Letter γ] {size : Nat} {acc : List CodePoint} {c e : γ} {p : CodePoint}
  {tail : List γ}

theorem readText_escape {n : Nat} (hslash : char c = '\\')
    (h : readEscape (chars (e :: tail)) = .ok (p, n)) :
    readText size acc (c :: e :: tail) =
      readText (size + 1 + n) (p :: acc) ((e :: tail).drop n) := by
  rw [readText]
  simp [hslash, -chars_cons, h]

/-- What follows an escape is read on. -/
theorem readText_escape_append {escape : List γ} (hslash : char c = '\\') (hne : escape ≠ [])
    (h : readEscape (chars (escape ++ tail)) = .ok (p, escape.length)) :
    readText size acc (c :: (escape ++ tail)) =
      readText (size + 1 + escape.length) (p :: acc) tail := by
  obtain ⟨e, escape, rfl⟩ := List.exists_cons_of_ne_nil hne
  rw [List.cons_append] at h ⊢
  rw [readText_escape hslash h, ← List.cons_append, List.drop_left]

theorem readText_plain (hquote : char c ≠ '"') (hslash : char c ≠ '\\')
    (hcontrol : ¬ (char c).toNat < 0x20) :
    readText size acc (c :: tail) = readText (size + 1) (point c :: acc) tail := by
  rw [readText]
  simp [hquote, hslash, hcontrol]

/-- A control character is the number that its four digits stand for. -/
theorem hex4?_hexPadded : ∀ n < 0x20,
    Text.hexPadded 4 n = ['0', '0', (n / 16).digitChar, (n % 16).digitChar] ∧
      hex4? '0' '0' (n / 16).digitChar (n % 16).digitChar = some n ∧
      ofUnit n = .char (Char.ofNat n) ∧ isHighSurrogate n = false := by
  decide

/-- **A written character is read back.** The string goes on after it, if only with its mark. -/
theorem readText_writeChar (c : Char) {tail : List CodePoint} (htail : tail ≠ []) :
    readText size acc ((writeChar c).map .char ++ tail) =
      readText (size + (writeChar c).length) (.char c :: acc) tail := by
  have hletter (e : Char) (he : e ≠ 'u') (hc : escaped? e = some c) :
      readText size acc (['\\', e].map .char ++ tail) = readText (size + 2) (.char c :: acc) tail := by
    have hescape : readEscape (chars (CodePoint.char e :: tail)) = .ok (.char c, 1) := by
      rw [chars_cons, char_point, readEscape]
      · simp [hc]
      · exact fun h => he h
    exact readText_escape rfl hescape
  unfold writeChar
  split_ifs with h1 h2 h3 h4 h5 h6 h7 h8
  · exact hletter _ (by decide) (by rw [beq_iff_eq.1 h1]; rfl)
  · exact hletter _ (by decide) (by rw [beq_iff_eq.1 h2]; rfl)
  · exact hletter _ (by decide) (by rw [beq_iff_eq.1 h3]; rfl)
  · exact hletter _ (by decide) (by rw [beq_iff_eq.1 h4]; rfl)
  · exact hletter _ (by decide) (by rw [beq_iff_eq.1 h5]; rfl)
  · exact hletter _ (by decide) (by rw [beq_iff_eq.1 h6]; rfl)
  · exact hletter _ (by decide) (by rw [beq_iff_eq.1 h7]; rfl)
  · obtain ⟨hdigits, hvalue, hunit, hpair⟩ := hex4?_hexPadded c.toNat h8
    obtain ⟨x, tail, rfl⟩ := List.exists_cons_of_ne_nil htail
    have hescape : readEscape (chars (['u', '0', '0', (c.toNat / 16).digitChar,
        (c.toNat % 16).digitChar].map .char ++ x :: tail)) = .ok (.char c, 5) := by
      simp [readEscape, readUnit?, hvalue, hpair, hunit]
    rw [hdigits]
    exact readText_escape rfl hescape
  · simp only [beq_iff_eq] at h1 h2
    exact readText_plain h1 h2 h8

/-- A lone half is read as it stands. -/
theorem readText_writePoint (p : CodePoint) {tail : List CodePoint} (htail : tail ≠ []) :
    readText size acc (writePoint p ++ tail) =
      readText (size + (writePoint p).length) (p :: acc) tail := by
  cases p with
  | char c =>
    rw [writePoint, List.length_map]
    exact readText_writeChar c htail
  | half u =>
    exact readText_plain (show '\uFFFD' ≠ '"' by decide) (show '\uFFFD' ≠ '\\' by decide)
      (show ¬ '\uFFFD'.toNat < 0x20 by decide)

theorem readText_flatMap (s : List CodePoint) (size : Nat) (acc rest : List CodePoint) :
    readText size acc (s.flatMap writePoint ++ .char '"' :: rest) =
      (size + (s.flatMap writePoint).length + 1, .text (.ofPoints (acc.reverse ++ s))) := by
  induction s generalizing size acc with
  | nil =>
    rw [List.flatMap_nil, List.nil_append, readText]
    simp
  | cons p s ih =>
    rw [List.flatMap_cons, List.append_assoc, readText_writePoint p (by simp), ih]
    simp [Nat.add_assoc]

end Scaffold.Json
