import Scaffold.Json.Token
import Scaffold.Json.Writer
import Scaffold.Proofs.Decimal.Rounding
import Scaffold.Proofs.Decimal.Shortest
import Scaffold.Proofs.Lists

/-!
# Reading back numbers

A number in a JSON text is a whole part, a fraction and an exponent. What the writer lays out is of
this form, and is read as far as it goes whenever no character follows that could belong to a number.

* **Integers** are read back as they are.
* **Other numbers** are read as some number of the format, which depends on nothing but the number
  written: `reread`.
-/

namespace Scaffold

namespace Json

variable {negative : Bool} {whole fraction exponent rest : List Char}

/-- A text that begins with no character that could go on a number. -/
def Stops (rest : List Char) : Prop :=
  ∀ c ∈ rest.head?, c.isDigit = false ∧ c ≠ '.' ∧ c ≠ 'e' ∧ c ≠ 'E'

theorem stops_nil : Stops [] := nofun

theorem stops_cons {c : Char} (hdigit : c.isDigit = false) (hc : c ≠ '.' ∧ c ≠ 'e' ∧ c ≠ 'E') :
    Stops (c :: rest) := by
  intro d hd
  cases hd
  exact ⟨hdigit, hc⟩

/-- A text whose first character, if there is one, is no digit. -/
def NoDigit (rest : List Char) : Prop := ∀ c ∈ rest.head?, c.isDigit = false

theorem takeWhile_digits {ds : List Char} (hds : ∀ d ∈ ds, d.isDigit) (hrest : NoDigit rest) :
    (ds ++ rest).takeWhile Char.isDigit = ds :=
  Text.takeWhile_append_of_stop hds hrest

/-! ## The parts of a number -/

/-- A whole part: a zero, or digits that do not begin with one. -/
def IsWhole (whole : List Char) : Prop :=
  whole = ['0'] ∨ ∃ c ds, whole = c :: ds ∧ c ≠ '0' ∧ ∀ d ∈ c :: ds, d.isDigit

/-- An exponent: nothing, or a sign and digits. -/
def IsExponent (exponent : List Char) : Prop :=
  exponent = [] ∨ ∃ sign ds, exponent = 'e' :: sign :: ds ∧ (sign = '-' ∨ sign = '+') ∧ ds ≠ [] ∧
    ∀ d ∈ ds, d.isDigit

/-- The text of a number without its sign. -/
def numberText (whole fraction exponent : List Char) : List Char :=
  whole ++ ((if fraction.isEmpty then [] else '.' :: fraction) ++ exponent)

theorem wholePart_append (hwhole : IsWhole whole) (hrest : NoDigit rest) :
    wholePart (whole ++ rest) = whole := by
  rcases hwhole with rfl | ⟨c, ds, rfl, hc, hds⟩
  · rfl
  · have hcons : wholePart (c :: ds ++ rest) = (c :: ds ++ rest).takeWhile Char.isDigit := by
      rw [List.cons_append, wholePart]
      rintro tail h
      cases h
      exact hc rfl
    rw [hcons, takeWhile_digits hds hrest]

theorem noDigit_of_stops (h : Stops rest) : NoDigit rest := fun c hc => (h c hc).1

theorem exponentPart_of_stops (h : Stops rest) : exponentPart rest = none := by
  cases rest with
  | nil => rfl
  | cons c rest =>
    obtain ⟨-, -, he, hE⟩ := h c rfl
    simp [exponentPart, he, hE]

/-- An exponent is read as far as it goes. -/
theorem exponentPart_append (hexponent : IsExponent exponent) (hrest : Stops rest) :
    exponentPart (exponent ++ rest) = exponentPart exponent ∧
      ((exponentPart exponent).map Prod.fst).getD 0 = exponent.length := by
  rcases hexponent with rfl | ⟨sign, ds, rfl, hsign, hne, hds⟩
  · exact ⟨exponentPart_of_stops hrest, rfl⟩
  · have hlong := takeWhile_digits hds (noDigit_of_stops hrest)
    have hshort := takeWhile_digits hds (show NoDigit [] from nofun)
    rw [List.append_nil] at hshort
    have hempty : ds.isEmpty = false := by simpa using hne
    rcases hsign with rfl | rfl <;>
      simp [exponentPart, hlong, hshort, hempty] <;> omega

/-- What a number without its sign stands for. -/
def magnitudeToken (negative : Bool) (whole fraction exponent : List Char) : Token :=
  let digits := Nat.ofDigitChars 10 (whole ++ fraction) 0
  if fraction.isEmpty && (exponentPart exponent).isNone then
    .atom (.int (if negative then -(digits : Int) else digits))
  else
    let power := ((exponentPart exponent).map Prod.snd).getD 0 - (fraction.length : Int)
    .atom (.float (Binary64.ofDecimal negative digits power))

/-- **A number is read as far as it goes.** -/
theorem readMagnitude_append (negative : Bool) (hwhole : IsWhole whole)
    (hfraction : ∀ d ∈ fraction, d.isDigit) (hexponent : IsExponent exponent)
    (hrest : Stops rest) :
    readMagnitude negative (numberText whole fraction exponent ++ rest) =
      ((numberText whole fraction exponent).length,
        magnitudeToken negative whole fraction exponent) := by
  obtain ⟨hexp, hsize⟩ := exponentPart_append hexponent hrest
  have hne : whole.isEmpty = false := by
    rcases hwhole with rfl | ⟨c, ds, rfl, -⟩ <;> rfl
  -- what follows the whole part and what follows the fraction begin with no digit
  have hnoDigit : NoDigit (exponent ++ rest) := by
    rcases hexponent with rfl | ⟨sign, ds, rfl, -⟩
    · exact noDigit_of_stops hrest
    · rintro c hc
      cases hc
      decide
  cases fraction with
  | nil =>
    have hnoMark : fractionPart (exponent ++ rest) = [] := by
      rcases hexponent with rfl | ⟨sign, ds, rfl, -⟩
      · cases rest with
        | nil => rfl
        | cons c rest =>
          have hmark := (hrest c rfl).2.1
          simp [fractionPart, hmark]
      · rfl
    have hpart := wholePart_append hwhole hnoDigit
    simp only [numberText, readMagnitude, magnitudeToken, List.isEmpty_nil, if_true,
      List.nil_append, List.append_assoc, hpart, hne, List.drop_left, hnoMark, List.drop_zero, hexp,
      Bool.false_eq_true, if_false]
    rw [hsize]
    cases (exponentPart exponent).isNone <;> simp
  | cons d ds =>
    have hpart : wholePart (whole ++ ('.' :: (d :: ds) ++ (exponent ++ rest))) = whole :=
      wholePart_append hwhole (by rintro c hc; cases hc; decide)
    have hmark : fractionPart ('.' :: (d :: ds) ++ (exponent ++ rest)) = d :: ds :=
      takeWhile_digits hfraction hnoDigit
    have hdrop : ('.' :: (d :: ds) ++ (exponent ++ rest)).drop (1 + (d :: ds).length) =
        exponent ++ rest := by
      rw [Nat.add_comm]
      change (('.' :: d :: ds) ++ (exponent ++ rest)).drop ('.' :: d :: ds).length = _
      exact List.drop_left
    simp only [numberText, readMagnitude, magnitudeToken, List.isEmpty_cons,
      List.append_assoc, hpart, hne, List.drop_left, hmark, hdrop, hexp, Bool.false_eq_true, if_false]
    simp only [Bool.false_and, Bool.false_eq_true, if_false, List.length_append, List.length_cons,
      Prod.mk.injEq, and_true, hsize]
    omega

/-- The token of a number with a fraction or an exponent is a number of the format. -/
theorem exists_magnitudeToken (negative : Bool) (whole : List Char)
    (h : fraction ≠ [] ∨ (exponentPart exponent).isSome) :
    ∃ x : Binary64, x.Fits ∧ magnitudeToken negative whole fraction exponent = .atom (.float x) := by
  have hcond : (fraction.isEmpty && (exponentPart exponent).isNone) = false := by
    rcases h with h | h
    · simp [h]
    · rw [Option.isNone_eq_false_iff.2 h, Bool.and_false]
  have htoken : magnitudeToken negative whole fraction exponent = .atom (.float
      (Binary64.ofDecimal negative (Nat.ofDigitChars 10 (whole ++ fraction) 0)
        (((exponentPart exponent).map Prod.snd).getD 0 - (fraction.length : Int)))) := by
    simp only [magnitudeToken, hcond, Bool.false_eq_true, if_false]
  exact ⟨_, Binary64.fits_ofDecimal _ _ _, htoken⟩

/-! ## Words and signs -/

/-- A digit is none of the characters that words begin with. -/
theorem ne_of_isDigit {c : Char} (hc : c.isDigit) :
    c ≠ 'n' ∧ c ≠ 't' ∧ c ≠ 'f' ∧ c ≠ 'N' ∧ c ≠ 'I' ∧ c ≠ '-' := by
  refine ⟨?_, ?_, ?_, ?_, ?_, ?_⟩ <;> (rintro rfl; revert hc; decide)

/-- A text that begins with a digit, or with a sign and a digit, begins with no word. -/
theorem readWord_of_digit {c : Char} (hc : c.isDigit) :
    readWord (c :: rest) = none ∧ readWord ('-' :: c :: rest) = none := by
  obtain ⟨hn, ht, hf, hN, hI, hm⟩ := ne_of_isDigit hc
  simp [readWord, words, List.isPrefixOf, hn.symm, ht.symm, hf.symm, hN.symm, hI.symm, hm.symm]

/-- A number with its sign. -/
def signed (negative : Bool) (text : List Char) : List Char :=
  if negative then '-' :: text else text

theorem exists_digit_of_isWhole (h : IsWhole whole) :
    ∃ c ds, whole = c :: ds ∧ c.isDigit := by
  rcases h with rfl | ⟨c, ds, rfl, -, hds⟩
  · exact ⟨'0', [], rfl, by decide⟩
  · exact ⟨c, ds, rfl, hds c (.head _)⟩

/-- A number with its sign is read as far as it goes. -/
theorem readAtom_signed (negative : Bool) (hwhole : IsWhole whole)
    (hfraction : ∀ d ∈ fraction, d.isDigit) (hexponent : IsExponent exponent)
    (hrest : Stops rest) :
    readAtom (signed negative (numberText whole fraction exponent) ++ rest) =
      ((signed negative (numberText whole fraction exponent)).length,
        magnitudeToken negative whole fraction exponent) := by
  have hread := readMagnitude_append negative hwhole hfraction hexponent hrest
  obtain ⟨c, ds, hcons, hc⟩ := exists_digit_of_isWhole hwhole
  obtain ⟨tail, htext⟩ : ∃ tail, numberText whole fraction exponent ++ rest = c :: tail := by
    rw [numberText, hcons]
    exact ⟨_, rfl⟩
  cases negative with
  | true =>
    simp only [signed, if_true, List.cons_append, List.length_cons]
    rw [readAtom, htext, (readWord_of_digit hc).2, ← htext, hread]
  | false =>
    have hminus := (ne_of_isDigit hc).2.2.2.2.2
    simp only [signed, Bool.false_eq_true, if_false]
    rw [readAtom, htext, (readWord_of_digit hc).1]
    · change readMagnitude false (c :: tail) = _
      rw [← htext, hread]
    · intro digits h
      rw [htext] at h
      cases h
      exact hminus rfl

/-! ## Integers -/

theorem isWhole_toDigits (n : Nat) : IsWhole (Nat.toDigits 10 n) := by
  by_cases hn : n = 0
  · subst hn
    exact .inl rfl
  · obtain ⟨c, ds, hdigits, hc⟩ := Decimal.exists_toDigits hn
    refine .inr ⟨c, ds, hdigits, hc, ?_⟩
    rw [← hdigits]
    exact fun d hd => Nat.isDigit_of_mem_toDigits (by decide) (by decide) hd

/-- **An integer is read back.** -/
theorem readAtom_writeInt (i : Int) (hrest : Stops rest) :
    readAtom (writeInt i ++ rest) = ((writeInt i).length, .atom (.int i)) := by
  have htext : writeInt i = signed (decide (i < 0)) (numberText (Nat.toDigits 10 i.natAbs) [] []) := by
    simp [writeInt, signed, numberText]
  have hvalue : magnitudeToken (decide (i < 0)) (Nat.toDigits 10 i.natAbs) [] [] =
      .atom (.int i) := by
    simp only [magnitudeToken, exponentPart, List.append_nil, Nat.ofDigitChars_ten_toDigits,
      List.isEmpty_nil, Option.isNone_none, Bool.and_self, if_true, decide_eq_true_eq]
    congr 2
    split <;> omega
  have hnone : ∀ d ∈ ([] : List Char), d.isDigit := by simp
  rw [htext, readAtom_signed _ (isWhole_toDigits _) hnone (.inl rfl) hrest, hvalue]

/-! ## Numbers with a fraction or an exponent -/

/-- The text is a number that is not written as an integer. -/
def IsFloatText (text : List Char) : Prop :=
  ∃ whole fraction exponent, text = numberText whole fraction exponent ∧ IsWhole whole ∧
    (∀ d ∈ fraction, d.isDigit) ∧ IsExponent exponent ∧
    (fraction ≠ [] ∨ (exponentPart exponent).isSome)

theorem isSome_exponentPart (h : IsExponent exponent) (hne : exponent ≠ []) :
    (exponentPart exponent).isSome := by
  have hsize := (exponentPart_append h stops_nil).2
  cases hpart : exponentPart exponent with
  | none =>
    rw [hpart] at hsize
    exact absurd (List.length_eq_zero_iff.1 hsize.symm) hne
  | some r => rfl

theorem isDigit_of_mem_replicate {k : Nat} {d : Char} (h : d ∈ List.replicate k '0') : d.isDigit := by
  rw [List.eq_of_mem_replicate h]
  decide

variable {d : Decimal.Digits} {c : Char} {ds : List Char}

theorem isFloatText_positional (hdigits : d.digits = c :: ds) (hc : c ≠ '0')
    (hall : ∀ a ∈ c :: ds, a.isDigit) : IsFloatText (Decimal.positional d) := by
  unfold Decimal.positional
  split
  · refine ⟨['0'], List.replicate (-d.point).toNat '0' ++ d.digits, [], ?_, .inl rfl, ?_, .inl rfl,
      .inl ?_⟩
    · simp [numberText, hdigits]
    · intro a ha
      rcases List.mem_append.1 ha with ha | ha
      · exact isDigit_of_mem_replicate ha
      · exact hall a (hdigits ▸ ha)
    · simp [hdigits]
  · rename_i hpoint
    have htake : d.digits.take d.point.toNat = c :: ds.take (d.point.toNat - 1) := by
      obtain ⟨k, hk⟩ : ∃ k, d.point.toNat = k + 1 := ⟨d.point.toNat - 1, by omega⟩
      rw [hdigits, hk]
      rfl
    extract_lets zeros whole fraction
    refine ⟨whole, if fraction.isEmpty then ['0'] else fraction, [], ?_, .inr ?_, ?_, .inl rfl,
      .inl ?_⟩
    · cases fraction <;> simp [numberText]
    · refine ⟨c, ds.take (d.point.toNat - 1) ++ zeros (d.point - d.digits.length), ?_, hc, ?_⟩
      · simp only [whole, htake, List.cons_append]
      · intro a ha
        rcases List.mem_cons.1 ha with rfl | ha
        · exact hall _ (.head _)
        rcases List.mem_append.1 ha with ha | ha
        · exact hall a (.tail _ (List.take_subset _ _ ha))
        · exact isDigit_of_mem_replicate ha
    · intro a ha
      split at ha
      · rw [List.mem_singleton.1 ha]
        decide
      · exact hall a (hdigits ▸ List.drop_subset _ _ ha)
    · split
      · simp
      · rename_i h
        simpa using h

theorem isFloatText_scientific (hdigits : d.digits = c :: ds) (hc : c ≠ '0')
    (hall : ∀ a ∈ c :: ds, a.isDigit) : IsFloatText (Decimal.scientific d) := by
  have hfirst : ∀ a ∈ [c], a.isDigit := by simpa using hall c (.head _)
  have hexponent (sign : Char) (k : Nat) (e : Nat) (hsign : sign = '-' ∨ sign = '+') :
      IsExponent ('e' :: sign :: (List.replicate k '0' ++ Nat.toDigits 10 e)) := by
    refine .inr ⟨sign, _, rfl, hsign, by simp [Nat.toDigits_ne_nil], fun a ha => ?_⟩
    rcases List.mem_append.1 ha with ha | ha
    · exact isDigit_of_mem_replicate ha
    · exact Nat.isDigit_of_mem_toDigits (by decide) (by decide) ha
  unfold Decimal.scientific
  extract_lets exponent sign size fraction
  have hsign : sign = '-' ∨ sign = '+' := by
    by_cases h : exponent < 0 <;> simp [sign, h]
  refine ⟨[c], ds, 'e' :: sign :: (List.replicate (2 - size.length) '0' ++ size), ?_,
    .inr ⟨c, [], rfl, hc, hfirst⟩, fun a ha => hall a (.tail _ ha), hexponent _ _ _ hsign,
    .inr (isSome_exponentPart (hexponent _ _ _ hsign) (by simp))⟩
  simp [fraction, numberText, hdigits]

end Json

open Json in
/-- **A number is laid out as one.** -/
theorem Binary64.write_finite {m : Nat} (hm : m ≤ 2 ^ 53) (negative : Bool) (e : Int) :
    ∃ text, IsFloatText text ∧
      Decimal.Layout.json.write (.finite negative m e) = signed negative text := by
  unfold Decimal.Layout.write
  simp only
  split
  · refine ⟨['0', '.', '0'], ⟨['0'], ['0'], [], rfl, .inl rfl, by decide, .inl rfl, .inl (by simp)⟩,
      ?_⟩
    cases negative <;> rfl
  · rename_i hzero
    have hpos : 0 < m := Nat.pos_of_ne_zero (by simpa using hzero)
    obtain ⟨c, ds, hdigits, hc, hall⟩ := Decimal.exists_digits_shortest hpos hm e
    refine ⟨_, ?_, rfl⟩
    split
    · exact isFloatText_positional hdigits hc hall
    · exact isFloatText_scientific hdigits hc hall

/-- The number that is read where a number has been written. -/
def Binary64.reread (x : Binary64) : Binary64 :=
  match (Json.readAtom (Decimal.Layout.json.write x)).2 with
  | .atom (.float y) => y
  | _ => x

open Json in
/-- **Every number is read back as some number**, which is `reread`. -/
theorem Binary64.readAtom_write {x : Binary64} (hx : x.Fits) {rest : List Char}
    (hrest : Stops rest) :
    readAtom (Decimal.Layout.json.write x ++ rest) =
      ((Decimal.Layout.json.write x).length, .atom (.float x.reread)) := by
  cases hx with
  | notANumber => rfl
  | infinity negative => cases negative <;> rfl
  | finite negative m e hm =>
    obtain ⟨text, ⟨whole, fraction, exponent, rfl, hwhole, hfraction, hexponent, hsome⟩, hwrite⟩ :=
      write_finite hm negative e
    obtain ⟨y, -, hy⟩ := exists_magnitudeToken negative whole hsome
    have hread {rest : List Char} (hrest : Stops rest) :=
      readAtom_signed negative hwhole hfraction hexponent hrest
    have hreread : (finite negative m e).reread = y := by
      have hself := hread stops_nil
      rw [List.append_nil] at hself
      unfold reread
      rw [hwrite, hself, hy]
    rw [hwrite, hread hrest, hy, hreread]

end Scaffold
