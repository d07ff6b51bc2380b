import Scaffold.Json.Parser
import Scaffold.Proofs.Outcomes
import Scaffold.Proofs.Text.Wide
import Mathlib.Data.List.Basic

/-!
# Where a fault lies

A fault of a JSON text lies at one of its characters, or at its end. Each token is cut from the
characters that are left, and a broken string shows its fault at one of them, so the machine never
points behind the text.
-/

namespace Scaffold.Json

variable {s : List Char} {r : Reading} {t : Token} {problem : Problem}

/-! ## Tokens -/

/-- A token is cut from at most `n` characters, and if it is broken, so is what it shows. -/
structure Token.Within (n : Nat) (r : Nat × Token) : Prop where
  /-- the characters of the token -/
  size : r.1 ≤ n
  /-- the place of its fault -/
  fault {fault : StringFault} {offset : Nat} : r.2 = .broken fault offset → offset ≤ n

theorem Token.Within.mono {n m : Nat} {r : Nat × Token} (h : Token.Within n r) (hm : n ≤ m) :
    Token.Within m r :=
  ⟨Nat.le_trans h.size hm, fun hr => Nat.le_trans (h.fault hr) hm⟩

theorem length_of_readUnit? {n : Nat} (h : readUnit? s = some n) : 5 ≤ s.length := by
  unfold readUnit? at h
  split at h
  · simp
  · cases h

/-- A second half of a pair is read from seven characters at least. -/
theorem length_of_readLowSurrogate (h : readLowSurrogate s ≠ some none) : 7 ≤ s.length := by
  unfold readLowSurrogate at h
  split at h
  · split at h
    · exact absurd rfl h
    · simp
      omega
  · exact absurd rfl h

theorem length_of_readEscape {e : CodePoint} {n : Nat} (h : readEscape s = .ok (e, n)) :
    n ≤ s.length := by
  unfold readEscape at h
  split at h
  · rename_i digits
    split at h
    · cases h
    rename_i k hunit
    have hdigits := length_of_readUnit? hunit
    split at h
    · split at h
      · cases h
      · obtain ⟨-, rfl⟩ := Prod.mk.inj (Except.ok.inj h)
        simp
        omega
      · rename_i low hlow
        obtain ⟨-, rfl⟩ := Prod.mk.inj (Except.ok.inj h)
        have hlength := length_of_readLowSurrogate (s := digits.drop 4) (by simp [hlow])
        simp only [List.length_drop] at hlength
        simp
        omega
    · obtain ⟨-, rfl⟩ := Prod.mk.inj (Except.ok.inj h)
      simp
      omega
  · split at h
    · obtain ⟨-, rfl⟩ := Prod.mk.inj (Except.ok.inj h)
      simp
    · cases h
  · cases h

theorem distance_of_readEscape {fault : StringFault} {distance : Nat}
    (h : readEscape s = .error (fault, distance)) : distance ≤ s.length := by
  unfold readEscape at h
  split at h
  · rename_i digits
    split at h
    · cases h
      simp
    split at h
    · split at h
      · rename_i hlow
        cases h
        have hlength := length_of_readLowSurrogate (s := digits.drop 4) (by simp [hlow])
        simp only [List.length_drop] at hlength
        simp
        omega
      · cases h
      · cases h
    · cases h
  · split at h
    · cases h
    · cases h
      exact Nat.zero_le _
  · cases h
    exact Nat.zero_le _

variable {γ : Type} [Letter γ]

theorem within_readText (size : Nat) (acc : List CodePoint) (s : List γ) :
    Token.Within (size + s.length) (readText size acc s) := by
  fun_induction readText size acc s with
  | case1 => exact ⟨Nat.zero_le _, fun h => by cases h; omega⟩
  | case2 => exact ⟨by simp, nofun⟩
  | case3 => exact ⟨Nat.zero_le _, fun h => by cases h; omega⟩
  | case4 size acc c rest _ _ _ e n hescape ih =>
    have hn := length_of_readEscape hescape
    rw [Letter.length_chars] at hn
    refine ih.mono ?_
    simp only [List.length_drop, List.length_cons]
    omega
  | case5 size acc c rest _ _ _ fault distance hescape =>
    have hdistance := distance_of_readEscape hescape
    rw [Letter.length_chars] at hdistance
    exact ⟨Nat.zero_le _, fun h => by cases h; simp; omega⟩
  | case6 => exact ⟨Nat.zero_le _, fun h => by cases h; simp⟩
  | case7 size acc c rest _ _ _ ih =>
    refine ih.mono ?_
    simp only [List.length_cons]
    omega

theorem length_takeWhile_isDigit (s : List Char) : (s.takeWhile Char.isDigit).length ≤ s.length :=
  (List.takeWhile_prefix _).length_le

theorem length_wholePart (s : List Char) : (wholePart s).length ≤ s.length := by
  unfold wholePart
  split
  · simp
  · exact length_takeWhile_isDigit _

/-- The mark of a fraction is there with its digits. -/
theorem length_fractionPart (h : (fractionPart s).isEmpty = false) :
    1 + (fractionPart s).length ≤ s.length := by
  unfold fractionPart at h ⊢
  split
  · rename_i s
    have hdigits := length_takeWhile_isDigit s
    simp only [List.length_cons]
    omega
  · simp at h

theorem length_exponentPart {e : Nat × Int} (h : exponentPart s = some e) : e.1 ≤ s.length := by
  unfold exponentPart at h
  split at h
  · rename_i mark s
    split at h
    · split at h
      rename_i sign digits heq
      split at h
      · cases h
      · obtain rfl := Option.some.inj h
        have hsigned : (if sign.isSome then 1 else 0) + digits.length ≤ s.length := by
          split at heq
          all_goals
            obtain ⟨rfl, rfl⟩ := Prod.mk.inj heq
            have hdigits := length_takeWhile_isDigit
            grind
        simp only [List.length_cons]
        omega
    · cases h
  · cases h

/-- Words and numbers are cut from the text, and are not broken. -/
theorem within_readMagnitude (negative : Bool) (s : List Char) :
    (readMagnitude negative s).1 ≤ s.length ∧
      ∀ fault offset, (readMagnitude negative s).2 ≠ .broken fault offset := by
  unfold readMagnitude
  extract_lets whole afterWhole fraction markSize exponent size digits power
  have hwhole : whole.length ≤ s.length := length_wholePart s
  have hmark : markSize ≤ s.length - whole.length := by
    have hfraction : fraction.isEmpty = false → 1 + fraction.length ≤ afterWhole.length :=
      length_fractionPart
    rw [List.length_drop] at hfraction
    cases hempty : fraction.isEmpty with
    | true => simp [markSize, hempty]
    | false => simpa [markSize, hempty] using hfraction hempty
  have hexponent : (exponent.map Prod.fst).getD 0 ≤ s.length - whole.length - markSize := by
    cases he : exponent with
    | none => simp
    | some e =>
      have hle := length_exponentPart he
      rwa [List.length_drop, List.length_drop] at hle
  have hsize : size ≤ s.length := by
    change whole.length + markSize + (exponent.map Prod.fst).getD 0 ≤ s.length
    omega
  split
  · exact ⟨Nat.zero_le _, nofun⟩
  · split
    · exact ⟨hsize, nofun⟩
    · exact ⟨hsize, nofun⟩

theorem within_readAtom (s : List Char) :
    (readAtom s).1 ≤ s.length ∧ ∀ fault offset, (readAtom s).2 ≠ .broken fault offset := by
  unfold readAtom
  split
  · rename_i r hword
    obtain ⟨w, hw, rfl⟩ := Option.map_eq_some_iff.1 hword
    have hprefix := List.find?_some hw
    exact ⟨(List.isPrefixOf_iff_prefix.1 hprefix).length_le, nofun⟩
  · split
    · rename_i digits _
      obtain ⟨hsize, hwhole⟩ := within_readMagnitude true digits
      exact ⟨Nat.succ_le_succ hsize, hwhole⟩
    · exact within_readMagnitude false _

/-- **A token shows no place behind the text** that it is cut from. -/
theorem within_readToken (c : γ) (rest : List γ) :
    Token.Within rest.length (readToken c rest) := by
  have hmark (t : Token) (ht : t.continues) : Token.Within rest.length (0, t) :=
    ⟨Nat.zero_le _, fun h => by cases h; cases ht⟩
  unfold readToken
  split
  · have hlength := (List.takeWhile_prefix isJsonBlank (l := Letter.chars rest)).length_le
    rw [Letter.length_chars] at hlength
    exact ⟨hlength, nofun⟩
  split
  all_goals try exact hmark _ rfl
  · simpa using within_readText 0 [] rest
  · obtain ⟨hsize, hwhole⟩ := within_readAtom (Letter.chars (c :: rest))
    rw [Letter.length_chars] at hsize
    exact ⟨Nat.sub_le_of_le_add hsize, fun h => absurd h (hwhole _ _)⟩

/-! ## The machine -/

/-- A token is refused at its start, or where it is broken. -/
theorem distance_of_step {distance : Nat} (h : r.step t = .error (problem, distance)) :
    distance = 0 ∨ ∃ fault, t = .broken fault distance := by
  unfold Reading.step beginValue endValue at h
  grind

theorem offset_of_finish {offset place : Nat}
    (h : (r.finish.mapError (·, offset) : Except Refusal Json) = .error (problem, place)) :
    place = offset := by
  obtain ⟨e, -, he⟩ := mapError_eq_error_iff.1 h
  cases he
  rfl

/-- The machine stops at a token or at the end. -/
theorem offset_of_run {s : List γ} {offset place : Nat}
    (h : r.run offset (tokens s) = .error (problem, place)) :
    place ≤ offset + s.length := by
  fun_induction tokens s generalizing r offset with
  | case1 => exact Nat.le_of_eq (offset_of_finish h)
  | case2 c rest size token hread ih =>
    have hwithin : Token.Within rest.length (size, token) := hread ▸ within_readToken c rest
    have hsize : size ≤ rest.length := hwithin.size
    rw [Reading.run] at h
    simp only [List.length_cons]
    cases hstep : r.step token with
    | error e =>
      obtain ⟨problem', distance⟩ := e
      rw [hstep] at h
      cases h
      rcases distance_of_step hstep with rfl | ⟨fault, rfl⟩
      · omega
      · have hdistance := hwithin.fault rfl
        omega
    | ok next =>
      rw [hstep] at h
      change next.run _ _ = _ at h
      split at h
      · have hplace := ih h
        rw [List.length_drop] at hplace
        omega
      · have hplace := offset_of_finish h
        omega

/-- **A fault lies in the text**, at a character or at the end, and its line is that of its place. -/
theorem place_of_parse {text : Wide} {fault : SyntaxFault} (h : parse text = .error fault) :
    fault.offset ≤ text.points.length ∧
      fault.line = lineAfter ((Letter.chars text.points).take fault.offset) := by
  obtain ⟨⟨problem, place⟩, hletters, rfl⟩ := mapError_eq_error_iff.1 h
  refine ⟨?_, rfl⟩
  change place ≤ _
  unfold parseLetters at hletters
  split at hletters
  · cases hletters
    exact Nat.zero_le _
  · simpa using offset_of_run hletters

end Scaffold.Json
