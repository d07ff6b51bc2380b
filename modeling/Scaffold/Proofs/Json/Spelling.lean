import Scaffold.Proofs.Entries
import Scaffold.Proofs.Json.Letters
import Scaffold.Proofs.Json.RoundTrip

/-!
# The texts of a value

Which texts stand for a value, said by the grammar of JSON and not by a reader: a value is spelled by a
sequence of lexemes, and a text lays the lexemes out with blanks between them.

* **One value, many spellings.** A character of a string may be escaped or not, and an integer may
  have a minus sign before its zero. Half of a surrogate pair may stand without the other, and is then a
  place of the string by itself. Of several members with one key the last value counts, at the
  first position.
* **The reader accepts the grammar.** A text that lays out a spelling of a value is read as that
  value (`parse_of_spaced`). The proof follows the derivation, and takes the machine from the state
  before each phrase to the state after it.
* **Floats are left out**: a number here is an integer.
-/

namespace Scaffold.Json

/-! ## Strings -/

/-- The letters that may follow a backslash, and the characters they stand for. -/
def shortEscapes : List (Char × Char) :=
  [('"', '"'), ('\\', '\\'), ('/', '/'), ('b', '\x08'), ('f', '\x0c'), ('n', '\n'), ('r', '\r'),
   ('t', '\t')]

/-- The character is the digit of either case for a number below sixteen. -/
def IsHexDigit (c : Char) (k : Nat) : Prop :=
  "0123456789abcdef".toList[k]? = some c ∨ "0123456789ABCDEF".toList[k]? = some c

/-- The four hexadecimal digits of a number. -/
inductive SpellsUnit : List Char → Nat → Prop
  | mk {a b c d : Char} {i j k l : Nat} (ha : IsHexDigit a i) (hb : IsHexDigit b j)
      (hc : IsHexDigit c k) (hd : IsHexDigit d l) :
      SpellsUnit [a, b, c, d] (4096 * i + 256 * j + 16 * k + l)

/-- What stands between the quotation marks of a string with the given code points. -/
inductive SpellsChars : List Char → List CodePoint → Prop
  /-- nothing -/
  | nil : SpellsChars [] []
  /-- a character that stands for itself -/
  | plain {c : Char} {body : List Char} {s : List CodePoint} (hquote : c ≠ '"') (hslash : c ≠ '\\')
      (hcontrol : 0x20 ≤ c.toNat) (h : SpellsChars body s) : SpellsChars (c :: body) (.char c :: s)
  /-- a letter after a backslash -/
  | short {e c : Char} {body : List Char} {s : List CodePoint} (he : (e, c) ∈ shortEscapes)
      (h : SpellsChars body s) : SpellsChars ('\\' :: e :: body) (.char c :: s)
  /-- the number of a character, which is not half of a surrogate pair -/
  | unit {digits body : List Char} {s : List CodePoint} {n : Nat} (hn : SpellsUnit digits n)
      (hwhole : n < 0xD800 ∨ 0xDFFF < n) (h : SpellsChars body s) :
      SpellsChars ('\\' :: 'u' :: (digits ++ body)) (.char (Char.ofNat n) :: s)
  /-- half of a surrogate pair without the other half -/
  | lone {digits body : List Char} {s : List CodePoint} {n : Nat} (hn : SpellsUnit digits n)
      (hhalf : 0xD800 ≤ n ∧ n < 0xE000)
      (halone : n < 0xDC00 → ∀ low after j, body = '\\' :: 'u' :: (low ++ after) →
        j < 0x400 → ¬ SpellsUnit low (0xDC00 + j)) (h : SpellsChars body s) :
      SpellsChars ('\\' :: 'u' :: (digits ++ body)) (.half ⟨n, hhalf⟩ :: s)
  /-- the two halves of the number of a character -/
  | pair {high low body : List Char} {s : List CodePoint} {i j : Nat} (hi : i < 0x400) (hj : j < 0x400)
      (hhigh : SpellsUnit high (0xD800 + i)) (hlow : SpellsUnit low (0xDC00 + j))
      (h : SpellsChars body s) :
      SpellsChars ('\\' :: 'u' :: (high ++ '\\' :: 'u' :: (low ++ body)))
        (.char (Char.ofNat (0x10000 + i * 0x400 + j)) :: s)

/-- A string with its quotation marks. -/
def SpellsText (lexeme : List Char) (s : Wide) : Prop :=
  ∃ body, lexeme = '"' :: (body ++ ['"']) ∧ SpellsChars body s.points

/-! ## Numbers -/

/-- An integer: digits without leading zeros, after a minus sign or not. -/
def SpellsInt (lexeme : List Char) (i : Int) : Prop :=
  ∃ negative whole, lexeme = signed negative whole ∧ IsWhole whole ∧
    i = if negative then -(Nat.ofDigitChars 10 whole 0 : Int) else Nat.ofDigitChars 10 whole 0

/-! ## Values -/

/-- What a sequence of lexemes may spell. -/
inductive Phrase where
  /-- a value -/
  | value (v : Json)
  /-- the items of a list that is not empty -/
  | items (vs : List Json)
  /-- the members of an object that is not empty, as they are listed -/
  | members (ms : List (Wide × Json))

/-- The grammar of JSON. -/
inductive Spells : List (List Char) → Phrase → Prop
  | null : Spells ["null".toList] (.value .null)
  | true : Spells ["true".toList] (.value (.bool true))
  | false : Spells ["false".toList] (.value (.bool false))
  | int {lexeme : List Char} {i : Int} (h : SpellsInt lexeme i) : Spells [lexeme] (.value (.int i))
  | str {lexeme : List Char} {s : Wide} (h : SpellsText lexeme s) : Spells [lexeme] (.value (.str s))
  | emptyArr : Spells [['['], [']']] (.value (.arr []))
  | arr {ls : List (List Char)} {vs : List Json} (h : Spells ls (.items vs)) :
      Spells (['['] :: (ls ++ [[']']])) (.value (.arr vs))
  | emptyObj : Spells [['\x7b'], ['\x7d']] (.value (.obj []))
  | obj {ls : List (List Char)} {ms : List (Wide × Json)} (h : Spells ls (.members ms)) :
      Spells (['\x7b'] :: (ls ++ [['\x7d']])) (.value (.obj (Entries.ofPairs ms)))
  | item {ls : List (List Char)} {v : Json} (h : Spells ls (.value v)) : Spells ls (.items [v])
  | moreItems {ls ls' : List (List Char)} {v : Json} {vs : List Json} (h : Spells ls (.items vs))
      (hlast : Spells ls' (.value v)) : Spells (ls ++ [','] :: ls') (.items (vs ++ [v]))
  | member {key : List Char} {k : Wide} {ls : List (List Char)} {v : Json}
      (hkey : SpellsText key k) (h : Spells ls (.value v)) :
      Spells (key :: [':'] :: ls) (.members [(k, v)])
  | moreMembers {key : List Char} {k : Wide} {ls ls' : List (List Char)} {v : Json}
      {ms : List (Wide × Json)} (h : Spells ls (.members ms)) (hkey : SpellsText key k)
      (hlast : Spells ls' (.value v)) :
      Spells (ls ++ [','] :: key :: [':'] :: ls') (.members (ms ++ [(k, v)]))

/-- The text lays the lexemes out, with blanks before, between and after them. -/
inductive Spaced : List (List Char) → List Char → Prop
  | nil : Spaced [] []
  | blank {c : Char} {ls : List (List Char)} {text : List Char} (hc : isJsonBlank c)
      (h : Spaced ls text) : Spaced ls (c :: text)
  | lexeme (l : List Char) {ls : List (List Char)} {text : List Char} (h : Spaced ls text) :
      Spaced (l :: ls) (l ++ text)

variable {ls ms : List (List Char)} {l text rest body tail : List Char} {v : Json}

theorem Spaced.nil_iff : Spaced [] text ↔ ∀ c ∈ text, isJsonBlank c := by
  constructor
  · intro h
    generalize hls : ([] : List (List Char)) = ls at h
    induction h with
    | nil => nofun
    | blank hc _ ih => exact List.forall_mem_cons.2 ⟨hc, ih hls⟩
    | lexeme => cases hls
  · intro h
    induction text with
    | nil => exact .nil
    | cons c text ih =>
      exact .blank (h c (.head _)) (ih fun d hd => h d (.tail _ hd))

/-- The first lexeme of a text, with the blanks before it. -/
theorem Spaced.exists_cons (h : Spaced (l :: ls) text) :
    ∃ blanks after, (∀ c ∈ blanks, isJsonBlank c) ∧ text = blanks ++ (l ++ after) ∧
      Spaced ls after := by
  generalize hls : l :: ls = lexemes at h
  induction h with
  | nil => cases hls
  | @blank c _ text hc _ ih =>
    obtain ⟨blanks, after, hblanks, rfl, hafter⟩ := ih hls
    exact ⟨c :: blanks, after, List.forall_mem_cons.2 ⟨hc, hblanks⟩, rfl, hafter⟩
  | @lexeme l _ text h =>
    cases hls
    exact ⟨[], text, nofun, rfl, h⟩

theorem Spaced.blanks {blanks : List Char} (hblanks : ∀ c ∈ blanks, isJsonBlank c)
    (h : Spaced ls text) : Spaced ls (blanks ++ text) := by
  induction blanks with
  | nil => exact h
  | cons c blanks ih =>
    exact .blank (hblanks c (.head _)) (ih fun d hd => hblanks d (.tail _ hd))

/-- The text of a sequence of lexemes is that of its first part and that of the rest. -/
theorem Spaced.exists_append (h : Spaced (ls ++ ms) text) :
    ∃ before after, text = before ++ after ∧ Spaced ls before ∧ Spaced ms after := by
  induction ls generalizing text with
  | nil => exact ⟨[], text, rfl, .nil, h⟩
  | cons l ls ih =>
    obtain ⟨blanks, rest, hblanks, rfl, hrest⟩ := h.exists_cons
    obtain ⟨before, after, rfl, hbefore, hafter⟩ := ih hrest
    exact ⟨blanks ++ (l ++ before), after, by simp, .blanks hblanks (.lexeme l hbefore), hafter⟩

/-! ## Reading strings -/

theorem hexValue?_of_isHexDigit {c : Char} {k : Nat} (h : IsHexDigit c k) : hexValue? c = some k := by
  have hlower : ∀ i : Fin 16, hexValue? ("0123456789abcdef".toList.get i) = some i.val := by decide
  have hupper : ∀ i : Fin 16, hexValue? ("0123456789ABCDEF".toList.get i) = some i.val := by decide
  rcases h with h | h <;> obtain ⟨hk, rfl⟩ := List.getElem?_eq_some_iff.1 h
  · exact hlower ⟨k, hk⟩
  · exact hupper ⟨k, hk⟩

/-- The digits of a number are read, if a character follows them. -/
theorem readUnit?_of_spells {digits : List Char} {n : Nat} (h : SpellsUnit digits n)
    (htail : tail ≠ []) : readUnit? (digits ++ tail) = some n := by
  obtain ⟨d, tail, rfl⟩ := List.exists_cons_of_ne_nil htail
  cases h with
  | mk ha hb hc hd =>
    simp [readUnit?, hex4?, hexValue?_of_isHexDigit ha, hexValue?_of_isHexDigit hb,
      hexValue?_of_isHexDigit hc, hexValue?_of_isHexDigit hd]

theorem SpellsUnit.length_eq {digits : List Char} {n : Nat} (h : SpellsUnit digits n) :
    digits.length = 4 := by
  cases h
  rfl

theorem escaped?_of_mem {e c : Char} (h : (e, c) ∈ shortEscapes) : escaped? e = some c ∧ e ≠ 'u' := by
  have hall : ∀ p ∈ shortEscapes, escaped? p.1 = some p.2 ∧ p.1 ≠ 'u' := by decide
  exact hall (e, c) h

theorem readEscape_short {e c : Char} (h : (e, c) ∈ shortEscapes) :
    readEscape (e :: tail) = .ok (.char c, 1) := by
  obtain ⟨hc, hu⟩ := escaped?_of_mem h
  rw [readEscape]
  · simp [hc]
  · exact fun h => hu h

theorem readEscape_unit {digits : List Char} {n : Nat} (hn : SpellsUnit digits n)
    (hwhole : n < 0xD800 ∨ 0xDFFF < n) (htail : tail ≠ []) :
    readEscape ('u' :: (digits ++ tail)) = .ok (.char (Char.ofNat n), 5) := by
  have hhigh : isHighSurrogate n = false := by simp [isHighSurrogate]; omega
  have hnone : ¬ (0xD800 ≤ n ∧ n < 0xE000) := by omega
  rw [readEscape, readUnit?_of_spells hn htail]
  simp [hhigh, hnone, ofUnit]

theorem readEscape_pair {high low : List Char} {i j : Nat} (hi : i < 0x400) (hj : j < 0x400)
    (hhigh : SpellsUnit high (0xD800 + i)) (hlow : SpellsUnit low (0xDC00 + j)) (htail : tail ≠ []) :
    readEscape ('u' :: (high ++ '\\' :: 'u' :: (low ++ tail))) =
      .ok (.char (Char.ofNat (0x10000 + i * 0x400 + j)), 11) := by
  have hisHigh : isHighSurrogate (0xD800 + i) = true := by simp [isHighSurrogate]; omega
  have hisLow : isLowSurrogate (0xDC00 + j) = true := by simp [isLowSurrogate]; omega
  have hdrop : (high ++ '\\' :: 'u' :: (low ++ tail)).drop 4 = '\\' :: 'u' :: (low ++ tail) := by
    rw [← hhigh.length_eq, List.drop_left]
  have hlong : ¬ (low ++ tail).length < 5 := by
    have := List.length_pos_of_ne_nil htail
    rw [List.length_append, hlow.length_eq]
    omega
  have hsecond : readLowSurrogate ('\\' :: 'u' :: (low ++ tail)) = some (some (0xDC00 + j)) := by
    rw [readLowSurrogate, if_neg hlong, readUnit?_of_spells hlow htail, Option.map_some, if_pos hisLow]
  have hjoined : joinSurrogates (0xD800 + i) (0xDC00 + j) = Char.ofNat (0x10000 + i * 0x400 + j) := by
    simp [joinSurrogates]
  rw [readEscape, readUnit?_of_spells hhigh (by simp)]
  simp only [hisHigh, if_true, hdrop, hsecond, hjoined]

/-- No second half is found after a first half that is alone. -/
theorem readLowSurrogate_of_spells {s : List CodePoint} (h : SpellsChars body s)
    (halone : ∀ low after j, body = '\\' :: 'u' :: (low ++ after) →
      j < 0x400 → ¬ SpellsUnit low (0xDC00 + j)) :
    readLowSurrogate (body ++ '"' :: rest) = some none := by
  -- the digits of an escape are read, since the closing mark follows them at the latest
  have hunit {digits : List Char} {n : Nat} (hn : SpellsUnit digits n)
      (hlow : isLowSurrogate n = false) (after : List Char) :
      readLowSurrogate ('\\' :: 'u' :: (digits ++ (after ++ '"' :: rest))) = some none := by
    have hlong : ¬ (digits ++ (after ++ '"' :: rest)).length < 5 := by
      simp [hn.length_eq]
      omega
    rw [readLowSurrogate, if_neg hlong, readUnit?_of_spells hn (by simp), Option.map_some, hlow]
    rfl
  cases h with
  | nil => rfl
  | plain _ hslash =>
    rw [List.cons_append, readLowSurrogate]
    rintro digits h
    exact hslash (List.cons.inj h).1
  | short he =>
    rw [List.cons_append, List.cons_append, readLowSurrogate]
    rintro digits h
    exact (escaped?_of_mem he).2 (List.cons.inj (List.cons.inj h).2).1
  | unit hn hwhole =>
    rw [List.cons_append, List.cons_append, List.append_assoc]
    exact hunit hn (by simp [isLowSurrogate]; omega) _
  | @lone digits after _ n hn hhalf =>
    rw [List.cons_append, List.cons_append, List.append_assoc]
    refine hunit hn ?_ after
    -- were it a second half, the first one would not be alone
    by_contra hlow
    simp only [isLowSurrogate, Bool.not_eq_false, Bool.and_eq_true, decide_eq_true_eq] at hlow
    obtain ⟨j, rfl⟩ := Nat.exists_eq_add_of_le hlow.1
    exact halone digits after j rfl (by omega) hn
  | @pair high low after _ i j hi _ hhigh _ =>
    rw [List.cons_append, List.cons_append, List.append_assoc]
    exact hunit hhigh (by simp [isLowSurrogate]; omega) ('\\' :: 'u' :: (low ++ after))

theorem readEscape_lone {digits : List Char} {n : Nat} {s : List CodePoint} (hn : SpellsUnit digits n)
    (hhalf : 0xD800 ≤ n ∧ n < 0xE000) (h : SpellsChars body s)
    (halone : n < 0xDC00 → ∀ low after j, body = '\\' :: 'u' :: (low ++ after) →
      j < 0x400 → ¬ SpellsUnit low (0xDC00 + j)) :
    readEscape ('u' :: (digits ++ (body ++ '"' :: rest))) = .ok (.half ⟨n, hhalf⟩, 5) := by
  have hdrop : (digits ++ (body ++ '"' :: rest)).drop 4 = body ++ '"' :: rest := by
    rw [← hn.length_eq, List.drop_left]
  rw [readEscape, readUnit?_of_spells hn (by simp)]
  rcases Nat.lt_or_ge n 0xDC00 with hlt | hge
  · have hhigh : isHighSurrogate n = true := by simp [isHighSurrogate]; omega
    have hnone : readLowSurrogate (body ++ '"' :: rest) = some none :=
      readLowSurrogate_of_spells h (halone hlt)
    simp only [hhigh, if_true, hdrop, hnone, ofUnit, dif_pos hhalf]
  · have hhigh : isHighSurrogate n = false := by simp [isHighSurrogate]; omega
    simp [hhigh, ofUnit, hhalf]

/-- The text before a closing mark is read as the given code points, whatever was read before it. -/
def ReadsChars (body : List Char) (s : List CodePoint) (rest : List Char) : Prop :=
  ∀ size acc, readText size acc (body ++ '"' :: rest) =
    (size + body.length + 1, .text (.ofPoints (acc.reverse ++ s)))

theorem ReadsChars.plain {c : Char} {s : List CodePoint} (h : ReadsChars body s rest)
    (hquote : c ≠ '"') (hslash : c ≠ '\\') (hcontrol : 0x20 ≤ c.toNat) :
    ReadsChars (c :: body) (.char c :: s) rest := by
  intro size acc
  rw [List.cons_append, readText_plain hquote hslash (Nat.not_lt.2 hcontrol), h]
  refine Prod.ext ?_ (by simp)
  simp only [List.length_cons]
  omega

theorem ReadsChars.escape {s : List CodePoint} {p : CodePoint} (h : ReadsChars body s rest)
    (escape : List Char) (hne : escape ≠ [])
    (hread : readEscape (escape ++ (body ++ '"' :: rest)) = .ok (p, escape.length)) :
    ReadsChars ('\\' :: (escape ++ body)) (p :: s) rest := by
  intro size acc
  have hslash : Letter.char '\\' = '\\' := rfl
  rw [← Letter.chars_chars (escape ++ _)] at hread
  rw [List.cons_append, List.append_assoc, readText_escape_append hslash hne hread, h]
  refine Prod.ext ?_ (by simp)
  simp only [List.length_cons, List.length_append]
  omega

/-- **What spells a string is read as that string**, as far as its closing mark. -/
theorem readsChars_of_spells {s : List CodePoint} (h : SpellsChars body s) (rest : List Char) :
    ReadsChars body s rest := by
  have htail (body : List Char) : body ++ '"' :: rest ≠ [] := by simp
  induction h with
  | nil =>
    intro size acc
    rw [List.nil_append, readText]
    simp
  | plain hquote hslash hcontrol _ ih => exact ih.plain hquote hslash hcontrol
  | @short e c body s he _ ih =>
    exact ih.escape [e] (by simp) (readEscape_short he)
  | @unit digits body s n hn hwhole _ ih =>
    refine ih.escape ('u' :: digits) (by simp) ?_
    rw [List.length_cons, hn.length_eq]
    exact readEscape_unit hn hwhole (htail body)
  | @lone digits body s n hn hhalf halone h ih =>
    refine ih.escape ('u' :: digits) (by simp) ?_
    rw [List.length_cons, hn.length_eq]
    exact readEscape_lone hn hhalf h halone
  | @pair high low body s i j hi hj hhigh hlow _ ih =>
    have hpair := ih.escape ('u' :: (high ++ '\\' :: 'u' :: low)) (by simp)
      (p := .char (Char.ofNat (0x10000 + i * 0x400 + j))) ?_
    · simpa using hpair
    · have hread := readEscape_pair hi hj hhigh hlow (htail body)
      simpa [hhigh.length_eq, hlow.length_eq] using hread

/-! ## Reading lexemes -/

variable {t : Token} {r q q' : Reading} {frames : List Frame} {ph : Phrase}

theorem cuts_of_spellsText {s : Wide} (h : SpellsText l s) (rest : List Char) :
    Cuts l (.text s) rest := by
  obtain ⟨body, rfl, hbody⟩ := h
  have hread := readsChars_of_spells hbody rest 0 []
  refine cuts_of_readToken ?_ rfl
  simpa [readToken, isJsonBlank] using hread

theorem cuts_of_spellsInt {i : Int} (h : SpellsInt l i) (hrest : Stops rest) :
    Cuts l (.atom (.int i)) rest := by
  obtain ⟨negative, whole, rfl, hwhole, rfl⟩ := h
  have hfraction : ∀ d ∈ ([] : List Char), d.isDigit := nofun
  have hread := readAtom_signed negative hwhole hfraction (.inl rfl) hrest
  have htext : numberText whole [] [] = whole := by simp [numberText]
  have hvalue : magnitudeToken negative whole [] [] = .atom (.int
      (if negative then -(Nat.ofDigitChars 10 whole 0 : Int) else Nat.ofDigitChars 10 whole 0)) := by
    simp [magnitudeToken, exponentPart]
  rw [htext, hvalue, ← Letter.chars_chars (_ ++ rest)] at hread
  obtain ⟨c, ds, rfl, hc⟩ := exists_digit_of_isWhole hwhole
  cases negative with
  | true => exact cuts_atom (.inr (by decide)) hread
  | false => exact cuts_atom (.inl hc) hread

theorem stops_blanks {blanks : List Char} (hblanks : ∀ c ∈ blanks, isJsonBlank c)
    (hrest : Stops rest) : Stops (blanks ++ rest) := by
  cases blanks with
  | nil => exact hrest
  | cons c blanks =>
    have hall : ∀ c ∈ [' ', '\t', '\n', '\r'], c.isDigit = false ∧ c ≠ '.' ∧ c ≠ 'e' ∧ c ≠ 'E' := by
      decide
    have hc : c ∈ [' ', '\t', '\n', '\r'] := by
      have := hblanks c (.head _)
      simp only [isJsonBlank, Bool.or_eq_true, beq_iff_eq] at this
      simp only [List.mem_cons, List.not_mem_nil, or_false]
      tauto
    exact stops_cons (hall c hc).1 (hall c hc).2

/-- A text whose first lexeme begins with no character of a number. -/
theorem Spaced.stops {c : Char} (h : Spaced ((c :: l) :: ls) text) (hc : Stops [c]) :
    Stops (text ++ rest) := by
  obtain ⟨blanks, after, hblanks, rfl, -⟩ := h.exists_cons
  rw [List.append_assoc]
  exact stops_blanks hblanks fun d hd => hc d (by simpa using hd)

/-- The first lexeme of a text leads one step further, if it is cut off whatever follows. -/
theorem Spaced.leads_cons (h : Spaced (l :: ls) text) (hcuts : ∀ rest, Cuts l t rest)
    (hstep : r.step t = .ok q) :
    ∃ after, Spaced ls after ∧ ∀ rest q', Leads q after rest q' → Leads r text rest q' := by
  obtain ⟨blanks, after, hblanks, rfl, hafter⟩ := h.exists_cons
  refine ⟨after, hafter, fun rest q' hq => ?_⟩
  exact (leads_blanks hblanks r _).trans ((leads_of_cuts (hcuts _) hstep).trans hq)

/-- A text of one lexeme leads one step further. -/
theorem Spaced.leads_single (h : Spaced [l] text) (hcuts : ∀ rest, Stops rest → Cuts l t rest)
    (hstep : r.step t = .ok q) (hrest : Stops rest) : Leads r text rest q := by
  obtain ⟨blanks, after, hblanks, rfl, hafter⟩ := h.exists_cons
  have hafter' := Spaced.nil_iff.1 hafter
  have hlexeme := leads_of_cuts (hcuts (after ++ rest) (stops_blanks hafter' hrest)) hstep
  exact (leads_blanks hblanks r _).trans (hlexeme.trans (leads_blanks hafter' q rest))

theorem cuts_mark {c : Char} (hread : ∀ rest, readToken c rest = (0, t)) (hcontinues : t.continues)
    (rest : List Char) : Cuts [c] t rest :=
  cuts_of_readToken (show readToken c ([] ++ rest) = (0, t) from hread rest) hcontinues

theorem cuts_word {c : Char} {word : List Char} {v : Json} (hc : BeginsAtom c)
    (h : ∀ rest, readAtom (c :: word ++ rest) = ((c :: word).length, .atom v)) (rest : List Char) :
    Cuts (c :: word) (.atom v) rest :=
  cuts_atom hc (by rw [Letter.chars_chars, h])

/-- **Between two marks** the machine goes where the inner text leads it. -/
theorem Spaced.leads_between {c d : Char} {t' : Token}
    (h : Spaced ([c] :: (ls ++ [[d]])) text) (hopen : ∀ rest, Cuts [c] t rest)
    (hclose : ∀ rest, Cuts [d] t' rest) (hd : Stops [d]) (hstep : r.step t = .ok q)
    (hinner : ∀ {inner rest : List Char}, Spaced ls inner → Stops rest →
      ∃ p, Leads q inner rest p ∧ p.step t' = .ok q')
    (hrest : Stops rest) : Leads r text rest q' := by
  obtain ⟨after, hafter, hfirst⟩ := h.leads_cons hopen hstep
  obtain ⟨inner, close, rfl, hspaced, hmark⟩ := hafter.exists_append
  obtain ⟨p, hleads, hlast⟩ := hinner hspaced (hmark.stops hd)
  refine hfirst rest _ (hleads.trans ?_)
  exact hmark.leads_single (fun rest _ => hclose rest) hlast hrest

/-! ## Reading phrases -/

/-- The text leads the machine past a phrase: from a state in which the phrase may begin to the state
in which its last value is complete. -/
def Phrase.Leads (text rest : List Char) : Phrase → Prop
  | .value v => ∀ r frames, Begins r frames → Json.Leads r text rest ⟨frames, .after v⟩
  | .items vs => ∀ r frames, Begins r (.items [] :: frames) →
      ∃ before v, vs = (v :: before).reverse ∧
        Json.Leads r text rest ⟨.items before :: frames, .after v⟩
  | .members ms => ∀ frames mayEnd, ∃ before k v, Entries.insert k v before = Entries.ofPairs ms ∧
      Json.Leads ⟨frames, .key [] mayEnd⟩ text rest ⟨.member before k :: frames, .after v⟩

theorem ofPairs_concat (ms : List (Wide × Json)) (k : Wide) (v : Json) :
    Entries.ofPairs (ms ++ [(k, v)]) = Entries.insert k v (Entries.ofPairs ms) := by
  simp [Entries.ofPairs, Entries.insertAll]

/-- **The machine follows the grammar.** A text that lays out a spelling of a phrase leads the machine
past it, if what follows cannot go on a number. -/
theorem leads_of_spells (h : Spells ls ph) (htext : Spaced ls text) (hrest : Stops rest) :
    ph.Leads text rest := by
  induction h generalizing text rest with
  | null =>
    exact fun r frames hr => htext.leads_single
      (fun rest _ => cuts_word (.inr (by decide)) (fun _ => rfl) rest) (hr.step rfl) hrest
  | true =>
    exact fun r frames hr => htext.leads_single
      (fun rest _ => cuts_word (.inr (by decide)) (fun _ => rfl) rest) (hr.step rfl) hrest
  | false =>
    exact fun r frames hr => htext.leads_single
      (fun rest _ => cuts_word (.inr (by decide)) (fun _ => rfl) rest) (hr.step rfl) hrest
  | int h =>
    exact fun r frames hr => htext.leads_single (fun _ hrest => cuts_of_spellsInt h hrest)
      (hr.step rfl) hrest
  | str h =>
    exact fun r frames hr => htext.leads_single (fun rest _ => cuts_of_spellsText h rest)
      (hr.step rfl) hrest
  | emptyArr =>
    intro r frames hr
    obtain ⟨after, hafter, hfirst⟩ := htext.leads_cons (cuts_mark (fun _ => rfl) rfl) (hr.step rfl)
    exact hfirst rest _ (hafter.leads_single (fun rest _ => cuts_mark (fun _ => rfl) rfl rest) rfl hrest)
  | @arr ls vs _ ih =>
    intro r frames hr
    refine htext.leads_between (cuts_mark (fun _ => rfl) rfl) (cuts_mark (fun _ => rfl) rfl)
      (stops_cons (by decide) (by decide)) (hr.step rfl) ?_ hrest
    intro inner rest hinner hstops
    obtain ⟨before, v, rfl, hitems⟩ := ih hinner hstops _ _ (.firstItem frames)
    exact ⟨_, hitems, rfl⟩
  | emptyObj =>
    intro r frames hr
    obtain ⟨after, hafter, hfirst⟩ := htext.leads_cons (cuts_mark (fun _ => rfl) rfl) (hr.step rfl)
    exact hfirst rest _ (hafter.leads_single (fun rest _ => cuts_mark (fun _ => rfl) rfl rest) rfl hrest)
  | @obj ls ms _ ih =>
    intro r frames hr
    refine htext.leads_between (cuts_mark (fun _ => rfl) rfl) (cuts_mark (fun _ => rfl) rfl)
      (stops_cons (by decide) (by decide)) (hr.step rfl) ?_ hrest
    intro inner rest hinner hstops
    obtain ⟨before, k, v, hinsert, hmembers⟩ := ih hinner hstops frames Bool.true
    rw [← hinsert]
    exact ⟨_, hmembers, rfl⟩
  | item _ ih =>
    intro r frames hr
    exact ⟨[], _, rfl, ih htext hrest r _ hr⟩
  | @moreItems ls ls' v vs _ _ ih ihlast =>
    intro r frames hr
    obtain ⟨front, back, rfl, hfront, hback⟩ := htext.exists_append
    have hstops : Stops (back ++ rest) := hback.stops (stops_cons (by decide) (by decide))
    obtain ⟨before, u, rfl, hitems⟩ := ih hfront hstops r frames hr
    obtain ⟨after, hafter, hcomma⟩ := hback.leads_cons (r := ⟨.items before :: frames, .after u⟩)
      (cuts_mark (fun _ => rfl) rfl) rfl
    refine ⟨u :: before, v, by simp, hitems.trans (hcomma rest _ ?_)⟩
    exact ihlast hafter hrest _ _ (.value _)
  | @member key k ls v hkey _ ih =>
    intro frames mayEnd
    obtain ⟨after, hafter, hfirst⟩ := htext.leads_cons (r := ⟨frames, .key [] mayEnd⟩)
      (cuts_of_spellsText hkey) rfl
    obtain ⟨after', hafter', hcolon⟩ := hafter.leads_cons (r := ⟨frames, .colon [] k⟩)
      (cuts_mark (fun _ => rfl) rfl) rfl
    exact ⟨[], k, v, rfl, hfirst rest _ (hcolon rest _ (ih hafter' hrest _ _ (.value _)))⟩
  | @moreMembers key k ls ls' v ms _ hkey _ ih ihlast =>
    intro frames mayEnd
    obtain ⟨front, back, rfl, hfront, hback⟩ := htext.exists_append
    have hstops : Stops (back ++ rest) := hback.stops (stops_cons (by decide) (by decide))
    obtain ⟨before, k', u, hinsert, hmembers⟩ := ih hfront hstops frames mayEnd
    obtain ⟨after, hafter, hcomma⟩ := hback.leads_cons
      (r := ⟨.member before k' :: frames, .after u⟩) (cuts_mark (fun _ => rfl) rfl) rfl
    obtain ⟨after', hafter', hname⟩ := hafter.leads_cons
      (r := ⟨frames, .key (before.insert k' u) false⟩) (cuts_of_spellsText hkey) rfl
    obtain ⟨last, hlast, hcolon⟩ := hafter'.leads_cons
      (r := ⟨frames, .colon (before.insert k' u) k⟩) (cuts_mark (fun _ => rfl) rfl) rfl
    refine ⟨Entries.insert k' u before, k, v, by rw [ofPairs_concat, hinsert], hmembers.trans ?_⟩
    exact hcomma rest _ (hname rest _ (hcolon rest _ (ihlast hlast hrest _ _ (.value _))))

/-! ## Texts -/

theorem run_byteOrderMark (h : text.head? = some '\uFEFF') :
    Reading.start.run 0 (tokens text) = .error (.expectedValue, 0) := by
  obtain ⟨rest, rfl⟩ := List.head?_eq_some_iff.1 h
  rw [tokens]
  rfl

/-- **A text that lays out a spelling of a value is read as that value.** -/
theorem parse_of_spaced (h : Spells ls (.value v)) (htext : Spaced ls text) :
    parse (String.ofList text) = .ok v := by
  have hrun := leads_of_spells h htext stops_nil .start [] (.value []) 0
  rw [List.append_nil, tokens, Reading.run] at hrun
  have hmark : text.head? ≠ some '\uFEFF' := by
    intro h
    rw [run_byteOrderMark h] at hrun
    cases hrun
  have hletters : parseLetters text = .ok v := by
    rw [parseLetters, Letter.chars_chars, if_neg (by simpa using hmark)]
    exact hrun
  rw [parse_text, String.toList_ofList, hletters]
  rfl

end Scaffold.Json
