import Scaffold.Proofs.Json.Spelling

/-!
# Comments between lexemes

A text with comments is laid out like a text of JSON, except that a comment may stand wherever a blank
may. Taking the comments out leaves a text of the same lexemes.

* **A comment hides what is in it**: quotation marks, backslashes and further openers. It ends at the
  first newline or at the first closing mark.
* **A string hides what is in it** as well, since no lexeme other than a string has a quotation mark,
  and no lexeme other than a string has a slash.
* **A line comment leaves its newline**, so what is left need not be the text without the comments.
  Both are texts of the same value.
-/

namespace Scaffold.Json

variable {ls : List (List Char)} {l plain text rest body digits : List Char} {ph : Phrase} {v : Json}

/-- The text is that of the lexemes with blanks and comments before, between and after them; without
the comments it is the plain text. -/
inductive Commented : List (List Char) → List Char → List Char → Prop
  | nil : Commented [] [] []
  | blank {c : Char} {ls : List (List Char)} {plain text : List Char} (hc : isJsonBlank c)
      (h : Commented ls plain text) : Commented ls (c :: plain) (c :: text)
  | lexeme (l : List Char) {ls : List (List Char)} {plain text : List Char}
      (h : Commented ls plain text) : Commented (l :: ls) (l ++ plain) (l ++ text)
  /-- a line comment with its newline -/
  | line (content : List Char) {ls : List (List Char)} {plain text : List Char}
      (hcontent : '\n' ∉ content) (h : Commented ls plain text) :
      Commented ls plain ('/' :: '/' :: (content ++ '\n' :: text))
  /-- a line comment at the end of the text -/
  | lastLine (content : List Char) (hcontent : '\n' ∉ content) :
      Commented [] [] ('/' :: '/' :: content)
  /-- a block comment -/
  | block (content : List Char) {ls : List (List Char)} {plain text : List Char}
      (hcontent : ¬ ['*', '/'] <:+: content) (h : Commented ls plain text) :
      Commented ls plain ('/' :: '*' :: (content ++ '*' :: '/' :: text))

/-- Without its comments, a text lays out the lexemes with nothing but blanks. -/
theorem Commented.spaced (h : Commented ls plain text) : Spaced ls plain := by
  induction h with
  | nil => exact .nil
  | blank hc _ ih => exact .blank hc ih
  | lexeme l _ ih => exact .lexeme l ih
  | line _ _ _ ih => exact ih
  | lastLine _ _ => exact .nil
  | block _ _ _ ih => exact ih

/-! ## Taking out one comment -/

theorem afterBlock_cons {c : Char} (h : ¬ ['*', '/'] <+: c :: rest) :
    afterBlock (c :: rest) = afterBlock rest := by
  cases rest with
  | nil => rfl
  | cons d rest =>
    have hend : ¬ (c = '*' ∧ d = '/') := by
      rintro ⟨rfl, rfl⟩
      exact h ⟨rest, rfl⟩
    rw [afterBlock, if_neg (by simpa using hend)]

theorem afterBlock_append {content : List Char} (hcontent : ¬ ['*', '/'] <:+: content) :
    afterBlock (content ++ '*' :: '/' :: rest) = some rest := by
  induction content with
  | nil => rfl
  | cons c content ih =>
    have hshorter : ¬ ['*', '/'] <:+: content := fun h => hcontent (h.trans (List.suffix_cons c _).isInfix)
    -- the content and the closing mark that follows it do not begin with a closing mark
    have hhead : ¬ ['*', '/'] <+: c :: (content ++ '*' :: '/' :: rest) := by
      rintro ⟨after, hafter⟩
      cases content with
      | nil => cases hafter
      | cons d content =>
        cases hafter
        exact hcontent ⟨[], content, rfl⟩
    rw [List.cons_append, afterBlock_cons hhead, ih hshorter]

theorem stripComments_block {content : List Char} (hcontent : ¬ ['*', '/'] <:+: content)
    (rest : List Char) :
    stripComments ('/' :: '*' :: (content ++ '*' :: '/' :: rest)) = stripComments rest :=
  stripComments_comment (by decide) (afterBlock_append hcontent)

theorem stripComments_line {content : List Char} (hcontent : '\n' ∉ content) (rest : List Char) :
    stripComments ('/' :: '/' :: (content ++ rest)) =
      stripComments (rest.dropWhile (· != '\n')) := by
  have hafter : afterComment ('/' :: '/' :: (content ++ rest)) =
      some (rest.dropWhile (· != '\n')) := by
    rw [← List.dropWhile_append_of_pos (Text.forall_bne_of_not_mem hcontent)]
    rfl
  exact stripComments_comment (by decide) hafter

/-! ## Lexemes are left alone -/

/-- Taking out comments leaves the characters alone, whatever follows them. -/
def Inert (l : List Char) : Prop := ∀ rest, stripComments (l ++ rest) = l ++ stripComments rest

theorem inert_of_forall (h : ∀ c ∈ l, c ≠ '"' ∧ c ≠ '/') : Inert l := by
  intro rest
  induction l with
  | nil => rfl
  | cons c l ih =>
    have hc := h c (.head _)
    rw [List.cons_append, stripComments_cons hc.1 hc.2, ih fun d hd => h d (.tail _ hd),
      List.cons_append]

theorem ne_of_isHexDigit {c : Char} {k : Nat} (h : IsHexDigit c k) : c ≠ '"' ∧ c ≠ '\\' := by
  have hlower : ∀ c ∈ "0123456789abcdef".toList, c ≠ '"' ∧ c ≠ '\\' := by decide
  have hupper : ∀ c ∈ "0123456789ABCDEF".toList, c ≠ '"' ∧ c ≠ '\\' := by decide
  rcases h with h | h
  · exact hlower c (List.mem_of_getElem? h)
  · exact hupper c (List.mem_of_getElem? h)

theorem stringRest_digits {n : Nat} (h : SpellsUnit digits n) (rest : List Char) :
    stringRest (digits ++ rest) = (stringRest rest).map fun r => (digits ++ r.1, r.2) := by
  cases h with
  | mk ha hb hc hd =>
    have hplain {c : Char} {k : Nat} (hc : IsHexDigit c k) (rest : List Char) :
        stringRest (c :: rest) = (stringRest rest).map fun r => (c :: r.1, r.2) :=
      stringRest_plain (ne_of_isHexDigit hc).1 (ne_of_isHexDigit hc).2
    simp [hplain ha, hplain hb, hplain hc, hplain hd, Function.comp_def]

/-- **A string ends at its own closing mark**: the mark of an escape is not taken for it. -/
theorem stringRest_of_spells {s : List CodePoint} (h : SpellsChars body s) (rest : List Char) :
    stringRest (body ++ '"' :: rest) = some (body ++ ['"'], rest) := by
  have hslash : Letter.char '\\' = '\\' := rfl
  induction h with
  | nil => exact stringRest_quote rfl
  | @plain c _ _ hquote hplain _ _ ih => simp [stringRest_plain (c := c) hquote hplain, ih]
  | short _ _ ih => simp [stringRest_escape hslash, ih]
  | unit hn _ _ ih => simp [stringRest_escape hslash, stringRest_digits hn, ih]
  | lone hn _ _ _ ih => simp [stringRest_escape hslash, stringRest_digits hn, ih]
  | pair _ _ hhigh hlow _ ih =>
    simp [stringRest_escape hslash, stringRest_digits hhigh, stringRest_digits hlow, ih]

theorem inert_of_spellsText {s : Wide} (h : SpellsText l s) : Inert l := by
  intro rest
  obtain ⟨body, rfl, hbody⟩ := h
  simpa using stripComments_string (c := '"') rfl (stringRest_of_spells hbody rest)

theorem inert_of_spellsInt {i : Int} (h : SpellsInt l i) : Inert l := by
  obtain ⟨negative, whole, rfl, hwhole, -⟩ := h
  have hdigit (c : Char) (hc : c.isDigit) : c ≠ '"' ∧ c ≠ '/' := by
    constructor <;> (rintro rfl; revert hc; decide)
  have hall : ∀ c ∈ whole, c.isDigit := by
    rcases hwhole with rfl | ⟨c, ds, rfl, -, hds⟩
    · decide
    · exact hds
  refine inert_of_forall fun c hc => ?_
  cases negative with
  | true =>
    rcases List.mem_cons.1 hc with rfl | hc
    · decide
    · exact hdigit c (hall c hc)
  | false => exact hdigit c (hall c hc)

theorem inert_of_spells (h : Spells ls ph) : ∀ l ∈ ls, Inert l := by
  have hmark (c : Char) (hc : c ≠ '"' ∧ c ≠ '/') : Inert [c] := inert_of_forall (by simpa using hc)
  induction h with
  | null => exact List.forall_mem_singleton.2 (inert_of_forall (by decide))
  | true => exact List.forall_mem_singleton.2 (inert_of_forall (by decide))
  | false => exact List.forall_mem_singleton.2 (inert_of_forall (by decide))
  | int h => exact List.forall_mem_singleton.2 (inert_of_spellsInt h)
  | str h => exact List.forall_mem_singleton.2 (inert_of_spellsText h)
  | emptyArr => simp [hmark]
  | arr _ ih => simpa [or_imp, forall_and, hmark] using ih
  | emptyObj => simp [hmark]
  | obj _ ih => simpa [or_imp, forall_and, hmark] using ih
  | item _ ih => exact ih
  | moreItems _ _ ih ihlast => simpa [or_imp, forall_and, hmark] using ⟨ih, ihlast⟩
  | member hkey _ ih => simpa [hmark] using ⟨inert_of_spellsText hkey, ih⟩
  | moreMembers _ hkey _ ih ihlast =>
    simpa [or_imp, forall_and, hmark] using ⟨ih, inert_of_spellsText hkey, ihlast⟩

/-! ## Whole texts -/

/-- **Taking out the comments leaves the lexemes**, laid out with blanks. -/
theorem Commented.spaced_stripComments (h : Commented ls plain text) (hls : ∀ l ∈ ls, Inert l) :
    Spaced ls (stripComments text) := by
  induction h with
  | nil =>
    rw [stripComments]
    exact .nil
  | @blank c _ _ _ hc _ ih =>
    have hne : c ≠ '"' ∧ c ≠ '/' := by
      constructor <;> (rintro rfl; revert hc; decide)
    rw [stripComments_cons hne.1 hne.2]
    exact .blank hc (ih hls)
  | lexeme l _ ih =>
    rw [hls l (.head _)]
    exact .lexeme l (ih fun l hl => hls l (.tail _ hl))
  | @line _ _ _ text hcontent _ ih =>
    have hnewline : ('\n' :: text).dropWhile (· != '\n') = '\n' :: text := rfl
    rw [stripComments_line hcontent, hnewline, stripComments_cons (by decide) (by decide)]
    exact .blank rfl (ih hls)
  | lastLine content hcontent =>
    have hend := stripComments_line hcontent []
    rw [List.append_nil, List.dropWhile_nil, stripComments] at hend
    rw [hend]
    exact .nil
  | block _ hcontent _ ih =>
    rw [stripComments_block hcontent]
    exact ih hls

/-- **Comments are transparent.** If a text of a value has comments between its lexemes, before the
first one or after the last one, then it is read as that value, and so is the text without them. -/
theorem parseCommented_of_commented (hv : Spells ls (.value v)) (h : Commented ls plain text) :
    parse (String.ofList plain) = .ok v ∧ parseCommented (String.ofList text) = .ok v := by
  refine ⟨parse_of_spaced hv h.spaced, ?_⟩
  rw [parseCommented_text, String.toList_ofList]
  exact parse_of_spaced hv (h.spaced_stripComments (inert_of_spells hv))

/-- The lexemes of an object whose strings look like comments, one of them with an escaped mark and one
with a lone half of a surrogate pair. -/
def trickyLexemes : List (List Char) :=
  [['\x7b'], "\"a//b\"".toList, [':'], ['['], "-12".toList, [','], "\"/* \\\" */\"".toList, [','],
    "\"\\ud800//\"".toList, [']'], ['\x7d']]

/-- The value that they spell. -/
def trickyValue : Json :=
  .obj [("a//b", .arr [.int (-12), .str "/* \" */", .str (.half "" ⟨0xD800, by decide⟩ "//")])]

theorem spells_trickyLexemes : Spells trickyLexemes (.value trickyValue) := by
  have hplain {c : Char} {body : List Char} {s : List CodePoint}
      (hc : c ≠ '"' ∧ c ≠ '\\' ∧ 0x20 ≤ c.toNat) (h : SpellsChars body s) :
      SpellsChars (c :: body) (.char c :: s) := .plain hc.1 hc.2.1 hc.2.2 h
  have hkey : SpellsText "\"a//b\"".toList "a//b" :=
    ⟨"a//b".toList, rfl, hplain (by decide) (hplain (by decide) (hplain (by decide)
      (hplain (by decide) .nil)))⟩
  have hint : SpellsInt "-12".toList (-12) :=
    ⟨true, ['1', '2'], rfl, .inr ⟨'1', ['2'], rfl, by decide, by decide⟩, rfl⟩
  have hstr : SpellsText "\"/* \\\" */\"".toList "/* \" */" :=
    ⟨"/* \\\" */".toList, rfl, hplain (by decide) (hplain (by decide) (hplain (by decide)
      (.short (by decide) (hplain (by decide) (hplain (by decide) (hplain (by decide) .nil))))))⟩
  have hunit : SpellsUnit "d800".toList 0xD800 :=
    .mk (i := 13) (j := 8) (k := 0) (l := 0) (.inl rfl) (.inl rfl) (.inl rfl) (.inl rfl)
  have hlone : SpellsText "\"\\ud800//\"".toList (.half "" ⟨0xD800, by decide⟩ "//") :=
    ⟨"\\ud800//".toList, rfl, .lone hunit (by decide) (by rintro - _ _ _ ⟨⟩)
      (hplain (by decide) (hplain (by decide) .nil))⟩
  exact .obj (.member hkey (.arr (.moreItems (.moreItems (.item (.int hint)) (.str hstr)) (.str hlone))))

/-- Comments with quotation marks, a backslash and openers stand before, between and after the
lexemes. -/
theorem parseCommented_of_commented_tricky :
    ∃ v plain text, Spells trickyLexemes (.value v) ∧ Commented trickyLexemes plain text ∧
      plain = "\x7b\"a//b\":[-12,\"/* \\\" */\",\"\\ud800//\"]\x7d ".toList ∧
      text =
        "// \"\n\x7b/* // \" \\ */\"a//b\":[-12/***/,\"/* \\\" */\",\"\\ud800//\"]\x7d // /* \"".toList ∧
      parse (String.ofList plain) = .ok v ∧ parseCommented (String.ofList text) = .ok v := by
  have hend := Commented.lexeme ['\x7d'] (.blank (c := ' ') rfl (.lastLine " /* \"".toList (by decide)))
  have hlone := Commented.lexeme [','] (.lexeme "\"\\ud800//\"".toList (.lexeme [']'] hend))
  have hitems := Commented.lexeme [','] (.lexeme "\"/* \\\" */\"".toList hlone)
  have hlist := Commented.lexeme [':'] (.lexeme ['['] (.lexeme "-12".toList
    (.block ['*'] (by decide) hitems)))
  have htext := Commented.line " \"".toList (by decide) (.lexeme ['\x7b']
    (.block " // \" \\ ".toList (by decide +kernel) (.lexeme "\"a//b\"".toList hlist)))
  exact ⟨_, _, _, spells_trickyLexemes, htext, by decide +kernel, by decide +kernel,
    parseCommented_of_commented spells_trickyLexemes htext⟩

end Scaffold.Json
