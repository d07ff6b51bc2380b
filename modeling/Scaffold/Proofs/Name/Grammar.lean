import Scaffold.Proofs.Name.NormalForm
import Scaffold.Proofs.Lists
import Scaffold.Proofs.Text.Pattern

/-!
# The grammar of project names

A text is accepted as a project name exactly if it obeys the grammar of package names once the white
space around it is gone, and then it is the name without that white space.

* **The grammar** is given by its rules: a name, or a scope and a name between their marks. Reading cuts
  at the first slash, and no scope holds one.
* **Tests in turn** find the same names: a length, nothing to trim, nothing to put in lower case, and a
  search pattern. The pattern may leave a last newline, which is why there has to be nothing to trim.
* **No more than ASCII** is needed of lower case: every other name fails at the pattern.
-/

namespace Scaffold.Name

open Text Pattern

variable {s rest : List Char} {c : Char}

/-! ## The rules -/

/-- A lower-case letter, a digit or a tilde. -/
def StartsPart (c : Char) : Prop := ('a' ≤ c ∧ c ≤ 'z') ∨ ('0' ≤ c ∧ c ≤ '9') ∨ c = '~'

/-- What a scope or a name may begin with, a hyphen, a dot or an underscore. -/
def ContinuesPart (c : Char) : Prop := StartsPart c ∨ c = '-' ∨ c = '.' ∨ c = '_'

/-- A scope without its marks, or a name without its scope. -/
inductive Part : List Char → Prop
  /-- a first character and those that go on -/
  | mk {c : Char} {rest : List Char} (hstart : StartsPart c) (hrest : ∀ d ∈ rest, ContinuesPart d) :
    Part (c :: rest)

/-- A package name by the rules. -/
inductive PackageName : List Char → Prop
  /-- a name without a scope -/
  | plain {name : List Char} (hname : Part name) : PackageName name
  /-- a name in a scope -/
  | inScope {scope name : List Char} (hscope : Part scope) (hname : Part name) :
    PackageName ('@' :: (scope ++ '/' :: name))

/-- A name that a project may have. -/
structure IsName (s : List Char) : Prop where
  /-- at least one character -/
  one_le : 1 ≤ s.length
  /-- and not too many -/
  le_limit : s.length ≤ 214
  /-- a scope and a name, or a name -/
  grammar : PackageName s

theorem isPartStart_iff : isPartStart c = true ↔ StartsPart c := by
  simp [isPartStart, isLowerAlphanumeric, StartsPart, or_assoc]

theorem isPartChar_iff : isPartChar c = true ↔ ContinuesPart c := by
  simp [isPartChar, isPartStart_iff, ContinuesPart, or_assoc]

theorem isPart_iff : isPart s = true ↔ Part s := by
  constructor
  · intro h
    cases s with
    | nil => cases h
    | cons c rest =>
      obtain ⟨hstart, hrest⟩ := Bool.and_eq_true_iff.1 h
      exact .mk (isPartStart_iff.1 hstart)
        fun d hd => isPartChar_iff.1 (List.all_eq_true.1 hrest d hd)
  · rintro ⟨hstart, hrest⟩
    exact Bool.and_eq_true_iff.2 ⟨isPartStart_iff.2 hstart,
      List.all_eq_true.2 fun d hd => isPartChar_iff.2 (hrest d hd)⟩

theorem Part.isPartChar (h : Part s) (hc : c ∈ s) : isPartChar c = true := by
  obtain ⟨hstart, hrest⟩ := h
  rcases List.mem_cons.1 hc with rfl | hc
  · exact isPartChar_iff.2 (.inl hstart)
  · exact isPartChar_iff.2 (hrest c hc)

/-- A scope holds no slash, so the first slash of a name is the one behind the scope. -/
theorem Part.ne_slash (h : Part s) : ∀ c ∈ s, (c != '/') = true := by
  intro c hc
  refine bne_iff_ne.2 ?_
  rintro rfl
  exact absurd (h.isPartChar hc) (by decide)

/-- **Reading follows the rules.** -/
theorem isPackageName_iff : isPackageName s = true ↔ PackageName s := by
  constructor
  · intro h
    unfold isPackageName at h
    split at h
    · rename_i s
      split at h
      · rename_i name hslash
        obtain ⟨hscope, hname⟩ := Bool.and_eq_true_iff.1 h
        have hsplit : s = s.takeWhile (· != '/') ++ '/' :: name := by
          rw [← hslash, List.takeWhile_append_dropWhile]
        rw [hsplit]
        exact .inScope (isPart_iff.1 hscope) (isPart_iff.1 hname)
      · cases h
    · exact .plain (isPart_iff.1 h)
  · intro h
    cases h with
    | plain hname => exact isPackageName_of_isPart (isPart_iff.2 hname)
    | @inScope scope name hscope hname =>
      have hslash : ∀ c ∈ ('/' :: name).head?, (c != '/') = false := by simp
      rw [isPackageName, Text.dropWhile_append_of_stop hscope.ne_slash hslash,
        Text.takeWhile_append_of_stop hscope.ne_slash hslash]
      exact Bool.and_eq_true_iff.2 ⟨isPart_iff.2 hscope, isPart_iff.2 hname⟩

theorem PackageName.ne_nil (h : PackageName s) : s ≠ [] := by
  cases h with
  | plain hname =>
    cases hname
    exact List.cons_ne_nil _ _
  | inScope hscope hname => exact List.cons_ne_nil _ _

theorem isAllowed_iff {name : String} : isAllowed name = true ↔ IsName name.toList := by
  rw [isAllowed, Bool.and_eq_true, isPackageName_iff]
  constructor
  · rintro ⟨hlength, hgrammar⟩
    exact ⟨List.length_pos_iff.2 hgrammar.ne_nil, of_decide_eq_true hlength, hgrammar⟩
  · rintro ⟨-, hlength, hgrammar⟩
    exact ⟨decide_eq_true hlength, hgrammar⟩

/-! ## The characters of a name -/

theorem PackageName.cases_of_mem (h : PackageName s) (hc : c ∈ s) :
    isSlugChar c = true ∨ c = '@' ∨ c = '/' := by
  cases h with
  | plain hname => exact .inl (isSlugChar_iff_isPartChar.2 (hname.isPartChar hc))
  | inScope hscope hname =>
    rcases List.mem_cons.1 hc with rfl | hc
    · exact .inr (.inl rfl)
    rcases List.mem_append.1 hc with hc | hc
    · exact .inl (isSlugChar_iff_isPartChar.2 (hscope.isPartChar hc))
    rcases List.mem_cons.1 hc with rfl | hc
    · exact .inr (.inr rfl)
    · exact .inl (isSlugChar_iff_isPartChar.2 (hname.isPartChar hc))

/-- There is no white space in a name, and so no line end. -/
theorem PackageName.isBlank_eq_false (h : PackageName s) : ∀ c ∈ s, isBlank c = false := by
  intro c hc
  rcases h.cases_of_mem hc with hchar | rfl | rfl
  · exact isBlank_eq_false_of_isSlugChar hchar
  all_goals decide

theorem PackageName.isAscii (h : PackageName s) : ∀ c ∈ s, isAscii c = true := by
  intro c hc
  rcases h.cases_of_mem hc with hchar | rfl | rfl
  · exact isAscii_of_isSlugChar hchar
  all_goals decide

theorem PackageName.isUpper_eq_false (h : PackageName s) : ∀ c ∈ s, c.isUpper = false := by
  intro c hc
  rcases h.cases_of_mem hc with hchar | rfl | rfl
  · exact isUpper_eq_false_of_isSlugChar hchar
  all_goals decide

/-! ## The rules as a search pattern -/

variable {α : Type} {lineStart : Bool} {groups : Entries (List Char)}
  {go : Place → Entries (List Char) → Option α} {x : α}

/-- A scope or a name: one character, and as many more as there are. -/
def partPattern : Pattern := seqs [.one isPartStart, .most isPartChar]

/-- A scope in its marks. -/
def scopePattern : Pattern := seqs [literal ['@'], partPattern, literal ['/']]

/-- A scope, if there is one, and a name. -/
def namePattern : Pattern := seqs [.alt scopePattern .empty, partPattern]

/-- The end of a text, perhaps before a last newline. -/
def atEnd (s : Place) (_ : Entries (List Char)) : Option Unit :=
  if s.rest = [] ∨ s.rest = ['\n'] then some () else none

/-- Whether the pattern of names can be read from the start of a text to its end. -/
def matchesName (s : List Char) : Bool := (namePattern.read ⟨true, s⟩ [] atEnd).isSome

theorem exists_of_read_part (h : partPattern.read ⟨lineStart, s⟩ groups go = some x) :
    ∃ part lineStart rest, s = part ++ rest ∧ Part part ∧ go ⟨lineStart, rest⟩ groups = some x := by
  cases s with
  | nil => cases h
  | cons c s =>
    obtain ⟨hc, h⟩ := Option.ite_none_right_eq_some.1 h
    obtain ⟨more, rest, rfl, hmore, hgo⟩ := exists_of_readMost h
    exact ⟨c :: more, _, rest, rfl,
      .mk (isPartStart_iff.1 hc) fun d hd => isPartChar_iff.1 (hmore d hd), hgo⟩

/-- A part is read up to its end if what follows cannot belong to it. -/
theorem read_part_eq_some {part : List Char} (hpart : Part part)
    (hstop : ∀ c, rest.head? = some c → isPartChar c = false)
    (h : ∀ lineStart, go ⟨lineStart, rest⟩ groups = some x) :
    partPattern.read ⟨lineStart, part ++ rest⟩ groups go = some x := by
  obtain ⟨hstart, hmore⟩ := hpart
  refine (if_pos (isPartStart_iff.2 hstart)).trans ?_
  exact readMost_of_stop (fun d hd => isPartChar_iff.2 (hmore d hd)) hstop (h _)

theorem read_scope (s : Place) :
    scopePattern.read s groups go = (literal ['@']).read s groups fun s groups =>
      partPattern.read s groups fun s groups => (literal ['/']).read s groups go := rfl

theorem exists_of_read_scope (h : scopePattern.read ⟨lineStart, s⟩ groups go = some x) :
    ∃ scope lineStart rest, s = '@' :: (scope ++ '/' :: rest) ∧ Part scope ∧
      go ⟨lineStart, rest⟩ groups = some x := by
  rw [read_scope] at h
  obtain ⟨_, rfl, h⟩ := exists_of_read_literal h
  obtain ⟨scope, _, _, rfl, hscope, h⟩ := exists_of_read_part h
  obtain ⟨rest, rfl, hgo⟩ := exists_of_read_literal h
  exact ⟨scope, _, rest, rfl, hscope, hgo⟩

theorem read_scope_eq_some {scope : List Char} (hscope : Part scope)
    (h : ∀ lineStart, go ⟨lineStart, rest⟩ groups = some x) :
    scopePattern.read ⟨lineStart, '@' :: (scope ++ '/' :: rest)⟩ groups go = some x := by
  rw [read_scope]
  refine (read_literal_append ['@']).trans (read_part_eq_some hscope ?_ fun _ => ?_)
  · intro c hc
    obtain rfl := Option.some.inj hc
    rfl
  · exact (read_literal_append ['/']).trans (h _)

theorem atEnd_eq_some_iff {u : Unit} :
    atEnd ⟨lineStart, rest⟩ groups = some u ↔ rest = [] ∨ rest = ['\n'] := by
  rw [atEnd, Option.ite_none_right_eq_some]
  exact and_iff_left rfl

/-- A name is read up to its end, with or without a last newline. -/
theorem read_name_eq_some {name : List Char} (hname : Part name) (hrest : rest = [] ∨ rest = ['\n']) :
    partPattern.read ⟨lineStart, name ++ rest⟩ groups atEnd = some () := by
  refine read_part_eq_some hname ?_ fun _ => atEnd_eq_some_iff.2 hrest
  intro c hc
  rcases hrest with rfl | rfl
  · cases hc
  · obtain rfl := Option.some.inj hc
    rfl

/-- **The pattern follows the rules**, but for a last newline. -/
theorem matchesName_iff :
    matchesName s = true ↔ ∃ name rest, PackageName name ∧ (rest = [] ∨ rest = ['\n']) ∧
      s = name ++ rest := by
  constructor
  · intro h
    obtain ⟨u, h⟩ := Option.isSome_iff_exists.1 h
    rcases Option.or_eq_some_iff.1 h with h | ⟨-, h⟩
    · obtain ⟨scope, _, _, rfl, hscope, h⟩ := exists_of_read_scope h
      obtain ⟨name, _, rest, rfl, hname, h⟩ := exists_of_read_part h
      exact ⟨_, rest, .inScope hscope hname, atEnd_eq_some_iff.1 h, by simp⟩
    · obtain ⟨name, _, rest, rfl, hname, h⟩ := exists_of_read_part h
      exact ⟨name, rest, .plain hname, atEnd_eq_some_iff.1 h, rfl⟩
  · rintro ⟨name, rest, hname, hrest, rfl⟩
    refine Option.isSome_or.trans (Bool.or_eq_true_iff.2 ?_)
    cases hname with
    | plain hname => exact .inr (Option.isSome_of_eq_some (read_name_eq_some hname hrest))
    | @inScope scope name hscope hname =>
      -- the scope is preferred, so it does not matter what the name alone would give
      left
      rw [List.cons_append, List.append_assoc, List.cons_append]
      exact Option.isSome_of_eq_some
        (read_scope_eq_some hscope fun _ => read_name_eq_some hname hrest)

-- no name, but the pattern does not tell
example : matchesName "demo\n".toList = true := by decide

/-! ## Tests in turn -/

/-- Leaves ASCII text without upper-case letters as it is. -/
def FixesLowerCase (lower : List Char → List Char) : Prop :=
  ∀ s, (∀ c ∈ s, isAscii c = true ∧ c.isUpper = false) → lower s = s

/-- The tests of a name in turn, with `lower` for lower case: it is not empty and not too long, nothing
is to be trimmed or put in lower case, and the pattern of names can be read. -/
def passesTests (lower : List Char → List Char) (s : List Char) : Bool :=
  !s.isEmpty && s.length ≤ maxLength && s == trimBy isBlank s && lower s == s && matchesName s

/-- A last newline would have been trimmed. -/
theorem packageName_of_trimBy (htrim : s = trimBy isBlank s) (h : matchesName s = true) :
    PackageName s := by
  obtain ⟨name, rest, hname, rfl | rfl, rfl⟩ := matchesName_iff.1 h
  · rw [List.append_nil]
    exact hname
  · have hlast : (trimBy isBlank (name ++ ['\n'])).getLast? = some '\n' := by
      rw [← htrim]
      exact List.getLast?_concat
    cases getLast?_trimBy hlast

/-- **Tests in turn** find the names. -/
theorem passesTests_iff {lower : List Char → List Char} (hlower : FixesLowerCase lower) :
    passesTests lower s = true ↔ IsName s := by
  simp only [passesTests, Bool.and_eq_true, decide_eq_true_eq, beq_iff_eq, Bool.not_eq_true',
    List.isEmpty_eq_false_iff]
  constructor
  · rintro ⟨⟨⟨⟨hne, hlength⟩, htrim⟩, -⟩, hmatches⟩
    exact ⟨List.length_pos_iff.2 hne, hlength, packageName_of_trimBy htrim hmatches⟩
  · rintro ⟨-, hlength, hgrammar⟩
    refine ⟨⟨⟨⟨hgrammar.ne_nil, hlength⟩, ?_⟩, ?_⟩, ?_⟩
    · exact (trimBy_eq_self hgrammar.isBlank_eq_false).symm
    · exact hlower s fun c hc => ⟨hgrammar.isAscii c hc, hgrammar.isUpper_eq_false c hc⟩
    · exact matchesName_iff.2 ⟨s, [], hgrammar, .inl rfl, (List.append_nil s).symm⟩

/-! ## Accepted texts -/

theorem eq_trim_iff {text name : String} :
    name = trim text ↔ Trimmed isBlank text.toList name.toList := by
  rw [trimmed_iff, trim, ← String.toList_inj, String.toList_ofList]

/-- What is left of an accepted text is a name, and it is what is returned. -/
theorem ofText_eq_ok_iff_isName {text name : String} :
    ofText text = .ok name ↔ Trimmed isBlank text.toList name.toList ∧ IsName name.toList := by
  rw [← eq_trim_iff, ← isAllowed_iff]
  unfold ofText
  extract_lets trimmed
  split
  · rename_i hempty
    constructor
    · intro h
      cases h
    · rintro ⟨rfl, hallowed⟩
      exact absurd (by simpa using hempty) (isAllowed_iff.1 hallowed).grammar.ne_nil
  split
  · rename_i hallowed
    constructor
    · intro h
      obtain rfl := Except.ok.inj h
      exact ⟨rfl, hallowed⟩
    · rintro ⟨rfl, -⟩
      rfl
  · rename_i hrefused
    constructor
    · intro h
      cases h
    · rintro ⟨rfl, hallowed⟩
      exact absurd hallowed hrefused

theorem exists_error_iff {text : String} :
    (∃ fault, ofText text = .error fault) ↔ ∀ name, ofText text ≠ .ok name := by
  cases ofText text <;> simp

/-- **Project names are accepted by their grammar.** What is accepted is a name once the white space
around it is gone, and all other text is refused. A name that was returned holds no white space, and is
returned again as it is. The tests in turn allow the same names. -/
theorem ofText_accepts_grammar (text : String) :
    (∀ name, ofText text = .ok name ↔
      Trimmed isBlank text.toList name.toList ∧ IsName name.toList) ∧
    ((∃ fault, ofText text = .error fault) ↔
      ∀ name, Trimmed isBlank text.toList name → ¬ IsName name) ∧
    (∀ name, ofText text = .ok name →
      (∀ c ∈ name.toList, isBlank c = false) ∧ ofText name = .ok name) ∧
    ∀ lower, FixesLowerCase lower → isAllowed text = passesTests lower text.toList := by
  refine ⟨fun name => ofText_eq_ok_iff_isName, ?_, ?_, ?_⟩
  · rw [exists_error_iff]
    constructor
    · intro h name htrimmed hname
      refine h (String.ofList name) (ofText_eq_ok_iff_isName.2 ?_)
      rw [String.toList_ofList]
      exact ⟨htrimmed, hname⟩
    · intro h name hok
      obtain ⟨htrimmed, hname⟩ := ofText_eq_ok_iff_isName.1 hok
      exact h _ htrimmed hname
  · intro name hok
    have hname := (ofText_eq_ok_iff_isName.1 hok).2
    have hblank := hname.grammar.isBlank_eq_false
    have htrimmed : Trimmed isBlank name.toList name.toList :=
      trimmed_iff.2 (trimBy_eq_self hblank).symm
    exact ⟨hblank, ofText_eq_ok_iff_isName.2 ⟨htrimmed, hname⟩⟩
  · intro lower hlower
    rw [Bool.eq_iff_iff, isAllowed_iff, passesTests_iff hlower]

theorem fixesLowerCase_map_toLower : FixesLowerCase (List.map Char.toLower) := by
  intro s h
  exact map_toLower_eq_self fun c hc => (h c hc).2

theorem ofText_accepts_grammar_scoped :
    (ofText "  @scope/pkg.v2\n" = .ok "@scope/pkg.v2" ∧ IsName "@scope/pkg.v2".toList ∧
      ofText "@scope/pkg.v2" = .ok "@scope/pkg.v2") ∧
    FixesLowerCase (List.map Char.toLower) ∧
      isAllowed "  @scope/pkg.v2\n" =
        passesTests (List.map Char.toLower) "  @scope/pkg.v2\n".toList := by
  have hok : ofText "  @scope/pkg.v2\n" = .ok "@scope/pkg.v2" := by decide +kernel
  obtain ⟨hnames, -, hagain, htests⟩ := ofText_accepts_grammar "  @scope/pkg.v2\n"
  exact ⟨⟨hok, ((hnames _).1 hok).2, (hagain _ hok).2⟩, fixesLowerCase_map_toLower,
    htests _ fixesLowerCase_map_toLower⟩

end Scaffold.Name
