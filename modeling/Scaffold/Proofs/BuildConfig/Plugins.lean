import Scaffold.Proofs.BuildConfig.Insertion

/-!
# The plugin list

Where a call stands after a plugin was put in: whether it is an entry of the plugin list, and whether
there is one list only.

* **Entries** are what stands between the bracket or a comma of the list and the next comma or the
  closing bracket. Commas in brackets, in quoted texts and in comments separate nothing.
* **A call that is nowhere in the text** becomes the first entry of the only list. There is still one
  list afterwards, unless the call begins a list itself.
* **A call that is somewhere in the text** is taken for an entry, wherever it stands. Then nothing is
  put in, and the text may have no list, or a list without the call.
-/

namespace Scaffold.BuildConfig

open Text

variable {content text call : String} {s t u v y l before after head gap list : List Char}

/-! ## Entries -/

/-- The text of a comment. -/
inductive Comment : List Char → Prop
  /-- up to the end of the line -/
  | line {body : List Char} (h : '\n' ∉ body) : Comment ("//".toList ++ (body ++ ['\n']))
  /-- up to the first mark that ends it -/
  | block {body : List Char} (h : ¬ "*/".toList <:+: body ++ ['*']) :
    Comment ("/*".toList ++ (body ++ "*/".toList))

/-- White space and comments. -/
inductive Filler : List Char → Prop
  /-- nothing -/
  | nil : Filler []
  /-- a blank character -/
  | blank {c : Char} {s : List Char} (h : isBlank c = true) (hs : Filler s) : Filler (c :: s)
  /-- a comment -/
  | comment {a s : List Char} (h : Comment a) (hs : Filler s) : Filler (a ++ s)

/-- The inside of a text that is quoted by `mark`. -/
inductive InQuotes (mark : Char) : List Char → Prop
  /-- nothing -/
  | nil : InQuotes mark []
  /-- a character that stands for itself -/
  | plain {c : Char} {s : List Char} (h : c ∉ [mark, '\\']) (hs : InQuotes mark s) :
    InQuotes mark (c :: s)
  /-- a character behind a backslash -/
  | escaped {c : Char} {s : List Char} (hs : InQuotes mark s) : InQuotes mark ('\\' :: c :: s)

/-- The quotation marks of a source text. -/
def quotationMarks : List Char := ['\x27', '"', '\x60']

/-- The brackets of a source text, each with the one that closes it. -/
def brackets : List (Char × Char) := [('(', ')'), ('[', ']'), ('\x7b', '\x7d')]

/-- A stretch of a source text in which brackets are closed, and quoted texts and comments end. -/
inductive Balanced : List Char → Prop
  /-- nothing -/
  | nil : Balanced []
  /-- a character that opens nothing -/
  | plain {c : Char} {s : List Char} (hquote : c ∉ quotationMarks)
      (hbracket : ∀ pair ∈ brackets, c ≠ pair.1 ∧ c ≠ pair.2)
      (hcomment : ¬ "//".toList <+: c :: s ∧ ¬ "/*".toList <+: c :: s) (hs : Balanced s) :
    Balanced (c :: s)
  /-- a quoted text -/
  | quoted {mark : Char} {a s : List Char} (hmark : mark ∈ quotationMarks) (ha : InQuotes mark a)
      (hs : Balanced s) : Balanced (mark :: (a ++ mark :: s))
  /-- a comment -/
  | comment {a s : List Char} (h : Comment a) (hs : Balanced s) : Balanced (a ++ s)
  /-- a stretch in brackets -/
  | bracketed {pair : Char × Char} {a s : List Char} (hpair : pair ∈ brackets) (ha : Balanced a)
      (hs : Balanced s) : Balanced (pair.1 :: (a ++ pair.2 :: s))

/-- The call is an entry of the list that follows a bracket: it stands between the bracket or a comma
and the next comma or the closing bracket, with white space and comments around it at most. -/
def IsEntry (call list : List Char) : Prop :=
  ∃ earlier filler filler' separator rest,
    list = earlier ++ (filler ++ (call ++ (filler' ++ separator :: rest))) ∧
      (earlier = [] ∨ ∃ a, Balanced a ∧ earlier = a ++ [',']) ∧ Filler filler ∧ Filler filler' ∧
      separator ∈ [']', ',']

theorem filler_of_blank (h : ∀ c ∈ s, isBlank c = true) : Filler s := by
  induction s with
  | nil => exact .nil
  | cons c s ih =>
    obtain ⟨hc, hs⟩ := List.forall_mem_cons.1 h
    exact .blank hc (ih hs)

/-! ## Lists -/

/-- A plugin list begins at the start of the text; `list` follows its bracket. -/
def OpensList (s list : List Char) : Prop :=
  ∃ blanks, (∀ c ∈ blanks, isBlank c = true) ∧ s = ("plugins:".toList ++ blanks) ++ '[' :: list

/-- The text has one plugin list, which begins after `before`; `list` follows its bracket. -/
structure OnlyList (s before list : List Char) : Prop where
  /-- a list begins after the text before -/
  opens : ∃ t, s = before ++ t ∧ OpensList t list
  /-- no list begins elsewhere -/
  only : ∀ b t l, s = b ++ t → OpensList t l → b = before

/-- The text has one plugin list, and the call is an entry of it. -/
def Listed (call text : String) : Prop :=
  ∃ before list, OnlyList text.toList before list ∧ IsEntry call.toList list

/-- A list begins somewhere in the text. -/
def HoldsList (s : List Char) : Prop := ∃ t l, t <:+ s ∧ OpensList t l

theorem OpensList.head?_eq (h : OpensList s list) : s.head? = some 'p' := by
  obtain ⟨blanks, -, rfl⟩ := h
  rfl

theorem OpensList.ne_nil (h : OpensList s list) : s ≠ [] := by
  rintro rfl
  cases h.head?_eq

/-- The opening of a list is all that matters to it. -/
theorem OpensList.append (h : OpensList s list) (t : List Char) : OpensList (s ++ t) (list ++ t) := by
  obtain ⟨blanks, hblanks, rfl⟩ := h
  exact ⟨blanks, hblanks, by simp⟩

/-- The opening of a list has no brackets and no commas but for the bracket at its end. -/
theorem not_mem_opening {blanks : List Char} {c : Char} (hblanks : ∀ c ∈ blanks, isBlank c = true)
    (hc : c ∈ ['[', ']', ',']) : c ∉ "plugins:".toList ++ blanks := by
  have hblank : isBlank c = false := by
    revert c
    decide
  have hword : c ∉ "plugins:".toList := by
    revert c
    decide
  intro hmem
  rcases List.mem_append.1 hmem with hmem | hmem
  · exact hword hmem
  · rw [hblanks c hmem] at hblank
    cases hblank

/-- Nothing behind a bracket matters to a list that begins before it. -/
theorem OpensList.of_bracket (h : OpensList (t ++ '[' :: u) l) (v : List Char) :
    ∃ l', OpensList (t ++ '[' :: v) l' := by
  obtain ⟨blanks, hblanks, h⟩ := h
  rcases append_cons_cases h.symm (not_mem_opening hblanks (by decide)) with ⟨rfl, -⟩ | ⟨t, rfl, -⟩
  · exact ⟨v, blanks, hblanks, rfl⟩
  · exact ⟨t ++ '[' :: v, blanks, hblanks, by simp⟩

/-- A list that begins before a separator has its bracket before it. -/
theorem OpensList.of_separator {c : Char} (h : OpensList (t ++ c :: u) l) (hc : c ∈ [']', ',']) :
    ∃ l', OpensList t l' := by
  obtain ⟨blanks, hblanks, h⟩ := h
  have hbracket : c ∉ ['['] := by
    clear h
    revert c
    decide
  have hopening : c ∉ ("plugins:".toList ++ blanks) ++ ['['] := by
    rw [List.mem_append, not_or]
    exact ⟨not_mem_opening hblanks (.tail _ hc), hbracket⟩
  obtain ⟨z, rfl⟩ := prefix_of_prefix_append_cons hopening ⟨l, by rw [h, List.append_assoc]; rfl⟩
  exact ⟨z, blanks, hblanks, by simp⟩

/-- The recogniser reads where a list begins. -/
theorem pluginList?_eq_none_iff : pluginList? s = none ↔ ∀ l, ¬ OpensList s l := by
  constructor
  · rintro h l ⟨blanks, hblanks, rfl⟩
    unfold pluginList? at h
    have hdrop : (blanks ++ '[' :: l).dropWhile isBlank = "[".toList ++ l :=
      dropWhile_append_of_stop hblanks (by rintro _ ⟨⟩; decide)
    simp only [List.append_assoc, literal?_append, hdrop, Option.bind_eq_bind, Option.bind_some] at h
    split at h <;> cases h
  · intro h
    refine Option.eq_none_iff_forall_ne_some.2 fun ⟨⟨head, gap⟩, after⟩ hread => ?_
    obtain ⟨blanks, -, -, hblanks, -, -, hs⟩ := pluginList?_eq_some hread
    exact h _ ⟨blanks, hblanks, hs⟩

theorem find?_pluginList?_eq_none_iff : find? pluginList? s = none ↔ ¬ HoldsList s := by
  rw [find?_eq_none_iff]
  constructor
  · rintro h ⟨t, l, ht, hopens⟩
    exact pluginList?_eq_none_iff.1 (h t hopens.ne_nil ht) l hopens
  · exact fun h t _ ht => pluginList?_eq_none_iff.2 fun l hopens => h ⟨t, l, ht, hopens⟩

/-- A text has one list if none begins before the opening of this one, and none after its bracket. -/
theorem onlyList_of_opening {blanks : List Char} (hblanks : ∀ c ∈ blanks, isBlank c = true)
    (hbefore : ∀ y l, y ≠ [] → y <:+ before →
      ¬ OpensList (y ++ (("plugins:".toList ++ blanks) ++ '[' :: list)) l)
    (hlist : ¬ HoldsList list) :
    OnlyList (before ++ (("plugins:".toList ++ blanks) ++ '[' :: list)) before list := by
  refine ⟨⟨_, rfl, blanks, hblanks, rfl⟩, fun b t l heq hopens => ?_⟩
  have hsuffix : t <:+ before ++ (("plugins:".toList ++ blanks) ++ '[' :: list) :=
    heq ▸ List.suffix_append _ _
  rcases suffix_append_cases hsuffix with hsuffix | ⟨y, hy, hbefore', rfl⟩
  · rcases suffix_append_cases hsuffix with hsuffix | ⟨y, hy, hopening, rfl⟩
    · rcases List.suffix_cons_iff.1 hsuffix with rfl | hsuffix
      · cases hopens.head?_eq
      · exact absurd ⟨t, l, hsuffix, hopens⟩ hlist
    · -- Of the ends of the opening only the whole begins with its first character.
      have hp : 'p' ∉ "lugins:".toList ++ blanks := by
        intro hmem
        rcases List.mem_append.1 hmem with hmem | hmem
        · revert hmem
          decide
        · exact absurd (hblanks _ hmem) (by decide)
      have hhead := hopens.head?_eq
      rw [List.head?_append_of_ne_nil _ hy] at hhead
      rcases List.suffix_cons_iff.1 (show y <:+ 'p' :: ("lugins:".toList ++ blanks) from hopening) with
        rfl | hinside
      · exact (List.append_cancel_right heq).symm
      · exact absurd (hinside.subset (List.mem_of_mem_head? hhead)) hp
  · exact absurd hopens (hbefore y l hy hbefore')

/-! ## Putting in -/

/-- What is found is the only list. -/
theorem onlyList_of_anchor (h : anchor pluginPattern pluginList? s = .ok (before, (head, gap), after)) :
    ∃ blanks, (∀ c ∈ blanks, isBlank c = true) ∧ head = ("plugins:".toList ++ blanks) ++ ['['] ∧
      OnlyList s before (gap ++ after) ∧ ¬ HoldsList after ∧
      (∀ y l, y ≠ [] → y <:+ before →
        ¬ OpensList (y ++ (("plugins:".toList ++ blanks) ++ '[' :: (gap ++ after))) l) := by
  obtain ⟨hfind, hafter⟩ := anchor_ok_iff.1 h
  obtain ⟨t, -, rfl, hread, hfirst⟩ := find?_eq_some hfind
  obtain ⟨blanks, spacing, rfl, hblanks, hspacing, hgap, rfl⟩ := pluginList?_eq_some hread
  have hnone : ¬ HoldsList after := find?_pluginList?_eq_none_iff.1 hafter
  have hbefore : ∀ y l, y ≠ [] → y <:+ before →
      ¬ OpensList (y ++ (("plugins:".toList ++ blanks) ++ '[' :: (gap ++ after))) l :=
    fun y l hy hsuffix => pluginList?_eq_none_iff.1 (hfirst y hy hsuffix) l
  refine ⟨blanks, hblanks, rfl, onlyList_of_opening hblanks hbefore ?_, hnone, hbefore⟩
  rintro ⟨t, l, ht, hopens⟩
  rcases suffix_append_cases ht with ht | ⟨y, hy, hy', rfl⟩
  · exact hnone ⟨t, l, ht, hopens⟩
  · have hhead := hopens.head?_eq
    rw [List.head?_append_of_ne_nil _ hy] at hhead
    have hmem : 'p' ∈ gap := hy'.subset (List.mem_of_mem_head? hhead)
    have hnot : 'p' ∉ spacing := fun hmem => absurd (hspacing _ hmem) (by decide)
    rcases hgap with rfl | rfl
    · exact hnot hmem
    · simp [hnot] at hmem

/-- The only list is found. -/
theorem OnlyList.exists_anchor (h : OnlyList s before list) :
    ∃ r, anchor pluginPattern pluginList? s = .ok r := by
  obtain ⟨t, hs, hopens⟩ := h.opens
  cases hfind : find? pluginList? s with
  | none =>
    refine absurd ⟨t, list, ?_, hopens⟩ (find?_pluginList?_eq_none_iff.1 hfind)
    exact hs ▸ List.suffix_append _ _
  | some found =>
    obtain ⟨b, ⟨head, gap⟩, after⟩ := found
    refine ⟨_, anchor_ok_iff.2 ⟨hfind, find?_pluginList?_eq_none_iff.2 ?_⟩⟩
    rintro ⟨t', l, ⟨z, rfl⟩, hopens'⟩
    obtain ⟨t₀, -, hs₀, hread, -⟩ := find?_eq_some hfind
    obtain ⟨blanks, -, -, hblanks, -, -, rfl⟩ := pluginList?_eq_some hread
    -- Both places would be the place of the only list.
    have hfirst := h.only _ _ _ hs₀ ⟨blanks, hblanks, rfl⟩
    have hsecond := h.only (b ++ (("plugins:".toList ++ blanks) ++ '[' :: (gap ++ z))) t' l
      (by rw [hs₀]; simp) hopens'
    rw [hfirst] at hsecond
    have hlength := congrArg List.length hsecond
    simp at hlength

/-- The call is put behind the bracket, with blanks before it. After it stands the bracket that closes the
list, or a comma and a blank. -/
theorem withPlugin_cases (call front gap after : List Char) :
    ∃ blanks, (∀ c ∈ blanks, isBlank c = true) ∧
      ((∃ rest, after = ']' :: rest ∧ withPlugin call (front ++ ['[']) gap after ++ after =
          front ++ '[' :: (blanks ++ (call ++ ']' :: rest))) ∨
        ∃ c, isBlank c = true ∧ withPlugin call (front ++ ['[']) gap after ++ after =
          front ++ '[' :: (blanks ++ (call ++ ',' :: c :: after))) := by
  unfold withPlugin
  split
  · refine ⟨'\n' :: _, List.forall_mem_cons.2 ⟨by decide, ?_⟩,
      .inr ⟨'\n', by decide, by simp only [List.append_assoc, List.cons_append]; rfl⟩⟩
    split
    · decide
    · exact fun c hc => isBlank_of_isSpacing (List.mem_takeWhile_imp hc)
  · split
    · rename_i hclosed
      obtain ⟨rest, rfl⟩ := List.head?_eq_some_iff.1 (by simpa using hclosed)
      exact ⟨[], nofun, .inl ⟨rest, rfl, by simp⟩⟩
    · exact ⟨[], nofun, .inr ⟨' ', by decide, by simp⟩⟩

/-- The call is put behind the bracket, with blanks before it and a separator after it. -/
theorem exists_withPlugin_eq (call front gap after : List Char) :
    ∃ blanks separator rest, (∀ c ∈ blanks, isBlank c = true) ∧ separator ∈ [']', ','] ∧
      (rest <:+ after ∨ ∃ c, c ≠ 'p' ∧ rest = c :: after) ∧
      withPlugin call (front ++ ['[']) gap after ++ after =
        front ++ '[' :: (blanks ++ (call ++ separator :: rest)) := by
  obtain ⟨blanks, hblanks, ⟨rest, rfl, hput⟩ | ⟨c, hc, hput⟩⟩ := withPlugin_cases call front gap after
  · exact ⟨blanks, ']', rest, hblanks, by decide, .inl (List.suffix_cons _ _), hput⟩
  · refine ⟨blanks, ',', c :: after, hblanks, by decide, .inr ⟨c, ?_, rfl⟩, hput⟩
    rintro rfl
    cases hc

/-- No list begins in what is put behind the bracket, unless one begins in the call. -/
theorem not_holdsList_put {call blanks rest : List Char} {c : Char}
    (hblanks : ∀ c ∈ blanks, isBlank c = true) (hc : c ∈ [']', ','])
    (hrest : rest <:+ after ∨ ∃ c, c ≠ 'p' ∧ rest = c :: after) (hafter : ¬ HoldsList after)
    (hcall : ¬ HoldsList call) : ¬ HoldsList (blanks ++ (call ++ c :: rest)) := by
  rintro ⟨t, l, ht, hopens⟩
  rcases suffix_append_cases ht with ht | ⟨y, hy, hy', rfl⟩
  · rcases suffix_append_cases ht with ht | ⟨y, hy, hy', rfl⟩
    · rcases List.suffix_cons_iff.1 ht with rfl | ht
      · obtain rfl : c = 'p' := Option.some.inj hopens.head?_eq
        revert hc
        decide
      · rcases hrest with hrest | ⟨d, hd, rfl⟩
        · exact hafter ⟨t, l, ht.trans hrest, hopens⟩
        · rcases List.suffix_cons_iff.1 ht with rfl | ht
          · exact hd (Option.some.inj hopens.head?_eq)
          · exact hafter ⟨t, l, ht, hopens⟩
    · obtain ⟨l', hopens'⟩ := hopens.of_separator hc
      exact hcall ⟨y, l', hy', hopens'⟩
  · have hhead := hopens.head?_eq
    rw [List.head?_append_of_ne_nil _ hy] at hhead
    exact absurd (hblanks _ (hy'.subset (List.mem_of_mem_head? hhead))) (by decide)

/-- The only list of a text is the one that is known to begin there. -/
theorem OnlyList.eq_of_opening {before' list' blanks : List Char} (h : OnlyList s before list)
    (hblanks : ∀ c ∈ blanks, isBlank c = true)
    (hs : s = before' ++ (("plugins:".toList ++ blanks) ++ '[' :: list')) :
    before' = before ∧ list' = list := by
  have hbefore := h.only _ _ _ hs ⟨blanks, hblanks, rfl⟩
  obtain ⟨t, ht, blanks', hblanks', rfl⟩ := h.opens
  rw [ht, hbefore] at hs
  obtain ⟨-, hlist⟩ := append_cons_inj_of_not_mem (List.append_cancel_left hs)
    (not_mem_opening hblanks' (by decide)) (not_mem_opening hblanks (by decide))
  exact ⟨hbefore, hlist.symm⟩

theorem IsEntry.occurs (h : IsEntry l list) : l <:+: list := by
  obtain ⟨earlier, filler, filler', separator, rest, rfl, -⟩ := h
  exact ⟨earlier ++ filler, filler' ++ separator :: rest, by simp⟩

theorem insertPlugin_of_new (hnew : ¬ call.toList <:+: content.toList) :
    insertPlugin content call = (do
      let (before, (head, gap), after) ← anchor pluginPattern pluginList? content.toList
      return String.ofList (before ++ withPlugin call.toList head gap after ++ after)) := by
  unfold insertPlugin
  rw [if_neg fun hthere => hnew (occursIn_iff.1 hthere)]

/-- **A call that is nowhere in the text is listed** if it begins no list itself. -/
theorem listed_of_insertPlugin (hnew : ¬ call.toList <:+: content.toList)
    (h : insertPlugin content call = .ok text) : Listed call text ↔ ¬ HoldsList call.toList := by
  rw [insertPlugin_of_new hnew] at h
  obtain ⟨⟨before, ⟨head, gap⟩, after⟩, hanchor, hok⟩ := bind_eq_ok_iff.1 h
  cases hok
  obtain ⟨blanks, hblanks, rfl, -, hafter, hbefore⟩ := onlyList_of_anchor hanchor
  obtain ⟨filler, separator, rest, hfiller, hseparator, hrest, hput⟩ :=
    exists_withPlugin_eq call.toList ("plugins:".toList ++ blanks) gap after
  have htext : (String.ofList (before ++ withPlugin call.toList (("plugins:".toList ++ blanks) ++ ['['])
      gap after ++ after)).toList = before ++ (("plugins:".toList ++ blanks) ++ '[' :: (filler ++
        (call.toList ++ separator :: rest))) := by
    rw [String.toList_ofList, List.append_assoc, hput]
  constructor
  · -- The list that the call begins would be a second one.
    rintro ⟨b, list, honly, -⟩ ⟨t, l, ⟨y, hy⟩, hopens⟩
    obtain ⟨rfl, -⟩ := honly.eq_of_opening hblanks htext
    have hsecond := honly.only
      (before ++ (("plugins:".toList ++ blanks) ++ '[' :: (filler ++ y))) (t ++ separator :: rest) _
      (by rw [htext, ← hy]; simp) (hopens.append _)
    have hlength := congrArg List.length hsecond
    simp at hlength
  · intro hcall
    refine ⟨before, filler ++ (call.toList ++ separator :: rest), ?_, [], filler, [], separator, rest,
      rfl, .inl rfl, filler_of_blank hfiller, .nil, hseparator⟩
    rw [htext]
    refine onlyList_of_opening hblanks (fun y l hy hsuffix hopens => ?_)
      (not_holdsList_put hfiller hseparator hrest hafter hcall)
    rw [← List.append_assoc] at hopens
    obtain ⟨l', hopens'⟩ := hopens.of_bracket (gap ++ after)
    rw [List.append_assoc] at hopens'
    exact hbefore y l' hy hsuffix hopens'

/-- The patch misses the list: the call is somewhere in the text but not an entry of its only list, or
the call begins a list itself. -/
def Missed (content call : String) : Prop :=
  call.toList <:+: content.toList ∧ ¬ Listed call content ∨
    ¬ call.toList <:+: content.toList ∧ HoldsList call.toList

/-- **The call is listed in the text that is returned**, in a list that is the only one, exactly if the
patch does not miss. A text in which the call is found somewhere is returned as it is; any other text is
refused exactly if it has no list or several. -/
theorem listed_iff_not_missed (content call : String) :
    (∀ text, insertPlugin content call = .ok text → (Listed call text ↔ ¬ Missed content call)) ∧
      (call.toList <:+: content.toList → insertPlugin content call = .ok content) ∧
      (¬ call.toList <:+: content.toList →
        ((∃ before list, OnlyList content.toList before list) →
          ∃ text, insertPlugin content call = .ok text) ∧
        ((¬ ∃ before list, OnlyList content.toList before list) →
          ∃ n, n ≠ 1 ∧ insertPlugin content call = .error ⟨pluginPattern, n⟩)) := by
  refine ⟨fun text h => ?_, insertPlugin_of_present, fun hnew => ?_⟩
  · by_cases hthere : call.toList <:+: content.toList
    · rw [insertPlugin_of_present hthere] at h
      cases h
      simp [Missed, hthere]
    · rw [listed_of_insertPlugin hthere h]
      simp [Missed, hthere]
  · rw [insertPlugin_of_new hnew]
    constructor
    · rintro ⟨before, list, honly⟩
      obtain ⟨⟨b, ⟨head, gap⟩, after⟩, hanchor⟩ := honly.exists_anchor
      rw [hanchor]
      exact ⟨_, rfl⟩
    · intro hnone
      cases hanchor : anchor pluginPattern pluginList? content.toList with
      | ok found =>
        obtain ⟨before, ⟨head, gap⟩, after⟩ := found
        obtain ⟨-, -, -, honly, -⟩ := onlyList_of_anchor hanchor
        exact absurd ⟨_, _, honly⟩ hnone
      | error fault =>
        obtain ⟨n, hn, rfl⟩ := anchor_error hanchor
        exact ⟨n, hn, rfl⟩

/-- A call is listed in front of another one. -/
theorem listed_iff_not_missed_inline :
    insertPlugin "plugins: [vue()]" "UnoCSS()" = .ok "plugins: [UnoCSS(), vue()]" ∧
      ¬ Missed "plugins: [vue()]" "UnoCSS()" ∧ Listed "UnoCSS()" "plugins: [UnoCSS(), vue()]" := by
  have hinsert : insertPlugin "plugins: [vue()]" "UnoCSS()" = .ok "plugins: [UnoCSS(), vue()]" := by
    decide +kernel
  have hnew : ¬ "UnoCSS()".toList <:+: "plugins: [vue()]".toList := by decide
  have hcall : ¬ HoldsList "UnoCSS()".toList := by
    rw [← find?_pluginList?_eq_none_iff]
    decide
  have hmissed : ¬ Missed "plugins: [vue()]" "UnoCSS()" := by
    rintro (⟨hthere, -⟩ | ⟨-, hlist⟩)
    · exact hnew hthere
    · exact hcall hlist
  exact ⟨hinsert, hmissed, ((listed_iff_not_missed _ _).1 _ hinsert).2 hmissed⟩

/-- **A call in a comment is taken for an entry**: the text is returned as it is, and its only list does
not have the call. -/
theorem not_listed_of_comment :
    ∃ content call, content = "// UnoCSS()\nplugins: [vue()]\n" ∧ call = "UnoCSS()" ∧
      insertPlugin content call = .ok content ∧
      OnlyList content.toList "// UnoCSS()\n".toList "vue()]\n".toList ∧ ¬ Listed call content := by
  have honly : OnlyList "// UnoCSS()\nplugins: [vue()]\n".toList "// UnoCSS()\n".toList
      "vue()]\n".toList := by
    have hanchor : anchor pluginPattern pluginList? "// UnoCSS()\nplugins: [vue()]\n".toList =
        .ok ("// UnoCSS()\n".toList, ("plugins: [".toList, []), "vue()]\n".toList) := by
      decide +kernel
    obtain ⟨-, -, -, honly, -⟩ := onlyList_of_anchor hanchor
    exact honly
  refine ⟨_, _, rfl, rfl, insertPlugin_of_present (by decide), honly, ?_⟩
  rintro ⟨before, list, hother, hentry⟩
  obtain ⟨-, rfl⟩ := hother.eq_of_opening (show ∀ c ∈ [' '], isBlank c = true by decide)
    (show _ = "// UnoCSS()\n".toList ++ (("plugins:".toList ++ [' ']) ++ '[' :: "vue()]\n".toList) by
      decide)
  exact absurd hentry.occurs (by decide)

end Scaffold.BuildConfig
