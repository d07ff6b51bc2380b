import Scaffold.Proofs.BuildConfig.Plugins

/-!
# The elements of the plugin list

The plugin list is read as an array: up to the bracket that closes it, cut at the commas that stand in
no other brackets.

* **Brackets and commas are characters** here, wherever they stand. A bracket has to be closed by one of
  its own kind.
* **Blanks count for nothing** around an element, and neither does a comma behind the last one. So it
  does not matter how the array is spread over lines.
* **A call that is put in** becomes the first element, and those that were there follow.
-/

namespace Scaffold.BuildConfig

open Text

variable {content call : String} {s t list before inside after pending pending' : List Char} {c : Char}

/-! ## Brackets -/

/-- The brackets that are open behind a character, each told by the one that closes it, if those before
it are `pending`. There is nothing to tell if the character closes none of them. -/
def nest (pending : List Char) (c : Char) : Option (List Char) :=
  match brackets.lookup c with
  | some closing => some (closing :: pending)
  | none =>
    if c ∈ brackets.map Prod.snd then if pending.head? = some c then some pending.tail else none
    else some pending

/-- The brackets that are open behind a text. -/
def nestAll (pending s : List Char) : Option (List Char) := s.foldlM nest pending

/-- The inside of an array, up to the bracket that closes it, and what follows this bracket. Of the
brackets in the array some are `pending`. -/
def arrayInside? (pending : List Char) : List Char → Option (List Char × List Char)
  | [] => none
  | c :: s =>
    if pending = [] ∧ c = ']' then some ([], s)
    else do
      let pending ← nest pending c
      let (inside, after) ← arrayInside? pending s
      return (c :: inside, after)

/-- A text cut at the commas that stand in no brackets. -/
def cutAtCommas (pending : List Char) : List Char → List (List Char)
  | [] => [[]]
  | c :: s =>
    if pending = [] ∧ c = ',' then [] :: cutAtCommas [] s
    else (cutAtCommas ((nest pending c).getD pending) s).modifyHead (c :: ·)

/-- The elements of an array, without the blanks around them. Behind the last comma there need not be
one. -/
def elements (inside : List Char) : List (List Char) :=
  let parts := (cutAtCommas [] inside).map (trimBy isBlank)
  if parts.getLast? = some [] then parts.dropLast else parts

/-- A text that can be an element: its brackets are closed, and no comma stands outside of them. -/
structure IsElementText (s : List Char) : Prop where
  /-- the brackets are closed -/
  closed : nestAll [] s = some []
  /-- no comma cuts the text -/
  whole : cutAtCommas [] s = [s]

theorem nestAll_cons : nestAll pending (c :: s) = (nest pending c).bind (nestAll · s) := rfl

theorem cutAtCommas_ne_nil (pending s : List Char) : cutAtCommas pending s ≠ [] := by
  fun_induction cutAtCommas pending s with
  | case1 => simp
  | case2 => simp
  | case3 pending c s _ ih => simpa [List.modifyHead_eq_nil_iff] using ih

/-- The bracket that closes the array is not one of a text whose brackets are closed. -/
theorem arrayInside?_append (h : nestAll pending s = some pending') (t : List Char) :
    arrayInside? pending (s ++ t) = (arrayInside? pending' t).map fun (i, a) => (s ++ i, a) := by
  induction s generalizing pending with
  | nil =>
    cases h
    simp
  | cons c s ih =>
    rw [nestAll_cons, Option.bind_eq_some_iff] at h
    obtain ⟨next, hc, hs⟩ := h
    have hclosing : ¬ (pending = [] ∧ c = ']') := by
      rintro ⟨rfl, rfl⟩
      cases hc
    rw [List.cons_append, arrayInside?, if_neg hclosing, hc]
    simp only [Option.bind_eq_bind, Option.bind_some, ih hs, Option.bind_map]
    cases arrayInside? pending' t <;> rfl

/-- What is not cut by itself is not cut in front of another text. -/
theorem cutAtCommas_append (h : nestAll pending s = some pending') (hwhole : cutAtCommas pending s = [s])
    (t : List Char) :
    cutAtCommas pending (s ++ t) = (cutAtCommas pending' t).modifyHead (s ++ ·) := by
  induction s generalizing pending with
  | nil =>
    cases h
    rw [List.nil_append]
    cases cutAtCommas pending' t <;> rfl
  | cons c s ih =>
    rw [nestAll_cons, Option.bind_eq_some_iff] at h
    obtain ⟨next, hc, hs⟩ := h
    rw [cutAtCommas] at hwhole
    split at hwhole
    · cases (List.cons.inj hwhole).1
    · rename_i hcomma
      rw [hc, Option.getD_some] at hwhole
      have hrest : cutAtCommas next s = [s] := by
        obtain ⟨part, parts, hparts⟩ := List.exists_cons_of_ne_nil (cutAtCommas_ne_nil next s)
        rw [hparts] at hwhole ⊢
        simpa using hwhole
      rw [List.cons_append, cutAtCommas, if_neg hcomma, hc, Option.getD_some, ih hs hrest,
        List.modifyHead_modifyHead]
      rfl

/-! ## Elements -/

theorem nest_of_not_mem (hc : ∀ pair ∈ brackets, c ≠ pair.1 ∧ c ≠ pair.2) :
    nest pending c = some pending := by
  have hopening : brackets.lookup c = none := by
    rw [List.lookup_eq_none_iff]
    simpa [bne_iff_ne] using fun pair hpair => (hc pair hpair).1
  have hclosing : c ∉ brackets.map Prod.snd := by
    intro hmem
    obtain ⟨pair, hpair, heq⟩ := List.mem_map.1 hmem
    exact (hc pair hpair).2 heq.symm
  rw [nest, hopening]
  exact if_neg hclosing

/-- Blanks are no brackets and no commas. -/
theorem isElementText_of_blank (hs : ∀ c ∈ s, isBlank c = true) : IsElementText s := by
  induction s with
  | nil => exact ⟨rfl, rfl⟩
  | cons c s ih =>
    obtain ⟨hc, hs⟩ := List.forall_mem_cons.1 hs
    obtain ⟨hclosed, hwhole⟩ := ih hs
    have hnot {d : Char} (hd : isBlank d = false) : c ≠ d := by
      rintro rfl
      rw [hc] at hd
      cases hd
    have hnest : nest [] c = some [] := by
      have hbrackets : ∀ pair ∈ brackets, isBlank pair.1 = false ∧ isBlank pair.2 = false := by decide
      exact nest_of_not_mem fun pair hpair => (hbrackets pair hpair).imp hnot hnot
    refine ⟨by rw [nestAll_cons, hnest]; exact hclosed, ?_⟩
    rw [cutAtCommas, if_neg fun h => hnot (by decide) h.2, hnest, Option.getD_some, hwhole]
    rfl

theorem trimBy_append_of_blank (hs : ∀ c ∈ s, isBlank c = true) (t : List Char) :
    trimBy isBlank (s ++ t) = trimBy isBlank t := by
  rw [trimBy, List.dropWhile_append_of_pos hs, trimBy]

/-- Blanks before an array count for nothing. -/
theorem elements_append_of_blank (hs : ∀ c ∈ s, isBlank c = true) (t : List Char) :
    elements (s ++ t) = elements t := by
  obtain ⟨hclosed, hwhole⟩ := isElementText_of_blank hs
  obtain ⟨part, parts, hparts⟩ := List.exists_cons_of_ne_nil (cutAtCommas_ne_nil [] t)
  have hcut : cutAtCommas [] (s ++ t) = (s ++ part) :: parts := by
    rw [cutAtCommas_append hclosed hwhole, hparts]
    rfl
  rw [elements, elements, hcut, hparts, List.map_cons, List.map_cons, trimBy_append_of_blank hs]

/-- A text in front of a comma is the first element. -/
theorem IsElementText.elements_cons (hs : IsElementText s) (t : List Char) :
    elements (s ++ ',' :: t) = trimBy isBlank s :: elements t := by
  have hcut : cutAtCommas [] (s ++ ',' :: t) = s :: cutAtCommas [] t := by
    rw [cutAtCommas_append hs.closed hs.whole, cutAtCommas, if_pos ⟨rfl, rfl⟩]
    simp
  have hne : (cutAtCommas [] t).map (trimBy isBlank) ≠ [] := by simp [cutAtCommas_ne_nil]
  rw [elements, elements, hcut, List.map_cons]
  generalize (cutAtCommas [] t).map (trimBy isBlank) = parts at hne ⊢
  simp only [List.getLast?_cons_of_ne_nil hne, List.dropLast_cons_of_ne_nil hne]
  split <;> rfl

/-- A text that stands alone is the only element, unless it is blank. -/
theorem IsElementText.elements_eq (hs : IsElementText s) :
    elements s = if trimBy isBlank s = [] then [] else [trimBy isBlank s] := by
  rw [elements, hs.whole]
  simp

example : elements " \n\t".toList = [] := by decide

/-! ## Putting in -/

/-- What is returned for a call that is nowhere in a text with one list. -/
theorem OnlyList.exists_insertPlugin (honly : OnlyList content.toList before list)
    (hnew : ¬ call.toList <:+: content.toList) :
    ∃ blanks gap rest text, (∀ c ∈ blanks, isBlank c = true) ∧ (∀ c ∈ gap, isBlank c = true) ∧
      list = gap ++ rest ∧ content.toList = before ++ (("plugins:".toList ++ blanks) ++ '[' :: list) ∧
      insertPlugin content call = .ok text ∧
      text.toList = before ++
        (withPlugin call.toList (("plugins:".toList ++ blanks) ++ ['[']) gap rest ++ rest) := by
  obtain ⟨⟨b, ⟨head, gap⟩, rest⟩, hanchor⟩ := honly.exists_anchor
  obtain ⟨t, -, hcontent, hread, -⟩ := find?_eq_some (anchor_ok_iff.1 hanchor).1
  obtain ⟨blanks, spacing, rfl, hblanks, hspacing, hgap, rfl⟩ := pluginList?_eq_some hread
  obtain ⟨rfl, rfl⟩ := honly.eq_of_opening hblanks hcontent
  have hspacing : ∀ c ∈ spacing, isBlank c = true := fun c hc => isBlank_of_isSpacing (hspacing c hc)
  refine ⟨blanks, gap, rest, String.ofList (b ++ withPlugin call.toList
    (("plugins:".toList ++ blanks) ++ ['[']) gap rest ++ rest), hblanks, ?_, rfl, hcontent, ?_, ?_⟩
  · rcases hgap with rfl | rfl
    · exact hspacing
    · intro c hc
      rcases List.mem_append.1 hc with hc | hc
      · exact hspacing c hc
      · rw [List.mem_singleton.1 hc]
        decide
  · rw [insertPlugin_of_new hnew, hanchor]
    rfl
  · rw [String.toList_ofList, List.append_assoc]

/-- **A call that is put in becomes the first element of the array**, in front of those that were there.
What stands before the array and after the bracket that closes it is as it was. A blank call alone in an
array leaves nothing to read. -/
theorem put_in_front_of_elements (honly : OnlyList content.toList before list)
    (hinside : arrayInside? [] list = some (inside, after)) (hcall : IsElementText call.toList)
    (hnew : ¬ call.toList <:+: content.toList) :
    ∃ text opening list' inside', insertPlugin content call = .ok text ∧
      content.toList = before ++ (opening ++ '[' :: list) ∧
      text.toList = before ++ (opening ++ '[' :: list') ∧
      OpensList (opening ++ '[' :: list') list' ∧ arrayInside? [] list' = some (inside', after) ∧
      (elements inside' = trimBy isBlank call.toList :: elements inside ∨
        trimBy isBlank call.toList = [] ∧ elements inside = [] ∧ elements inside' = []) := by
  obtain ⟨blanks, gap, rest, text, hblanks, hgap, rfl, hcontent, hinsert, htext⟩ :=
    honly.exists_insertPlugin hnew
  rw [arrayInside?_append (isElementText_of_blank hgap).closed] at hinside
  obtain ⟨⟨i, a⟩, hi, heq⟩ := Option.map_eq_some_iff.1 hinside
  cases heq
  rw [elements_append_of_blank hgap]
  obtain ⟨lead, hlead, ⟨rest', rfl, hput⟩ | ⟨c, hc, hput⟩⟩ :=
    withPlugin_cases call.toList ("plugins:".toList ++ blanks) gap rest
  · -- the bracket that follows the call closes the array, which was empty
    cases hi
    refine ⟨text, _, _, lead ++ call.toList, hinsert, hcontent, htext.trans (congrArg _ hput),
      ⟨blanks, hblanks, rfl⟩, ?_, ?_⟩
    · rw [arrayInside?_append (isElementText_of_blank hlead).closed, arrayInside?_append hcall.closed]
      simp [arrayInside?]
    · rw [elements_append_of_blank hlead, hcall.elements_eq]
      split
      · exact .inr ⟨‹_›, rfl, rfl⟩
      · exact .inl rfl
  · have hseparator : nestAll [] [',', c] = some [] :=
      (isElementText_of_blank (s := [c]) (by simpa using hc)).closed
    refine ⟨text, _, _, lead ++ (call.toList ++ ',' :: c :: i), hinsert, hcontent,
      htext.trans (congrArg _ hput), ⟨blanks, hblanks, rfl⟩, ?_, .inl ?_⟩
    · rw [arrayInside?_append (isElementText_of_blank hlead).closed, arrayInside?_append hcall.closed]
      have hrest := arrayInside?_append hseparator rest
      rw [hi] at hrest
      simp only [List.cons_append, List.nil_append] at hrest
      rw [hrest]
      rfl
    · rw [elements_append_of_blank hlead, hcall.elements_cons]
      exact congrArg _ (elements_append_of_blank (s := [c]) (by simpa using hc) i)

/-- A list that is spread over lines, with a comma behind its last element and commas in other brackets. -/
def spreadConfig : String :=
  "defineConfig(\x7b\n  plugins: [\n    vue(\x7b a: [1, 2], b: (x, y) \x7d),\n    dev(),\n  ],\n\x7d)\n"

theorem put_in_front_of_elements_spread :
    ∃ call before list inside after, call = "UnoCSS(\x7b mode: [1, 2] \x7d)" ∧
      OnlyList spreadConfig.toList before list ∧ arrayInside? [] list = some (inside, after) ∧
      IsElementText call.toList ∧ ¬ call.toList <:+: spreadConfig.toList ∧
      after = ",\n\x7d)\n".toList ∧
      elements inside = ["vue(\x7b a: [1, 2], b: (x, y) \x7d)".toList, "dev()".toList] ∧
      ∃ text opening list' inside', insertPlugin spreadConfig call = .ok text ∧
        spreadConfig.toList = before ++ (opening ++ '[' :: list) ∧
        text.toList = before ++ (opening ++ '[' :: list') ∧
        OpensList (opening ++ '[' :: list') list' ∧ arrayInside? [] list' = some (inside', after) ∧
        (elements inside' = trimBy isBlank call.toList :: elements inside ∨
          trimBy isBlank call.toList = [] ∧ elements inside = [] ∧ elements inside' = []) := by
  have hanchor : anchor pluginPattern pluginList? spreadConfig.toList =
      .ok ("defineConfig(\x7b\n  ".toList, ("plugins: [".toList, ['\n']),
        "    vue(\x7b a: [1, 2], b: (x, y) \x7d),\n    dev(),\n  ],\n\x7d)\n".toList) := by
    decide +kernel
  obtain ⟨-, -, -, honly, -⟩ := onlyList_of_anchor hanchor
  have hinside : arrayInside? []
      (['\n'] ++ "    vue(\x7b a: [1, 2], b: (x, y) \x7d),\n    dev(),\n  ],\n\x7d)\n".toList) =
        some ("\n    vue(\x7b a: [1, 2], b: (x, y) \x7d),\n    dev(),\n  ".toList,
          ",\n\x7d)\n".toList) := by
    decide +kernel
  have hcall : IsElementText "UnoCSS(\x7b mode: [1, 2] \x7d)".toList :=
    ⟨by decide +kernel, by decide +kernel⟩
  have hnew : ¬ "UnoCSS(\x7b mode: [1, 2] \x7d)".toList <:+: spreadConfig.toList := by
    decide +kernel
  exact ⟨_, _, _, _, _, rfl, honly, hinside, hcall, hnew, rfl, by decide +kernel,
    put_in_front_of_elements honly hinside hcall hnew⟩

end Scaffold.BuildConfig
