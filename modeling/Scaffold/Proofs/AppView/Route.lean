import Scaffold.AppView
import Scaffold.Proofs.Lists
import Scaffold.Proofs.Text.Search
import Mathlib.Data.List.TakeWhile

/-!
# The route in the application's view

What becomes of the root component when the current route takes the place of the greeting.

* **The route is shown afterwards**, and then the patch has nothing left to do, with one exception.
* **A greeting on its own import.** Where the greeting stands on the first line that imports it, the
  line is removed together with the element that has just been put there. Nothing shows the route
  then, and there is no greeting any more.
-/

namespace Scaffold.AppView

open Text

variable {content text : String} {s t a b line rest before after : List Char} {lineStart : Bool}

/-! ## Lines that import the greeting -/

/-- A line that imports the greeting. -/
structure ImportsGreeting (line : List Char) : Prop where
  /-- the line has no end in it -/
  unbroken : '\n' ∉ line
  /-- the line begins with the import -/
  start : "import HelloWorld".toList <+: line.dropWhile isSpacing

theorem dropWhile_isSpacing_append {x : List Char} (h : s.dropWhile isSpacing ≠ []) :
    (s ++ x).dropWhile isSpacing = s.dropWhile isSpacing ++ x := by
  rw [List.dropWhile_append, if_neg (by simpa using h)]

theorem greetingImport?_eq_some :
    greetingImport? s = some rest ↔ ∃ line, ImportsGreeting line ∧ s = line ++ '\n' :: rest := by
  unfold greetingImport?
  simp only [Option.bind_eq_bind, Option.bind_eq_some_iff, literal?_eq_some]
  constructor
  · rintro ⟨r, hs, hr⟩
    have hspacing := List.takeWhile_append_dropWhile (p := isSpacing) (l := s)
    have hline := List.takeWhile_append_dropWhile (p := (· != '\n')) (l := r)
    rw [hs] at hspacing
    rw [hr] at hline
    have hblank : ∀ c ∈ s.takeWhile isSpacing, isSpacing c = true :=
      fun c hc => List.mem_takeWhile_imp hc
    refine ⟨s.takeWhile isSpacing ++ ("import HelloWorld".toList ++ r.takeWhile (· != '\n')),
      ⟨?_, ?_⟩, ?_⟩
    · simp only [List.mem_append, not_or]
      refine ⟨fun hc => ?_, by decide, fun hc => ?_⟩
      · exact absurd (hblank _ hc) (by decide)
      · simpa using List.mem_takeWhile_imp hc
    · rw [List.dropWhile_append_of_pos hblank]
      exact List.prefix_append _ _
    · rw [List.append_assoc, List.append_assoc]
      exact hspacing.symm.trans (congrArg _ (congrArg _ hline.symm))
  · rintro ⟨line, himport, rfl⟩
    obtain ⟨u, hu⟩ := himport.start
    have hne : line.dropWhile isSpacing ≠ [] := by
      rw [← hu]
      simp
    have hunbroken : '\n' ∉ u := fun hmem => himport.unbroken
      ((List.dropWhile_suffix isSpacing).subset (hu ▸ List.mem_append_right _ hmem))
    refine ⟨u ++ '\n' :: rest, ?_, dropWhile_append_of_stop (forall_bne_of_not_mem hunbroken) (by simp)⟩
    rw [dropWhile_isSpacing_append hne, ← hu, List.append_assoc]

theorem greetingImport?_append (h : greetingImport? s = some rest) (t : List Char) :
    greetingImport? (s ++ t) = some (rest ++ t) := by
  obtain ⟨line, himport, rfl⟩ := greetingImport?_eq_some.1 h
  exact greetingImport?_eq_some.2 ⟨line, himport, by simp⟩

/-- Nothing but the first line of a text matters. -/
theorem greetingImport?_append_newline (h : greetingImport? (a ++ ['\n']) = none) (rest : List Char) :
    greetingImport? (a ++ '\n' :: rest) = none := by
  have hnot (line r : List Char) (himport : ImportsGreeting line) :
      a ++ ['\n'] ≠ line ++ '\n' :: r := fun heq => by
    rw [greetingImport?_eq_some.2 ⟨line, himport, heq⟩] at h
    cases h
  refine Option.eq_none_iff_forall_ne_some.2 fun r hr => ?_
  obtain ⟨line, himport, heq⟩ := greetingImport?_eq_some.1 hr
  rcases List.append_eq_append_iff.1 heq with ⟨x, rfl, hrest⟩ | ⟨x, rfl, hrest⟩
  · rcases List.cons_eq_append_iff.1 hrest with ⟨rfl, -⟩ | ⟨x, rfl, -⟩
    · exact hnot _ [] himport (by simp)
    · exact himport.unbroken (by simp)
  · rcases List.cons_eq_append_iff.1 hrest with ⟨rfl, -⟩ | ⟨x, rfl, -⟩
    · exact hnot _ [] himport (by simp)
    · exact hnot line (x ++ ['\n']) himport (by simp)

/-! ## Removing the import -/

/-- A line may begin after the text, if one may begin at its start. -/
def MayBegin (lineStart : Bool) (a : List Char) : Prop :=
  a = [] ∧ lineStart = true ∨ ∃ a', a = a' ++ ['\n']

theorem dropGreetingImport_of_some (h : greetingImport? s = some rest) :
    dropGreetingImport true s = rest := by
  rw [dropGreetingImport.eq_def, if_pos rfl, h]

theorem dropGreetingImport_of_none {c : Char}
    (h : lineStart = true → greetingImport? (c :: s) = none) :
    dropGreetingImport lineStart (c :: s) = c :: dropGreetingImport (c == '\n') s := by
  have hnone : (if lineStart = true then greetingImport? (c :: s) else none) = none := by
    split
    · exact h ‹_›
    · rfl
  rw [dropGreetingImport, hnone]

/-- Either no line is removed, or the first one that imports the greeting. -/
theorem dropGreetingImport_cases (lineStart : Bool) (s : List Char) :
    dropGreetingImport lineStart s = s ∨ ∃ a line b, s = a ++ (line ++ '\n' :: b) ∧
      MayBegin lineStart a ∧ ImportsGreeting line ∧ dropGreetingImport lineStart a = a ∧
      dropGreetingImport lineStart s = a ++ b := by
  induction s generalizing lineStart with
  | nil =>
    left
    cases lineStart <;> rfl
  | cons c s ih =>
    by_cases hread : lineStart = true ∧ (greetingImport? (c :: s)).isSome
    · obtain ⟨rfl, hsome⟩ := hread
      obtain ⟨rest, hrest⟩ := Option.isSome_iff_exists.1 hsome
      obtain ⟨line, himport, heq⟩ := greetingImport?_eq_some.1 hrest
      exact .inr ⟨[], line, rest, heq, .inl ⟨rfl, rfl⟩, himport, rfl,
        dropGreetingImport_of_some hrest⟩
    · have hnone (hstart : lineStart = true) : greetingImport? (c :: s) = none := by
        simpa [hstart] using hread
      rw [dropGreetingImport_of_none hnone]
      rcases ih (c == '\n') with hsame | ⟨a, line, b, rfl, hbegin, himport, hkept, hdrop⟩
      · exact .inl (by rw [hsame])
      · refine .inr ⟨c :: a, line, b, rfl, .inr ?_, himport, ?_, by rw [hdrop]; rfl⟩
        · rcases hbegin with ⟨rfl, hc⟩ | ⟨a', rfl⟩
          · exact ⟨[], by simpa using hc⟩
          · exact ⟨c :: a', rfl⟩
        · rw [dropGreetingImport_of_none, hkept]
          intro hstart
          refine Option.eq_none_iff_forall_ne_some.2 fun rest hrest => ?_
          have hmore := greetingImport?_append hrest (line ++ '\n' :: b)
          rw [List.cons_append, hnone hstart] at hmore
          cases hmore

/-- A text from which nothing is removed does not begin with an import of the greeting. -/
theorem greetingImport?_of_kept (h : dropGreetingImport true s = s) : greetingImport? s = none := by
  refine Option.eq_none_iff_forall_ne_some.2 fun rest hrest => ?_
  rw [dropGreetingImport_of_some hrest] at h
  obtain ⟨line, -, rfl⟩ := greetingImport?_eq_some.1 hrest
  have := congrArg List.length h
  simp at this
  omega

/-- Lines that stay are followed by what is left of the others. -/
theorem dropGreetingImport_append (h : dropGreetingImport lineStart (a ++ ['\n']) = a ++ ['\n'])
    (rest : List Char) : dropGreetingImport lineStart (a ++ '\n' :: rest) =
      a ++ '\n' :: dropGreetingImport true rest := by
  induction a generalizing lineStart with
  | nil =>
    refine dropGreetingImport_of_none fun hstart => ?_
    subst hstart
    exact greetingImport?_append_newline (a := []) (greetingImport?_of_kept h) rest
  | cons c a ih =>
    have hnone (hstart : lineStart = true) : greetingImport? (c :: (a ++ ['\n'])) = none := by
      subst hstart
      exact greetingImport?_of_kept h
    rw [List.cons_append, dropGreetingImport_of_none hnone, List.cons.injEq] at h
    rw [List.cons_append, dropGreetingImport_of_none, ih h.2, List.cons_append]
    exact fun hstart => greetingImport?_append_newline (a := c :: a) (hnone hstart) rest

/-! ## The route in the place of the greeting -/

/-- A word without newlines stands on one side of every newline. -/
theorem append_append_eq_newline {u w v : List Char} (hw : '\n' ∉ w)
    (h : (u ++ w) ++ v = a ++ '\n' :: rest) :
    (∃ z, a = (u ++ w) ++ z ∧ v = z ++ '\n' :: rest) ∨
      ∃ z, u = a ++ '\n' :: z ∧ rest = (z ++ w) ++ v := by
  rcases List.append_eq_append_iff.1 h with ⟨z, ha, hv⟩ | ⟨z, hu, hz⟩
  · exact .inl ⟨z, ha, hv⟩
  · rcases List.cons_eq_append_iff.1 hz with ⟨rfl, hv⟩ | ⟨z, rfl, hrest⟩
    · exact .inl ⟨[], by simpa using hu.symm, hv⟩
    · rcases List.append_eq_append_iff.1 hu with ⟨y, -, rfl⟩ | ⟨y, rfl, hy⟩
      · simp at hw
      · rcases List.cons_eq_append_iff.1 hy with ⟨rfl, rfl⟩ | ⟨y, rfl, rfl⟩
        · simp at hw
        · exact .inr ⟨y, rfl, hrest⟩

/-- The line of a text that imports the greeting goes on over what stands at `before`: `above` are the
lines before it, `start` is its part in `before`, and `below` are the lines after it. -/
structure OnImport (before after above start below : List Char) : Prop where
  /-- the line begins in the text before -/
  split : before = above ++ start
  /-- a line begins after the lines above -/
  begins : MayBegin true above
  /-- none of the lines above imports the greeting -/
  kept : dropGreetingImport true above = above
  /-- the line has no end in the text before -/
  unbroken : '\n' ∉ start
  /-- the line begins with the import -/
  imports : "import HelloWorld".toList <+: start.dropWhile isSpacing
  /-- the line ends in the text after -/
  ends : ∃ line, '\n' ∉ line ∧ after = line ++ '\n' :: below

/-- The lines above the import stay, the lines below it follow. -/
theorem OnImport.dropGreetingImport_eq {above start below w : List Char}
    (h : OnImport before after above start below) (hw : '\n' ∉ w) :
    dropGreetingImport true ((before ++ w) ++ after) = above ++ below := by
  obtain ⟨rfl, hbegins, hkept, hunbroken, himports, line, hline, rfl⟩ := h
  have hne : start.dropWhile isSpacing ≠ [] := by
    rintro heq
    rw [heq] at himports
    exact absurd (List.prefix_nil.1 himports) (by decide)
  have himport : ImportsGreeting ((start ++ w) ++ line) := by
    refine ⟨by simp [hunbroken, hw, hline], ?_⟩
    rw [List.append_assoc, dropWhile_isSpacing_append hne]
    exact himports.trans (List.prefix_append _ _)
  have hread : greetingImport? (((start ++ w) ++ line) ++ '\n' :: below) = some below :=
    greetingImport?_eq_some.2 ⟨_, himport, rfl⟩
  rcases hbegins with ⟨rfl, -⟩ | ⟨a, rfl⟩
  · simpa using dropGreetingImport_of_some hread
  · have hdrop := dropGreetingImport_append hkept (((start ++ w) ++ line) ++ '\n' :: below)
    rw [dropGreetingImport_of_some hread] at hdrop
    simpa using hdrop

/-- Either the route stays, or it was put on the line that is removed. -/
theorem dropGreetingImport_route (before after : List Char) :
    routeElement.toList <:+: dropGreetingImport true ((before ++ routeElement.toList) ++ after) ∨
      ∃ above start below, OnImport before after above start below := by
  have hunbroken : '\n' ∉ routeElement.toList := by decide
  rcases dropGreetingImport_cases true ((before ++ routeElement.toList) ++ after) with
    hsame | ⟨a, line, b, hsplit, hbegins, himport, hkept, hdrop⟩
  · rw [hsame]
    exact .inl (List.infix_append _ _ _)
  rw [hdrop]
  -- Where a line of `before` is the removed one, or one after it, the route is not on it.
  have hline {u : List Char} (hu : (u ++ routeElement.toList) ++ after = line ++ '\n' :: b)
      (hbefore : before = a ++ u) : routeElement.toList <:+: a ++ b ∨
        ∃ above start below, OnImport before after above start below := by
    rcases append_append_eq_newline hunbroken hu with ⟨z, rfl, rfl⟩ | ⟨z, rfl, rfl⟩
    · refine .inr ⟨a, u, b, hbefore, hbegins, hkept, ?_, ?_, z, ?_, rfl⟩
      · exact fun hmem => himport.unbroken (by simp [hmem])
      · have hstart := himport.start
        by_cases hu : u.dropWhile isSpacing = []
        · rw [List.append_assoc, List.dropWhile_append, hu] at hstart
          exact absurd hstart (by simp [routeElement, isSpacing])
        · rw [List.append_assoc, dropWhile_isSpacing_append hu] at hstart
          exact prefix_of_prefix_append_cons (d := '<') (by decide) hstart
      · exact fun hmem => himport.unbroken (by simp [hmem])
    · exact .inl ((List.infix_append _ _ _).trans (List.suffix_append _ _).isInfix)
  rcases hbegins with ⟨rfl, -⟩ | ⟨a, rfl⟩
  · exact hline (by simpa using hsplit) rfl
  · rw [List.append_assoc a, List.singleton_append] at hsplit
    rcases append_append_eq_newline hunbroken hsplit with ⟨z, rfl, -⟩ | ⟨z, rfl, hz⟩
    · left
      simp only [List.append_assoc]
      exact List.infix_append' _ _ _
    · exact hline hz.symm (by simp)

/-! ## The greeting -/

theorem splitAfterLast?_eq_some {needle : List Char} (h : splitAfterLast? needle s = some (a, b)) :
    s = a ++ b := by
  induction s generalizing a with
  | nil => cases h
  | cons c s ih =>
    rw [splitAfterLast?] at h
    split at h
    · rename_i hmore
      cases h
      rw [ih hmore, List.cons_append]
    · obtain ⟨rest, hrest, heq⟩ := Option.map_eq_some_iff.1 h
      cases heq
      exact (List.isPrefixOf?_eq_some_iff_append_eq.1 hrest).symm

theorem greeting?_eq_some {g : List Char} (h : greeting? s = some (g, after)) : s = g ++ after := by
  unfold greeting? at h
  simp only [Option.bind_eq_bind, Option.bind_eq_some_iff, literal?_eq_some] at h
  obtain ⟨rest, rfl, ⟨body, line⟩, hsplit, h⟩ := h
  cases h
  rw [List.append_assoc, ← List.append_assoc body, ← splitAfterLast?_eq_some hsplit,
    List.takeWhile_append_dropWhile]

/-- Nothing but the line on which it stands matters to a greeting. -/
theorem greeting?_append_newline {u v : List Char} (h : greeting? (a ++ '\n' :: u) = none) :
    greeting? (a ++ '\n' :: v) = none := by
  have htake (a w : List Char) :
      (a ++ '\n' :: w).takeWhile (· != '\n') = a.takeWhile (· != '\n') := by
    induction a with
    | nil => rfl
    | cons c a ih =>
      rw [List.cons_append, List.takeWhile_cons, List.takeWhile_cons, ih]
  unfold greeting? at h ⊢
  simp only [Option.bind_eq_bind, Option.bind_eq_none_iff, literal?_eq_some] at h ⊢
  intro rest hv found hfound
  obtain ⟨a, rfl⟩ : "<HelloWorld".toList <+: a :=
    prefix_of_prefix_append_cons (by decide) ⟨rest, hv.symm⟩
  obtain rfl : a ++ '\n' :: v = rest := by simpa using hv
  rw [htake] at hfound
  cases h (a ++ '\n' :: u) (by simp) found (by rw [htake, hfound])

/-! ## Showing the route -/

/-- The only greeting of the component stands on the first line that imports it. -/
def GreetingOnImport (content : String) : Prop :=
  ∃ before g after above start below,
    find? greeting? content.toList = some (before, g, after) ∧
      OnImport before after above start below

/-- What the patch leaves: the route in the place of the greeting, without the import. -/
theorem showRoute_ok (h : showRoute content = .ok text) :
    ∃ before g after, find? greeting? content.toList = some (before, g, after) ∧
      find? greeting? after = none ∧
      text.toList = dropGreetingImport true ((before ++ routeElement.toList) ++ after) := by
  unfold showRoute at h
  obtain ⟨before, g, after, hfound, hnone, htext⟩ := anchor_bind_eq_ok h
  cases htext
  exact ⟨before, g, after, hfound, hnone, String.toList_ofList⟩

/-- **The route is shown** unless it was put on the import of the greeting. -/
theorem showsRoute_of_showRoute (h : showRoute content = .ok text)
    (hon : ¬ GreetingOnImport content) : showsRoute text = true := by
  obtain ⟨before, g, after, hfound, -, htext⟩ := showRoute_ok h
  rcases dropGreetingImport_route before after with hroute | ⟨above, start, below, himport⟩
  · refine occursIn_iff.2 (List.IsInfix.trans (List.IsPrefix.isInfix ?_) (htext ▸ hroute))
    decide
  · exact absurd ⟨before, g, after, above, start, below, hfound, himport⟩ hon

/-- What the patch leaves where the greeting stands on its import: the lines above the import and those
below it. No greeting begins in either. -/
theorem exists_left_of_greetingOnImport (h : showRoute content = .ok text)
    (hon : GreetingOnImport content) :
    ∃ above cut below, content.toList = above ++ (cut ++ below) ∧ text.toList = above ++ below ∧
      MayBegin true above ∧ find? greeting? below = none ∧
      ∀ y, y ≠ [] → y <:+ above → greeting? (y ++ below) = none := by
  obtain ⟨before, g, after, hfound, hafter, htext⟩ := showRoute_ok h
  obtain ⟨before', g', after', above, start, below, hfound', himport⟩ := hon
  rw [hfound] at hfound'
  cases hfound'
  rw [himport.dropGreetingImport_eq (by decide)] at htext
  obtain ⟨rfl, hbegins, -, -, -, line, -, rfl⟩ := himport
  obtain ⟨t, -, hcontent, hread, hfirst⟩ := find?_eq_some hfound
  rw [greeting?_eq_some hread] at hcontent
  refine ⟨above, start ++ (g ++ (line ++ ['\n'])), below, by simp [hcontent], htext, hbegins, ?_,
    fun y hy hsuffix => ?_⟩
  · have hsuffix : below <:+ line ++ '\n' :: below :=
      (List.suffix_cons _ _).trans (List.suffix_append _ _)
    exact find?_eq_none_iff.2 fun u hu hub => find?_eq_none_iff.1 hafter u hu (hub.trans hsuffix)
  · rcases hbegins with ⟨rfl, -⟩ | ⟨a, rfl⟩
    · exact absurd (List.suffix_nil.1 hsuffix) hy
    · obtain ⟨y, rfl, z, rfl⟩ := (List.suffix_concat_iff.1 hsuffix).resolve_left hy
      have hearlier := hfirst ((y ++ ['\n']) ++ start) (by simp) ⟨z, by simp⟩
      rw [List.append_assoc, List.append_assoc, List.singleton_append] at hearlier
      rw [List.append_assoc, List.singleton_append]
      exact greeting?_append_newline hearlier

/-- **On the import of the greeting the route is lost**, and the greeting with it. -/
theorem lost_of_greetingOnImport (h : showRoute content = .ok text)
    (hnew : showsRoute content = false) (hon : GreetingOnImport content) :
    showsRoute text = false ∧ showRoute text = .error ⟨greetingPattern, 0⟩ := by
  obtain ⟨above, cut, below, hcontent, htext, hbegins, hbelow, habove⟩ :=
    exists_left_of_greetingOnImport h hon
  have hnot : ¬ routeMark.toList <:+: content.toList := fun hin => by
    rw [showsRoute, occursIn_iff.2 hin] at hnew
    cases hnew
  constructor
  · refine Bool.eq_false_iff.2 fun hshown => hnot ?_
    have hin := occursIn_iff.1 hshown
    rw [htext] at hin
    rw [hcontent]
    rcases hbegins with ⟨rfl, -⟩ | ⟨a, rfl⟩
    · exact hin.trans ⟨cut, [], by simp⟩
    · rw [List.append_assoc, List.singleton_append] at hin
      rcases infix_append_cons (by decide) hin with ha | hb
      · exact ha.trans ⟨[], '\n' :: (cut ++ below), by simp⟩
      · exact hb.trans ⟨a ++ '\n' :: cut, [], by simp⟩
  · have hnone : find? greeting? text.toList = none := by
      rw [htext]
      refine find?_eq_none_iff.2 fun u hu hsuffix => ?_
      rcases suffix_append_cases hsuffix with hu' | ⟨y, hy, hya, rfl⟩
      · exact find?_eq_none_iff.1 hbelow u hu hu'
      · exact habove y hy hya
    rw [showRoute, anchor_of_none hnone]
    rfl

/-- No character is new but those of the route. -/
theorem not_mem_showRoute {c : Char} (h : showRoute content = .ok text)
    (hroute : c ∉ routeElement.toList) (hcontent : c ∉ content.toList) : c ∉ text.toList := by
  obtain ⟨before, g, after, hfound, -, htext⟩ := showRoute_ok h
  obtain ⟨t, -, heq, hread, -⟩ := find?_eq_some hfound
  rw [greeting?_eq_some hread] at heq
  have hall : c ∉ (before ++ routeElement.toList) ++ after := by
    rw [heq] at hcontent
    simp only [List.mem_append, not_or] at hcontent ⊢
    exact ⟨⟨hcontent.1, hroute⟩, hcontent.2.2⟩
  rw [htext]
  rcases dropGreetingImport_cases true ((before ++ routeElement.toList) ++ after) with
    hsame | ⟨a, line, b, hsplit, -, -, -, hdrop⟩
  · rwa [hsame]
  · rw [hsplit] at hall
    rw [hdrop]
    simp only [List.mem_append, List.mem_cons, not_or] at hall ⊢
    exact ⟨hall.1, hall.2.2.2⟩

end Scaffold.AppView
