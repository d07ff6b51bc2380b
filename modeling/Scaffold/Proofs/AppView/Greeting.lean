import Scaffold.Proofs.AppView.Route
import Scaffold.Proofs.Text.Lines

/-!
# What gives way to the route

The patch of the root component takes a stretch of a line for the greeting element.

* **A stretch** goes from the first start of a greeting on a line to the last end of an element on it,
  and so over other elements. A line has one at most.
* **An element** ends at the first `>` behind its name, maybe on another line.
* **The only stretch is found** and gives way to the route. This is what happens to the only element
  exactly if the two are the same.
-/

namespace Scaffold.AppView

open Text

variable {s a b g x before after : List Char}

/-! ## Parts of a text -/

/-- The only part of its kind in a text. A kind may depend on the text before a part and after it. -/
structure Only (kind : List Char → List Char → List Char → Prop) (s before part after : List Char) :
    Prop where
  /-- the part and what stands around it -/
  split : s = before ++ (part ++ after)
  /-- the part is of the kind -/
  isKind : kind before part after
  /-- no other part is -/
  only : ∀ b p a, s = b ++ (p ++ a) → kind b p a → b = before ∧ p = part

theorem Only.unique {kind : List Char → List Char → List Char → Prop} {p p' b' a' : List Char}
    (h : Only kind s b p a) (h' : Only kind s b' p' a') : b = b' ∧ p = p' ∧ a = a' := by
  obtain ⟨rfl, rfl⟩ := h'.only b p a h.split h.isKind
  have hsplit := h.split.symm.trans h'.split
  exact ⟨rfl, rfl, List.append_cancel_left (List.append_cancel_left hsplit)⟩

/-- The start of a greeting element and the end of an element on one line, and what is between them. -/
def Spelled (g : List Char) : Prop :=
  ∃ body, '\n' ∉ body ∧ g = "<HelloWorld".toList ++ (body ++ "/>".toList)

/-- From the first start of a greeting element on a line to the last end of an element on it. -/
structure IsStretch (before part after : List Char) : Prop where
  /-- the stretch is on one line, from a start to an end -/
  spelled : Spelled part
  /-- no greeting element starts earlier on the line -/
  first : ∀ y, y <:+ before → '\n' ∉ y → ¬ "<HelloWorld".toList <:+: y
  /-- no element ends later on the line -/
  last : ∀ x, x <+: after → '\n' ∉ x → ¬ "/>".toList <:+: x

/-- A greeting element. It ends at the first `>` behind its name. -/
def IsElement (_before part _after : List Char) : Prop :=
  ∃ attributes, part = "<HelloWorld".toList ++ (attributes ++ "/>".toList) ∧ '>' ∉ attributes ∧
    ∀ c ∈ attributes.head?, isBlank c = true

/-! ## Stretches -/

theorem Spelled.not_mem (h : Spelled g) : '\n' ∉ g := by
  obtain ⟨body, hbody, rfl⟩ := h
  simp only [List.mem_append, not_or]
  exact ⟨by decide, hbody, by decide⟩

theorem Spelled.ne_nil (h : Spelled g) : g ≠ [] := by
  obtain ⟨body, -, rfl⟩ := h
  simp

theorem splitAfterLast?_eq_none_iff {needle : List Char} (hne : needle ≠ []) :
    splitAfterLast? needle s = none ↔ ¬ needle <:+: s := by
  induction s with
  | nil => simp [splitAfterLast?, hne]
  | cons c s ih =>
    rw [splitAfterLast?, List.infix_cons_iff, not_or, ← ih]
    cases splitAfterLast? needle s with
    | some found => simp
    | none =>
      simp only [Option.map_eq_none_iff, and_true]
      constructor
      · rintro hread ⟨rest, hrest⟩
        rw [List.isPrefixOf?_eq_some_iff_append_eq.2 hrest] at hread
        cases hread
      · refine fun hnot => Option.eq_none_iff_forall_ne_some.2 fun rest hread => hnot ?_
        exact ⟨rest, List.isPrefixOf?_eq_some_iff_append_eq.1 hread⟩

theorem splitAfterLast?_spec {needle : List Char} (hne : needle ≠ [])
    (h : splitAfterLast? needle s = some (a, b)) :
    (∃ x, a = x ++ needle) ∧ s = a ++ b ∧ ¬ needle <:+: b := by
  induction s generalizing a with
  | nil => cases h
  | cons c s ih =>
    rw [splitAfterLast?] at h
    split at h
    · rename_i hmore
      cases h
      obtain ⟨⟨x, rfl⟩, rfl, hb⟩ := ih hmore
      exact ⟨⟨c :: x, rfl⟩, rfl, hb⟩
    · rename_i hmore
      obtain ⟨rest, hrest, heq⟩ := Option.map_eq_some_iff.1 h
      cases heq
      have hs := (List.isPrefixOf?_eq_some_iff_append_eq.1 hrest).symm
      refine ⟨⟨[], rfl⟩, hs, fun hin => (splitAfterLast?_eq_none_iff hne).1 hmore (hin.trans ?_)⟩
      obtain ⟨d, needle', rfl⟩ := List.exists_cons_of_ne_nil hne
      rw [(List.cons.inj hs).2]
      exact (List.suffix_append _ _).isInfix

/-- A greeting is read where a stretch begins. -/
theorem greeting?_eq_none_iff : greeting? s = none ↔ ¬ ∃ g, Spelled g ∧ g <+: s := by
  unfold greeting?
  simp only [Option.bind_eq_bind, Option.bind_eq_none_iff, literal?_eq_some]
  constructor
  · rintro h ⟨-, ⟨body, hbody, rfl⟩, rest, rfl⟩
    have hunbroken : '\n' ∉ body ++ "/>".toList := by
      simp [hbody]
    cases hsplit : splitAfterLast? ['/', '>']
        (((body ++ "/>".toList) ++ rest).takeWhile (· != '\n')) with
    | some found =>
      have := h _ (by rw [List.append_assoc]) found hsplit
      cases this
    | none =>
      rw [List.takeWhile_append_of_pos (forall_bne_of_not_mem hunbroken)] at hsplit
      exact (splitAfterLast?_eq_none_iff (by simp)).1 hsplit
        ⟨body, rest.takeWhile (· != '\n'), by simp⟩
  · rintro h rest rfl ⟨p, q⟩ hsplit
    obtain ⟨⟨body, rfl⟩, htake, -⟩ := splitAfterLast?_spec (by simp) hsplit
    refine absurd ⟨"<HelloWorld".toList ++ (body ++ "/>".toList), ⟨body, fun hmem => ?_, rfl⟩, ?_⟩ h
    · have hin : '\n' ∈ rest.takeWhile (· != '\n') := by simp [htake, hmem]
      simpa using List.mem_takeWhile_imp hin
    · rw [List.prefix_append_right_inj]
      refine List.IsPrefix.trans ?_ (List.takeWhile_prefix (· != '\n'))
      exact htake ▸ List.prefix_append _ _

/-- What is read goes on to the last end of an element on the line. -/
theorem greeting?_spec (h : greeting? s = some (g, after)) :
    s = g ++ after ∧ Spelled g ∧ ∀ x, x <+: after → '\n' ∉ x → ¬ "/>".toList <:+: x := by
  refine ⟨greeting?_eq_some h, ?_⟩
  unfold greeting? at h
  simp only [Option.bind_eq_bind, Option.bind_eq_some_iff, literal?_eq_some] at h
  obtain ⟨rest, rfl, ⟨p, q⟩, hsplit, h⟩ := h
  cases h
  obtain ⟨⟨body, rfl⟩, htake, hlast⟩ := splitAfterLast?_spec (by simp) hsplit
  have hunbroken : '\n' ∉ rest.takeWhile (· != '\n') := fun hmem => by
    simpa using List.mem_takeWhile_imp hmem
  rw [htake] at hunbroken
  simp only [List.mem_append, not_or] at hunbroken
  refine ⟨⟨body, hunbroken.1.1, rfl⟩, fun x hx hnewline hin => hlast (hin.trans ?_)⟩
  -- A text without newlines at the start of what follows ends on the line.
  refine List.IsPrefix.isInfix ?_
  rcases dropWhile_newline rest with hrest | ⟨below, hrest⟩
  · rwa [hrest, List.append_nil] at hx
  · rw [hrest] at hx
    exact prefix_of_prefix_append_cons hnewline hx

/-- **A stretch that is found** is one: no stretch begins earlier on its line, where it would go on to
the same end. -/
theorem isStretch_of_find? (h : find? greeting? s = some (before, g, after)) :
    s = before ++ (g ++ after) ∧ IsStretch before g after := by
  obtain ⟨t, -, rfl, hread, hearlier⟩ := find?_eq_some h
  obtain ⟨rfl, hspelled, hlast⟩ := greeting?_spec hread
  refine ⟨rfl, hspelled, ?_, hlast⟩
  rintro y hy hnewline ⟨u, v, rfl⟩
  obtain ⟨body, hbody, rfl⟩ := hspelled
  have hsuffix : "<HelloWorld".toList ++ v <:+ before := by
    rw [List.append_assoc] at hy
    exact (List.suffix_append _ _).trans hy
  refine greeting?_eq_none_iff.1 (hearlier _ (by simp) hsuffix)
    ⟨_, ⟨v ++ ("<HelloWorld".toList ++ body), ?_, rfl⟩, ⟨after, by simp⟩⟩
  simp only [List.mem_append, not_or] at hnewline ⊢
  exact ⟨hnewline.2, by decide, hbody⟩

/-- A stretch that goes on over another one has an end of an element behind the shorter one. -/
theorem Spelled.eq_nil_of_append (h : Spelled g) (happend : Spelled (g ++ x))
    (hlast : ¬ "/>".toList <:+: x) : x = [] := by
  obtain ⟨body, -, rfl⟩ := h
  obtain ⟨body', -, happend⟩ := happend
  have hends : "/>".toList <:+ ("<HelloWorld".toList ++ (body ++ "/>".toList)) ++ x := by
    rw [happend, ← List.append_assoc]
    exact List.suffix_append _ _
  rcases suffix_append_cases hends with hx | ⟨y, hy, hsuffix, heq⟩
  · exact absurd hx.isInfix hlast
  · -- The shorter one would end with the first character of the end.
    change ['/', '>'] = y ++ x at heq
    obtain ⟨c, y, rfl⟩ := List.exists_cons_of_ne_nil hy
    rw [List.cons_append, List.cons.injEq] at heq
    obtain ⟨rfl, heq⟩ := heq
    rcases List.cons_eq_append_iff.1 heq with ⟨rfl, -⟩ | ⟨y, rfl, heq⟩
    · obtain ⟨z, hz⟩ := hsuffix
      rw [← List.append_assoc, show "/>".toList = ['/'] ++ ['>'] from rfl, ← List.append_assoc] at hz
      exact absurd (List.append_inj' hz rfl).2 (by decide)
    · rw [List.cons_append, List.cons.injEq] at heq
      exact (List.append_eq_nil_iff.1 heq.2.symm).2

/-- What is read where a stretch begins is the stretch. -/
theorem IsStretch.greeting?_eq (h : IsStretch before g after) :
    greeting? (g ++ after) = some (g, after) := by
  have hsome : greeting? (g ++ after) ≠ none := fun hnone =>
    greeting?_eq_none_iff.1 hnone ⟨g, h.spelled, List.prefix_append _ _⟩
  obtain ⟨⟨g', after'⟩, hread⟩ := Option.ne_none_iff_exists'.1 hsome
  obtain ⟨heq, hspelled, hlast⟩ := greeting?_spec hread
  rw [hread]
  rcases List.append_eq_append_iff.1 heq with ⟨x, rfl, rfl⟩ | ⟨x, rfl, rfl⟩
  · have hnewline := hspelled.not_mem
    rw [List.mem_append, not_or] at hnewline
    obtain rfl := h.spelled.eq_nil_of_append hspelled (h.last x (List.prefix_append _ _) hnewline.2)
    simp
  · have hnewline := h.spelled.not_mem
    rw [List.mem_append, not_or] at hnewline
    obtain rfl := hspelled.eq_nil_of_append h.spelled (hlast x (List.prefix_append _ _) hnewline.2)
    simp

/-- No stretch begins inside another one: it stands in the text after it. -/
theorem IsStretch.exists_after {p w : List Char} (h : IsStretch (before ++ w) p a) (hw : w ≠ [])
    (hspelled : Spelled g) (heq : g ++ after = w ++ (p ++ a)) : ∃ z, after = z ++ (p ++ a) := by
  rcases List.append_eq_append_iff.1 heq with ⟨z, -, hz⟩ | ⟨z, rfl, hz⟩
  · exact ⟨z, hz⟩
  by_cases hz' : z = []
  · exact ⟨[], by simpa [hz'] using hz.symm⟩
  exfalso
  obtain ⟨body, -, rfl⟩ := h.spelled
  obtain ⟨c, z, rfl⟩ := List.exists_cons_of_ne_nil hz'
  obtain rfl : '<' = c := (List.cons.inj hz).1
  have hnewline := hspelled.not_mem
  rw [List.mem_append, not_or] at hnewline
  obtain ⟨body', -, hstart⟩ := hspelled
  have hword : "<HelloWorld".toList = '<' :: "HelloWorld".toList := rfl
  have hprefix : '<' :: "HelloWorld".toList <+: w := by
    have hstarts : '<' :: "HelloWorld".toList <+: w ++ '<' :: z := by
      rw [hstart, hword]
      exact List.prefix_append _ _
    exact prefix_of_prefix_append_self (by decide) hw hstarts
  exact h.first w (List.suffix_append _ _) hnewline.1 (hword ▸ hprefix.isInfix)

/-- A stretch of the text after another one is on a line below, so that nothing before it on its line
changes. -/
theorem IsStretch.of_after {b p a : List Char} (h : IsStretch before g (b ++ (p ++ a)))
    (hother : IsStretch b p a) : IsStretch ((before ++ g) ++ b) p a := by
  have hbelow : '\n' ∈ b := by
    by_contra hnewline
    obtain ⟨body, -, hp⟩ := hother.spelled
    refine h.last (b ++ p) ⟨a, by simp⟩ ?_ ⟨b ++ ("<HelloWorld".toList ++ body), [], ?_⟩
    · simp [hnewline, hother.spelled.not_mem]
    · simp [hp]
  refine ⟨hother.spelled, fun y hy hnewline => ?_, hother.last⟩
  rcases suffix_append_cases hy with hy | ⟨z, -, -, rfl⟩
  · exact hother.first y hy hnewline
  · simp [hbelow] at hnewline

/-- The stretch that is found is the only one if none is found after it. -/
theorem only_isStretch_of_find? (hfind : find? greeting? s = some (before, g, after))
    (hafter : find? greeting? after = none) : Only IsStretch s before g after := by
  obtain ⟨rfl, hstretch⟩ := isStretch_of_find? hfind
  obtain ⟨t, -, ht, -, hearlier⟩ := find?_eq_some hfind
  obtain rfl := List.append_cancel_left ht
  refine ⟨rfl, hstretch, fun b p a heq hother => ?_⟩
  have hread := hother.greeting?_eq
  have hsame (heq : g ++ after = p ++ a) : p = g := by
    rw [← heq, hstretch.greeting?_eq] at hread
    exact (Prod.mk.inj (Option.some.inj hread)).1.symm
  rcases List.append_eq_append_iff.1 heq with ⟨w, rfl, hrest⟩ | ⟨w, rfl, hrest⟩
  · by_cases hw : w = []
    · subst hw
      exact ⟨by simp, hsame hrest⟩
    · obtain ⟨z, rfl⟩ := hother.exists_after hw hstretch.spelled hrest
      rw [find?_eq_none_iff.1 hafter (p ++ a) (by simp [hother.spelled.ne_nil])
        (List.suffix_append _ _)] at hread
      cases hread
  · by_cases hw : w = []
    · subst hw
      exact ⟨by simp, hsame hrest.symm⟩
    · rw [hrest, hearlier w hw (List.suffix_append _ _)] at hread
      cases hread

/-- The only stretch is found, and none is found after it. -/
theorem find?_of_only_isStretch (h : Only IsStretch s before g after) :
    find? greeting? s = some (before, g, after) ∧ find? greeting? after = none := by
  cases hfind : find? greeting? s with
  | none =>
    have hread := h.isKind.greeting?_eq
    rw [find?_eq_none_iff.1 hfind (g ++ after) (by simp [h.isKind.spelled.ne_nil])
      (h.split ▸ List.suffix_append _ _)] at hread
    cases hread
  | some found =>
    obtain ⟨b, p, a⟩ := found
    obtain ⟨hs, hstretch⟩ := isStretch_of_find? hfind
    obtain ⟨rfl, rfl⟩ := h.only b p a hs hstretch
    obtain rfl : a = after := by
      rw [h.split] at hs
      exact (List.append_cancel_left (List.append_cancel_left hs)).symm
    refine ⟨rfl, Option.eq_none_iff_forall_ne_some.2 fun ⟨b', p', a'⟩ hmore => ?_⟩
    obtain ⟨rfl, hother⟩ := isStretch_of_find? hmore
    obtain ⟨hsame, -⟩ := h.only ((b ++ p) ++ b') p' a' (by rw [hs]; simp) (hstretch.of_after hother)
    have hlength := congrArg List.length hsame
    have hp := List.length_pos_iff.2 hstretch.spelled.ne_nil
    simp only [List.length_append] at hlength
    omega

/-- **The patch finds the only stretch.** -/
theorem anchor_greeting?_iff :
    anchor greetingPattern greeting? s = .ok (before, g, after) ↔ Only IsStretch s before g after := by
  rw [anchor_ok_iff]
  exact ⟨fun ⟨hfind, hafter⟩ => only_isStretch_of_find? hfind hafter, find?_of_only_isStretch⟩

/-- Two elements at the start of one text are the same. -/
theorem IsElement.unique {p a' b' : List Char} (h : IsElement b g a) (h' : IsElement b' p a')
    (heq : g ++ a = p ++ a') : g = p := by
  obtain ⟨attributes, rfl, hattributes, -⟩ := h
  obtain ⟨attributes', rfl, hattributes', -⟩ := h'
  have hslash {x : List Char} (hx : '>' ∉ x) : '>' ∉ x ++ ['/'] := by simp [hx]
  have hend (x rest : List Char) : ("<HelloWorld".toList ++ (x ++ "/>".toList)) ++ rest =
      "<HelloWorld".toList ++ ((x ++ ['/']) ++ '>' :: rest) := by simp
  rw [hend, hend] at heq
  obtain ⟨hsame, -⟩ := append_cons_inj_of_not_mem (List.append_cancel_left heq) (hslash hattributes)
    (hslash hattributes')
  rw [List.append_cancel_right hsame]

/-- An element is the only one if the start of one is nowhere else. -/
theorem only_isElement {part : List Char} (hs : s = before ++ (part ++ after))
    (h : IsElement before part after)
    (hstart : ∀ n < s.length, "<HelloWorld".toList <+: s.drop n → n = before.length) :
    Only IsElement s before part after := by
  refine ⟨hs, h, fun b p a heq hother => ?_⟩
  have hp : "<HelloWorld".toList <+: p ++ a := by
    obtain ⟨attributes, rfl, -⟩ := id hother
    exact (List.prefix_append _ _).trans (List.prefix_append _ _)
  have hlength : b.length = before.length := by
    refine hstart b.length ?_ (by rwa [heq, List.drop_left])
    have hpos := hp.length_le
    rw [heq, List.length_append]
    simp at hpos ⊢
    omega
  obtain ⟨rfl, hrest⟩ := List.append_inj (heq.symm.trans hs) hlength
  exact ⟨rfl, hother.unique h hrest⟩

/-! ## The route in the place of a part -/

/-- The text with the route in the place of its only part of a kind. -/
def Replaced (kind : List Char → List Char → List Char → Prop) (s text : List Char) : Prop :=
  ∃ before part after, Only kind s before part after ∧
    text = (before ++ routeElement.toList) ++ after

/-- In a text without a route the route tells its place. -/
theorem route_place_unique {p p' b' a' : List Char} (hs : s = b ++ (p ++ a))
    (hs' : s = b' ++ (p' ++ a')) (hnew : ¬ routeMark.toList <:+: s)
    (heq : (b ++ routeElement.toList) ++ a = (b' ++ routeElement.toList) ++ a') : b = b' ∧ p = p' := by
  have hword : routeElement.toList = '<' :: "router-view />".toList := rfl
  -- A longer text before would have the whole route in it.
  have hsame {b w p a r r' : List Char} (hs : s = (b ++ w) ++ (p ++ a))
      (heq : routeElement.toList ++ r = w ++ (routeElement.toList ++ r')) : w = [] := by
    by_contra hw
    refine hnew ?_
    have hstarts : '<' :: "router-view />".toList <+: w ++ '<' :: ("router-view />".toList ++ r') :=
      ⟨r, by simpa [hword] using heq⟩
    have hmark : routeMark.toList <+: '<' :: "router-view />".toList := by decide
    obtain ⟨z, rfl⟩ := hmark.trans (prefix_of_prefix_append_self (by decide) hw hstarts)
    exact ⟨b, z ++ (p ++ a), by simp [hs]⟩
  rw [List.append_assoc, List.append_assoc] at heq
  obtain rfl : b = b' := by
    rcases List.append_eq_append_iff.1 heq with ⟨w, rfl, hw⟩ | ⟨w, rfl, hw⟩
    · simp [hsame hs' hw]
    · simp [hsame hs hw]
  obtain rfl := List.append_cancel_left (List.append_cancel_left heq)
  rw [hs] at hs'
  exact ⟨rfl, List.append_cancel_right (List.append_cancel_left hs')⟩

/-- The route brings no word into a text that has none of its signs. -/
theorem not_infix_route {part word : List Char} (hs : ¬ word <:+: before ++ (part ++ after))
    (hsigns : '<' ∉ word ∧ '>' ∉ word) (hroute : ¬ word <:+: "router-view /".toList) :
    ¬ word <:+: (before ++ routeElement.toList) ++ after := by
  intro hin
  have hsplit : (before ++ routeElement.toList) ++ after =
      before ++ '<' :: ("router-view /".toList ++ '>' :: after) := by
    rw [List.append_assoc]
    rfl
  rw [hsplit] at hin
  rcases infix_append_cons hsigns.1 hin with hbefore | hrest
  · exact hs (hbefore.trans (List.prefix_append _ _).isInfix)
  · rcases infix_append_cons hsigns.2 hrest with hmiddle | hafter
    · exact hroute hmiddle
    · exact hs (hafter.trans ((List.suffix_append _ _).trans (List.suffix_append _ _)).isInfix)

/-- **The route takes the same place** whether the only stretch is replaced or the only part of another
kind, exactly if these are the same part. -/
theorem replaced_iff {kind kind' : List Char → List Char → List Char → Prop}
    (hnew : ¬ routeMark.toList <:+: s) :
    (∀ text, Replaced kind s text ↔ Replaced kind' s text) ↔
      ∀ before part after, Only kind s before part after ↔ Only kind' s before part after := by
  constructor
  · intro h before part after
    have hsame {k k' : List Char → List Char → List Char → Prop}
        (h : ∀ text, Replaced k s text → Replaced k' s text) (hk : Only k s before part after) :
        Only k' s before part after := by
      obtain ⟨b, p, a, hother, heq⟩ := h _ ⟨before, part, after, hk, rfl⟩
      obtain ⟨rfl, rfl⟩ := route_place_unique hk.split hother.split hnew heq
      have hsplit := hk.split
      rw [hother.split] at hsplit
      rwa [List.append_cancel_left (List.append_cancel_left hsplit)] at hother
    exact ⟨hsame fun text => (h text).1, hsame fun text => (h text).2⟩
  · intro h text
    simp only [Replaced, h]

end Scaffold.AppView
