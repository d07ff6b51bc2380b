import Scaffold.Entries
import Mathlib.Data.List.Basic

/-!
# Patterns

Search patterns, read the way a backtracking search reads them: the alternatives of a pattern are
tried in the order of preference until all that follows can be read too.

* **What follows** is the last argument of `read`. A failure there is what makes a search go back.
* **Repetitions** are of characters of one class. As many as possible are preferred, or as few.
* **A search** goes from left to right. Where the pattern can be read it goes on behind what was
  read, and anywhere else behind the next character.
-/

namespace Scaffold.Text

/-- A search pattern. -/
inductive Pattern where
  /-- nothing -/
  | empty
  /-- a character of a class -/
  | one (p : Char → Bool)
  /-- characters of a class, preferably many -/
  | most (p : Char → Bool)
  /-- characters of a class, preferably few -/
  | fewest (p : Char → Bool)
  /-- the start of a line -/
  | lineStart
  /-- the end of a line -/
  | lineEnd
  /-- one pattern after the other -/
  | seq (a b : Pattern)
  /-- preferably the first pattern, or else the second -/
  | alt (a b : Pattern)
  /-- a pattern whose text is remembered under a name -/
  | group (name : String) (a : Pattern)

/-- A place in a text. -/
structure Place where
  /-- a line starts here -/
  lineStart : Bool
  /-- what follows -/
  rest : List Char

/-- The place behind some characters, of which `rest` follows. -/
def behind (lineStart : Bool) (text rest : List Char) : Place :=
  ⟨text.foldl (fun _ c => c == '\n') lineStart, rest⟩

theorem behind_append (lineStart : Bool) (s t rest : List Char) :
    behind lineStart (s ++ t) rest = behind (behind lineStart s (t ++ rest)).lineStart t rest := by
  simp [behind]

/-- The text between two places. -/
def Place.upTo (a b : Place) : List Char := a.rest.take (a.rest.length - b.rest.length)

theorem Place.upTo_of_eq_append {a b : Place} (text : List Char)
    (h : a.rest = text ++ b.rest) : a.upTo b = text := by
  rw [upTo, h, List.length_append, Nat.add_sub_cancel]
  exact List.take_left' rfl

namespace Pattern

variable {α : Type}

/-- Reads as many characters of a class as possible, but so that `next` can go on. -/
def readMost (p : Char → Bool) (next : Place → Option α) (lineStart : Bool) :
    List Char → Option α
  | [] => next ⟨lineStart, []⟩
  | c :: rest =>
    if p c then (readMost p next (c == '\n') rest).or (next ⟨lineStart, c :: rest⟩)
    else next ⟨lineStart, c :: rest⟩

/-- Reads as few characters of a class as possible, but so that `next` can go on. -/
def readFewest (p : Char → Bool) (next : Place → Option α) (lineStart : Bool) :
    List Char → Option α
  | [] => next ⟨lineStart, []⟩
  | c :: rest =>
    (next ⟨lineStart, c :: rest⟩).or
      (if p c then readFewest p next (c == '\n') rest else none)

/-- Reads a pattern so that `next` can go on, with the remembered texts. -/
def read : Pattern → Place → Entries (List Char) →
    (Place → Entries (List Char) → Option α) → Option α
  | .empty, s, groups, next => next s groups
  | .one p, s, groups, next =>
    match s.rest with
    | [] => none
    | c :: rest => if p c then next ⟨c == '\n', rest⟩ groups else none
  | .most p, s, groups, next => readMost p (next · groups) s.lineStart s.rest
  | .fewest p, s, groups, next => readFewest p (next · groups) s.lineStart s.rest
  | .lineStart, s, groups, next => if s.lineStart then next s groups else none
  | .lineEnd, s, groups, next =>
    match s.rest with
    | [] => next s groups
    | c :: _ => if c == '\n' then next s groups else none
  | .seq a b, s, groups, next => a.read s groups fun t groups => b.read t groups next
  | .alt a b, s, groups, next => (a.read s groups next).or (b.read s groups next)
  | .group name a, s, groups, next =>
    a.read s groups fun t groups => next t (groups.insert name (s.upTo t))

/-- Patterns in turn. -/
def seqs : List Pattern → Pattern := List.foldr .seq .empty

/-- A fixed text. -/
def literal (text : List Char) : Pattern := seqs (text.map fun c => .one (· == c))

end Pattern

/-- What was read of a pattern. -/
structure Found where
  /-- all that was read -/
  text : List Char
  /-- the remembered texts -/
  groups : Entries (List Char)
  /-- the place behind it -/
  after : Place

/-- What is read of a pattern at a place. -/
def Pattern.at? (p : Pattern) (s : Place) : Option Found :=
  p.read s [] fun after groups => some ⟨s.upTo after, groups, after⟩

/-- A stretch of a text that was searched. -/
inductive Stretch where
  /-- a place where the pattern was read -/
  | found (m : Found)
  /-- a character between such places -/
  | plain (c : Char)

/-- How a search for a pattern that never reads an empty text cuts a text. -/
inductive Cut (p : Pattern) : Place → List Stretch → Prop
  /-- the end of the text -/
  | done {lineStart : Bool} (h : p.at? ⟨lineStart, []⟩ = none) : Cut p ⟨lineStart, []⟩ []
  /-- the pattern was read -/
  | found {s : Place} {m : Found} {rest : List Stretch} (h : p.at? s = some m)
      (hne : m.text ≠ []) (hrest : Cut p m.after rest) : Cut p s (.found m :: rest)
  /-- the pattern was not read -/
  | plain {lineStart : Bool} {c : Char} {s : List Char} {rest : List Stretch}
      (h : p.at? ⟨lineStart, c :: s⟩ = none) (hrest : Cut p ⟨c == '\n', s⟩ rest) :
    Cut p ⟨lineStart, c :: s⟩ (.plain c :: rest)

/-- A text is cut in one way. -/
theorem Cut.unique {p : Pattern} {s : Place} {xs ys : List Stretch} (h : Cut p s xs)
    (hother : Cut p s ys) : xs = ys := by
  induction h generalizing ys with
  | done h =>
    cases hother with
    | done => rfl
    | found h' =>
      rw [h] at h'
      cases h'
  | found h _ _ ih =>
    cases hother with
    | done h' =>
      rw [h] at h'
      cases h'
    | found h' _ hrest =>
      rw [h] at h'
      cases h'
      rw [ih hrest]
    | plain h' =>
      rw [h] at h'
      cases h'
  | plain h _ ih =>
    cases hother with
    | found h' =>
      rw [h] at h'
      cases h'
    | plain _ hrest => rw [ih hrest]

/-- What follows the last place where the pattern was read, if there is one. -/
def behindLast? : List Stretch → Option (List Char)
  | [] => none
  | .found m :: rest => (behindLast? rest).or (some m.after.rest)
  | .plain _ :: rest => behindLast? rest

namespace Pattern

variable {α : Type} {p : Char → Bool} {next : Place → Option α}
  {go : Place → Entries (List Char) → Option α} {lineStart : Bool} {s t u : List Char} {x : α}
  {groups : Entries (List Char)}

/-! ## Repetitions -/

/-- What was read as many characters is some characters. -/
theorem exists_of_readMost (h : readMost p next lineStart s = some x) :
    ∃ u t, s = u ++ t ∧ (∀ c ∈ u, p c = true) ∧ next (behind lineStart u t) = some x := by
  induction s generalizing lineStart with
  | nil => exact ⟨[], [], rfl, nofun, h⟩
  | cons c s ih =>
    rw [readMost] at h
    split at h
    · rename_i hc
      rcases Option.or_eq_some_iff.1 h with h | ⟨-, h⟩
      · obtain ⟨u, t, rfl, hu, hnext⟩ := ih h
        exact ⟨c :: u, t, rfl, List.forall_mem_cons.2 ⟨hc, hu⟩, hnext⟩
      · exact ⟨[], c :: s, rfl, nofun, h⟩
    · exact ⟨[], c :: s, rfl, nofun, h⟩

theorem exists_of_readFewest (h : readFewest p next lineStart s = some x) :
    ∃ u t, s = u ++ t ∧ (∀ c ∈ u, p c = true) ∧ next (behind lineStart u t) = some x := by
  induction s generalizing lineStart with
  | nil => exact ⟨[], [], rfl, nofun, h⟩
  | cons c s ih =>
    rw [readFewest] at h
    rcases Option.or_eq_some_iff.1 h with h | ⟨-, h⟩
    · exact ⟨[], c :: s, rfl, nofun, h⟩
    · split at h
      · rename_i hc
        obtain ⟨u, t, rfl, hu, hnext⟩ := ih h
        exact ⟨c :: u, t, rfl, List.forall_mem_cons.2 ⟨hc, hu⟩, hnext⟩
      · cases h

/-- Many characters are read if nothing can go on behind more of them. -/
theorem readMost_eq_some (hu : ∀ c ∈ u, p c = true)
    (hmore : ∀ v w, t = v ++ w → v ≠ [] → (∀ c ∈ v, p c = true) →
      next (behind lineStart (u ++ v) w) = none)
    (h : next (behind lineStart u t) = some x) : readMost p next lineStart (u ++ t) = some x := by
  induction u generalizing lineStart with
  | nil =>
    cases t with
    | nil => exact h
    | cons c t =>
      rw [List.nil_append, readMost]
      split
      · rename_i hc
        have hnone : readMost p next (c == '\n') t = none := by
          by_contra hne
          obtain ⟨y, hy⟩ := Option.ne_none_iff_exists'.1 hne
          obtain ⟨v, w, rfl, hv, hnext⟩ := exists_of_readMost hy
          have hfails := hmore (c :: v) w rfl (List.cons_ne_nil _ _)
            (List.forall_mem_cons.2 ⟨hc, hv⟩)
          rw [List.nil_append] at hfails
          exact absurd (hfails.symm.trans hnext) nofun
        rw [hnone, Option.none_or]
        exact h
      · exact h
  | cons c u ih =>
    obtain ⟨hc, hu⟩ := List.forall_mem_cons.1 hu
    rw [List.cons_append, readMost, if_pos hc, ih hu hmore h, Option.some_or]

/-- Where the class ends no more can be read, so nothing has to be given back. -/
theorem readMost_of_stop (hu : ∀ c ∈ u, p c = true) (ht : ∀ c ∈ t.head?, p c = false)
    (h : next (behind lineStart u t) = some x) : readMost p next lineStart (u ++ t) = some x := by
  refine readMost_eq_some hu ?_ h
  rintro v w rfl hne hv
  obtain ⟨c, v, rfl⟩ := List.exists_cons_of_ne_nil hne
  have hc := ht c rfl
  rw [hv c (.head _)] at hc
  cases hc

/-- Few characters are read if nothing can go on behind fewer of them. -/
theorem readFewest_eq_some (hu : ∀ c ∈ u, p c = true)
    (hless : ∀ v w, u = v ++ w → w ≠ [] → next (behind lineStart v (w ++ t)) = none)
    (h : next (behind lineStart u t) = some x) : readFewest p next lineStart (u ++ t) = some x := by
  induction u generalizing lineStart with
  | nil =>
    cases t with
    | nil => exact h
    | cons c t =>
      have hnow : next ⟨lineStart, c :: t⟩ = some x := h
      rw [List.nil_append, readFewest, hnow, Option.some_or]
  | cons c u ih =>
    obtain ⟨hc, hu⟩ := List.forall_mem_cons.1 hu
    have hnow : next ⟨lineStart, c :: (u ++ t)⟩ = none :=
      hless [] (c :: u) rfl (List.cons_ne_nil _ _)
    rw [List.cons_append, readFewest, hnow, Option.none_or, if_pos hc]
    exact ih hu (fun v w hv hw => hless (c :: v) w (congrArg (c :: ·) hv) hw) h

/-! ## Fixed texts -/

theorem read_literal_append (text : List Char) :
    (literal text).read ⟨lineStart, text ++ t⟩ groups go = go (behind lineStart text t) groups := by
  induction text generalizing lineStart with
  | nil => rfl
  | cons c text ih =>
    change (if c == c then (literal text).read ⟨c == '\n', text ++ t⟩ groups go else none) = _
    rw [if_pos (beq_self_eq_true c)]
    exact ih

theorem exists_of_read_literal {text : List Char}
    (h : (literal text).read ⟨lineStart, s⟩ groups go = some x) :
    ∃ t, s = text ++ t ∧ go (behind lineStart text t) groups = some x := by
  induction text generalizing lineStart s with
  | nil => exact ⟨s, rfl, h⟩
  | cons c text ih =>
    cases s with
    | nil => cases h
    | cons d s =>
      change (if d == c then (literal text).read ⟨d == '\n', s⟩ groups go else none) = _ at h
      split at h
      · rename_i hd
        obtain rfl := eq_of_beq hd
        obtain ⟨t, rfl, hgo⟩ := ih h
        exact ⟨t, rfl, hgo⟩
      · cases h

end Pattern

end Scaffold.Text
