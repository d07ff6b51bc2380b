import Scaffold.Proofs.Effects.Ledger

/-!
# The keyed sections of a ledger

A ledger has three maps that are merged key by key. Two of them hold strings and one holds JSON
values; as maps of JSON values they are merged in the same way, so that what is said of one is said
of all.

* **One call** merges the sections one after another. Either none of them is refused, or the first
  refusal is the failure of the call.
* **The rest** of a ledger is changed only by a call that does not fail.
-/

namespace Scaffold

/-- The maps that are merged key by key. -/
inductive Section where
  /-- the scripts -/
  | scripts
  /-- the commands on changed files -/
  | lintStaged
  /-- the settings of tools -/
  | config
  deriving DecidableEq

/-- The name of a section in failures. -/
def Section.name : Section → String
  | .scripts => "scripts"
  | .lintStaged => "lint-staged"
  | .config => "config"

/-- What effects declare in a section. -/
def Effects.declared (e : Effects) : Section → Entries Json
  | .scripts => e.scripts.map fun (key, text) => (key, .str text)
  | .lintStaged => e.lintStaged.map fun (key, text) => (key, .str text)
  | .config => e.packageConfig

namespace OwnedEntries

variable {α β : Type}

/-- A section with other values. -/
def map (f : α → β) (m : OwnedEntries α) : OwnedEntries β where
  values := m.values.map fun (key, a) => (key, f a)
  owners := m.owners

theorem get?_values_map (f : α → β) (m : OwnedEntries α) (k : String) :
    (m.map f).values.get? k = (m.values.get? k).map f :=
  Entries.get?_map f m.values k

theorem keys_values_map (f : α → β) (m : OwnedEntries α) : (m.map f).values.keys = m.values.keys :=
  Entries.keys_map f m.values

/-- A refusal with other values. -/
def Refusal.map (f : α → β) : Refusal α → Refusal β
  | .clash key owner first second => .clash key owner (f first) (f second)
  | .ownerless key => .ownerless key

variable {agree : α → α → Bool} {agree' : β → β → Bool} {f : α → β}

theorem refusal?_map (hagree : ∀ x y, agree' (f x) (f y) = agree x y) (m : OwnedEntries α)
    (key : String) (value : α) :
    (m.map f).refusal? agree' key (f value) = (m.refusal? agree key value).map (Refusal.map f) := by
  rw [refusal?, refusal?, map, Entries.get?_map]
  cases m.values.get? key with
  | none => rfl
  | some first =>
    simp only [Option.map_some, hagree]
    split
    · rfl
    · cases m.owners.get? key <;> rfl

theorem claim_map (f : α → β) (m : OwnedEntries α) (feature key : String) (value : α) :
    (m.map f).claim feature key (f value) = (m.claim feature key value).map f :=
  congrArg (mk · _) (Entries.insertNew_map f m.values key value)

/-- Merging commutes with a translation of the values that keeps which of them agree. -/
theorem merge_map (hagree : ∀ x y, agree' (f x) (f y) = agree x y) (feature : String)
    (m : OwnedEntries α) (new : Entries α) :
    (m.map f).merge agree' feature (new.map fun (key, a) => (key, f a)) =
      ((m.merge agree feature new).1.map f, (m.merge agree feature new).2.map (Refusal.map f)) := by
  induction new generalizing m with
  | nil => rfl
  | cons e new ih =>
    obtain ⟨key, value⟩ := e
    rw [List.map_cons, merge, merge, refusal?_map hagree]
    cases m.refusal? agree key value with
    | some refusal => rfl
    | none =>
      simp only [Option.map_none]
      rw [claim_map, ih]

end OwnedEntries

namespace Ledger

/-- A section of a ledger. -/
def part (a : Ledger) : Section → OwnedEntries Json
  | .scripts => a.scripts.map fun s : String => .str s
  | .lintStaged => a.lintStaged.map fun s : String => .str s
  | .config => a.packageConfig

/-- A section of a ledger with what a feature declares merged into it. -/
def extended (a : Ledger) (feature : String) (e : Effects) (s : Section) :
    OwnedEntries Json × Option (OwnedEntries.Refusal Json) :=
  (a.part s).merge Json.agrees feature (e.declared s)

/-- Two ledgers are the same outside the sections. -/
structure SameRest (a b : Ledger) : Prop where
  /-- the same features -/
  features : b.features = a.features
  /-- the same packages -/
  dependencies : b.dependencies = a.dependencies
  /-- the same packages for development -/
  devDependencies : b.devDependencies = a.devDependencies
  /-- the same import lines -/
  imports : b.imports = a.imports
  /-- the same calls -/
  useCalls : b.useCalls = a.useCalls

variable {a b : Ledger} {feature : String} {e : Effects} {failure : Failure}
  {failure? : Option Failure} {events : List Event}

/-- How the merging of the sections can go. -/
inductive Merged (a : Ledger) (feature : String) (e : Effects) (b : Ledger) : Option Failure → Prop
  /-- no section was refused -/
  | all (h : ∀ s, a.extended feature e s = (b.part s, none)) : Merged a feature e b none
  /-- a section was refused; each of the others was merged or is as it was -/
  | refusedIn (s : Section) {r : OwnedEntries.Refusal Json}
      (hrefused : (a.extended feature e s).2 = some r)
      (hparts : ∀ t, b.part t = (a.extended feature e t).1 ∨ b.part t = a.part t) :
    Merged a feature e b (some (refused s.name feature id r))

theorem refused_map {α : Type} (field feature : String) (f : α → Json)
    (r : OwnedEntries.Refusal α) :
    refused field feature id (r.map f) = refused field feature f r := by
  cases r <;> rfl

/-- Strings are merged as JSON values are. -/
theorem merge_texts {m m' : OwnedEntries String} {new : Entries String}
    {r : Option (OwnedEntries.Refusal String)} (h : m.merge (· == ·) feature new = (m', r)) :
    (m.map fun s : String => .str s).merge Json.agrees feature
        (new.map fun (key, text) => (key, .str text)) =
      (m'.map fun s : String => .str s, r.map (OwnedEntries.Refusal.map fun s : String => .str s)) := by
  have hagree (x y : String) : Json.agrees (.str x) (.str y) = (x == y) := by
    rw [Bool.eq_iff_iff]
    simp [Json.agrees, Json.same]
  rw [OwnedEntries.merge_map hagree, h]

theorem mergeSections_merged (h : a.mergeSections feature e = (b, failure?)) :
    SameRest a b ∧ Merged a feature e b failure? := by
  -- the sections in their order; those after a refusal are as they were
  rw [mergeSections] at h
  rcases hscripts : a.scripts.merge (· == ·) feature e.scripts with ⟨scripts, _ | r⟩
  · have hscripts' : a.extended feature e .scripts = _ := merge_texts hscripts
    rcases hlintStaged : a.lintStaged.merge (· == ·) feature e.lintStaged with ⟨lintStaged, _ | r⟩
    · have hlintStaged' : a.extended feature e .lintStaged = _ := merge_texts hlintStaged
      rcases hconfig : a.packageConfig.merge Json.agrees feature e.packageConfig with
        ⟨packageConfig, _ | r⟩
      · simp only [hscripts, hlintStaged, hconfig] at h
        cases h
        refine ⟨⟨rfl, rfl, rfl, rfl, rfl⟩, .all fun s => ?_⟩
        cases s with
        | scripts => exact hscripts'
        | lintStaged => exact hlintStaged'
        | config => exact hconfig
      · simp only [hscripts, hlintStaged, hconfig] at h
        cases h
        refine ⟨⟨rfl, rfl, rfl, rfl, rfl⟩,
          .refusedIn .config (congrArg Prod.snd hconfig) fun t => ?_⟩
        cases t with
        | scripts => exact .inl (congrArg Prod.fst hscripts').symm
        | lintStaged => exact .inl (congrArg Prod.fst hlintStaged').symm
        | config => exact .inl (congrArg Prod.fst hconfig).symm
    · have hlintStaged' : a.extended feature e .lintStaged = _ := merge_texts hlintStaged
      simp only [hscripts, hlintStaged] at h
      cases h
      rw [← refused_map]
      refine ⟨⟨rfl, rfl, rfl, rfl, rfl⟩,
        .refusedIn .lintStaged (congrArg Prod.snd hlintStaged') fun t => ?_⟩
      cases t with
      | scripts => exact .inl (congrArg Prod.fst hscripts').symm
      | lintStaged => exact .inl (congrArg Prod.fst hlintStaged').symm
      | config => exact .inr rfl
  · have hscripts' : a.extended feature e .scripts = _ := merge_texts hscripts
    simp only [hscripts] at h
    cases h
    rw [← refused_map]
    refine ⟨⟨rfl, rfl, rfl, rfl, rfl⟩,
      .refusedIn .scripts (congrArg Prod.snd hscripts') fun t => ?_⟩
    cases t with
    | scripts => exact .inl (congrArg Prod.fst hscripts').symm
    | lintStaged | config => exact .inr rfl

/-- A call that does not fail has merged all sections. -/
theorem extended_of_record_ok (h : a.record feature e = (b, .ok events)) (s : Section) :
    a.extended feature e s = (b.part s, none) := by
  rw [record] at h
  rcases hmerged : a.mergeSections feature e with ⟨c, _ | failure⟩
  · rw [hmerged] at h
    cases h
    cases (mergeSections_merged hmerged).2 with
    | all hparts =>
      rw [hparts s]
      cases s <;> rfl
  · rw [hmerged] at h
    cases h

/-- **A call that fails** was refused in a section, and has changed nothing but the sections. -/
theorem refused_of_record_error (h : a.record feature e = (b, .error failure)) :
    SameRest a b ∧ Merged a feature e b (some failure) := by
  rw [record] at h
  rcases hmerged : a.mergeSections feature e with ⟨c, _ | failure'⟩
  · rw [hmerged] at h
    cases h
  · rw [hmerged] at h
    cases h
    exact mergeSections_merged hmerged

end Ledger

end Scaffold
