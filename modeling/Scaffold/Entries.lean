/-!
# Entries

A map that remembers the order in which its keys arrived, as the list of its entries. Manifest
sections, template contexts, the members of a JSON object and the places of a file tree are all of
this kind.

* **Position is by first arrival.** Writing a key that is present replaces its value in place; a new
  key goes to the end.
* **The view** of a map is `get?`; each operation has one lemma about it.
-/

namespace Scaffold

/-- The entries of a map in the order of their keys' first arrival. Keys are strings, unless another
type is named. -/
abbrev Entries (α : Type) (κ : Type := String) := List (κ × α)

namespace Entries

variable {α κ : Type}

/-- The keys in order. -/
def keys (m : Entries α κ) : List κ := m.map Prod.fst

variable [DecidableEq κ]

/-- The value of a key. -/
def get? (key : κ) : Entries α κ → Option α
  | [] => none
  | (k, v) :: rest => if k = key then some v else get? key rest

/-- Whether a key has a value. -/
def contains (m : Entries α κ) (key : κ) : Bool := (m.get? key).isSome

/-- Gives a key a value: in place if the key is present, else at the end. -/
def insert (key : κ) (value : α) : Entries α κ → Entries α κ
  | [] => [(key, value)]
  | (k, v) :: rest => if k = key then (k, value) :: rest else (k, v) :: insert key value rest

/-- Gives a key a value unless it has one. -/
def insertNew (key : κ) (value : α) (m : Entries α κ) : Entries α κ :=
  if m.contains key then m else m ++ [(key, value)]

/-- Writes all of `new` over `old`, one entry after another. -/
def insertAll (old new : Entries α κ) : Entries α κ :=
  new.foldl (fun m e => m.insert e.1 e.2) old

/-- The map that arises from writing the pairs one after another. -/
def ofPairs (pairs : List (κ × α)) : Entries α κ := insertAll [] pairs

@[simp]
theorem get?_nil (key : κ) : get? key ([] : Entries α κ) = none := rfl

theorem get?_insert (m : Entries α κ) (key other : κ) (value : α) :
    (m.insert key value).get? other = if key = other then some value else m.get? other := by
  induction m with
  | nil => simp [insert, get?]
  | cons e m ih =>
    by_cases h : e.1 = key
    · by_cases ho : key = other <;> simp_all [insert, get?]
    · by_cases ho : e.1 = other
      · have hk : ¬ other = key := fun hk => h (ho.trans hk)
        simp [insert, get?, ho, hk, Ne.symm hk]
      · simp [insert, get?, h, ho, ih]

theorem keys_insert (m : Entries α κ) (key : κ) (value : α) :
    (m.insert key value).keys = if key ∈ m.keys then m.keys else m.keys ++ [key] := by
  induction m with
  | nil => simp [insert, keys]
  | cons e m ih =>
    by_cases h : e.1 = key
    · simp [insert, keys, h]
    · have h' : ¬ key = e.1 := fun hk => h hk.symm
      simp only [keys] at ih
      by_cases hm : key ∈ List.map Prod.fst m <;> simp_all [insert, keys]

end Entries

end Scaffold
