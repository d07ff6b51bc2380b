import Scaffold.Proofs.Entries
import Scaffold.Proofs.Json.Written
import Mathlib.Data.List.Perm.Subperm
import Mathlib.Algebra.Order.Field.Rat
import Mathlib.Tactic.FieldSimp

/-!
# Equality of JSON values

Which values are the same, said by what the values mean.

* **Numbers** are rationals or infinities; the way in which they are written does not matter.
* **Objects** are maps: the order of their members does not matter.
* **Truth values** are no numbers in `Equal`. The comparison that is used by the program counts them
  as one and zero, which is `LooselyEqual`; in everything else the two are alike.
-/

namespace Scaffold

/-- What a number of a JSON text stands for. -/
inductive Quantity where
  /-- a rational number -/
  | rational (q : ℚ)
  /-- an infinity -/
  | infinite (negative : Bool)

namespace Binary64

/-- The rational that a finite number is. -/
def toRat (negative : Bool) (significand : Nat) (exponent : Int) : ℚ :=
  (if negative then -1 else 1) * significand * 2 ^ exponent

/-- What a number stands for, unless it is not a number. -/
def quantity? : Binary64 → Option Quantity
  | .notANumber => none
  | .infinity negative => some (.infinite negative)
  | .finite negative m e => some (.rational (toRat negative m e))

/-- A number of the format that is a number: an infinity, or a finite one with an exponent of the
format. -/
inductive IsNumber : Binary64 → Prop
  | infinity (negative : Bool) : IsNumber (.infinity negative)
  | finite (negative : Bool) (m : Nat) {e : Int} (he : minExponent ≤ e) :
    IsNumber (.finite negative m e)

/-- How often the least power of two goes into one. -/
def unit : Nat := 2 ^ (-minExponent).toNat

theorem unit_ne_zero : (unit : ℚ) ≠ 0 := by
  unfold unit
  positivity

theorem scaled_eq {e : Int} (negative : Bool) (m : Nat) (he : minExponent ≤ e) :
    (scaled negative m e : ℚ) = toRat negative m e * unit := by
  obtain ⟨k, hk⟩ : ∃ k : Nat, e = k + minExponent := ⟨(e - minExponent).toNat, by omega⟩
  have hunit : (unit : ℚ) = 2 ^ (-minExponent) := by
    rw [unit, Nat.cast_pow, ← zpow_natCast, Nat.cast_ofNat]
    rfl
  have hpow : (2 : ℚ) ^ e * unit = 2 ^ k := by
    rw [hunit, ← zpow_add₀ two_ne_zero, hk, add_assoc, add_neg_cancel, add_zero, zpow_natCast]
  have hshift : (e - minExponent).toNat = k := by omega
  rw [scaled, hshift, Nat.shiftLeft_eq, toRat, mul_assoc, hpow]
  cases negative <;> simp

theorem eqvInt_iff {x : Binary64} (hx : x.IsNumber) (i : Int) :
    x.eqvInt i = true ↔ x.quantity? = some (.rational i) := by
  cases hx with
  | infinity negative => simp [eqvInt, quantity?]
  | finite negative m he =>
    have hunit : ((1 <<< (-minExponent).toNat : Nat) : Int) = (unit : Int) := by
      rw [Nat.shiftLeft_eq, one_mul, unit]
    simp only [eqvInt, quantity?, beq_iff_eq, Option.some.injEq, Quantity.rational.injEq]
    rw [hunit, ← Int.cast_inj (α := ℚ), scaled_eq negative m he, Int.cast_mul, Int.cast_natCast,
      mul_left_inj' unit_ne_zero]

theorem eqv_iff {x y : Binary64} (hx : x.IsNumber) (hy : y.IsNumber) :
    x.eqv y = true ↔ x.quantity? = y.quantity? := by
  cases hx with
  | infinity negative =>
    cases hy with
    | infinity other => simp [eqv, quantity?]
    | finite other n hf => simp [eqv, quantity?]
  | finite negative m he =>
    cases hy with
    | infinity other => simp [eqv, quantity?]
    | finite other n hf =>
      simp only [eqv, quantity?, beq_iff_eq, Option.some.injEq, Quantity.rational.injEq]
      rw [← Int.cast_inj (α := ℚ), scaled_eq negative m he, scaled_eq other n hf,
        mul_left_inj' unit_ne_zero]

end Binary64

namespace Json

variable {a b c v w : Json} {xs ys : List Json} {ms ns : Entries Json Wide} {q : Quantity}

/-! ## What equality means -/

/-- The number that a value is. -/
def number? : Json → Option Quantity
  | .int i => some (.rational i)
  | .float x => x.quantity?
  | _ => none

/-- The number that a value counts as: a truth value is one or zero. -/
def counted? : Json → Option Quantity
  | .bool b => some (.rational (ofTruth b))
  | v => v.number?

/-- Equality of values, for a reading of some of them as numbers. -/
inductive EqualBy (quantity? : Json → Option Quantity) : Json → Json → Prop
  /-- nothing equals nothing -/
  | null : EqualBy quantity? .null .null
  /-- a truth value equals itself -/
  | bool (b : Bool) : EqualBy quantity? (.bool b) (.bool b)
  /-- values that are the same number -/
  | number {a b : Json} {q : Quantity} (ha : quantity? a = some q) (hb : quantity? b = some q) :
    EqualBy quantity? a b
  /-- a string equals itself -/
  | str (s : Wide) : EqualBy quantity? (.str s) (.str s)
  /-- lists with equal items -/
  | arr {xs ys : List Json} (hlength : xs.length = ys.length)
      (hitems : ∀ (i : Nat) (v w : Json), xs[i]? = some v → ys[i]? = some w →
        EqualBy quantity? v w) :
    EqualBy quantity? (.arr xs) (.arr ys)
  /-- objects with the same keys and equal values -/
  | obj {ms ns : Entries Json Wide} (hkeys : ∀ k, k ∈ ms.keys ↔ k ∈ ns.keys)
      (hvalues : ∀ k v w, ms.get? k = some v → ns.get? k = some w → EqualBy quantity? v w) :
    EqualBy quantity? (.obj ms) (.obj ns)

/-- Values are equal as JSON values, apart from the order of members and the spelling of numbers. -/
abbrev Equal : Json → Json → Prop := EqualBy number?

/-- Values are equal if truth values count as numbers. -/
abbrev LooselyEqual : Json → Json → Prop := EqualBy counted?

theorem EqualBy.symm {quantity? : Json → Option Quantity} (h : EqualBy quantity? a b) :
    EqualBy quantity? b a := by
  induction h with
  | null => exact .null
  | bool b => exact .bool b
  | number ha hb => exact .number hb ha
  | str s => exact .str s
  | arr hlength _ ih => exact .arr hlength.symm fun i v w hv hw => ih i w v hw hv
  | obj hkeys _ ih =>
    exact .obj (fun k => (hkeys k).symm) fun k v w hv hw => ih k w v hw hv

/-- Equal values are loosely equal. -/
theorem EqualBy.loosely (h : Equal a b) : LooselyEqual a b := by
  have hcounted {v : Json} {q : Quantity} (hv : v.number? = some q) : v.counted? = some q := by
    cases v <;> first | exact hv | cases hv
  induction h with
  | null => exact .null
  | bool b => exact .bool b
  | number ha hb => exact .number (hcounted ha) (hcounted hb)
  | str s => exact .str s
  | arr hlength _ ih => exact .arr hlength ih
  | obj hkeys _ ih => exact .obj hkeys ih

/-- A value that is loosely equal to a number is that number. -/
theorem LooselyEqual.counted? (h : LooselyEqual a b) (ha : a.counted? = some q) :
    b.counted? = some q := by
  cases h with
  | number ha' hb => rw [hb, ← ha', ha]
  | bool b => exact ha
  | null | str s | arr | obj => cases ha

theorem LooselyEqual.trans (h : LooselyEqual a b) (hbc : LooselyEqual b c) : LooselyEqual a c := by
  induction h generalizing c with
  | null | bool b | str s => exact hbc
  | number ha hb => exact .number ha (hbc.counted? hb)
  | @arr xs ys hlength _ ih =>
    cases hbc with
    | number hb => cases hb
    | @arr _ zs hlength' hitems =>
      refine .arr (hlength.trans hlength') fun i v w hv hw => ?_
      obtain ⟨hi, -⟩ := List.getElem?_eq_some_iff.1 hv
      have hmid := List.getElem?_eq_getElem (hlength ▸ hi : i < ys.length)
      exact ih i v _ hv hmid (hitems i _ w hmid hw)
  | @obj ms ns hkeys _ ih =>
    cases hbc with
    | number hb => cases hb
    | @obj _ os hkeys' hvalues =>
      refine .obj (fun k => (hkeys k).trans (hkeys' k)) fun k v w hv hw => ?_
      obtain ⟨u, hu⟩ := Entries.mem_keys_iff.1 ((hkeys k).1 (Entries.mem_keys_of_get? hv))
      exact ih k v u hv hu (hvalues k u w hu hw)

/-! ## Values without what is not a number -/

/-- A value as programs hold it: each key occurs once, and every number is a number. -/
structure Regular (v : Json) : Prop where
  /-- keys occur once -/
  sound : v.Sound
  /-- the numbers are numbers -/
  numbers : ∀ x ∈ v.floats, x.IsNumber

theorem mem_floatsOfItems {x : Binary64} (hv : v ∈ xs) (hx : x ∈ v.floats) :
    x ∈ floatsOfItems xs := by
  induction xs with
  | nil => cases hv
  | cons u xs ih =>
    rw [floatsOfItems]
    rcases List.mem_cons.1 hv with rfl | hv
    · exact List.mem_append_left _ hx
    · exact List.mem_append_right _ (ih hv)

theorem mem_floatsOfMembers {x : Binary64} {k : Wide} (hv : (k, v) ∈ ms) (hx : x ∈ v.floats) :
    x ∈ floatsOfMembers ms := by
  induction ms with
  | nil => cases hv
  | cons e ms ih =>
    rw [floatsOfMembers]
    rcases List.mem_cons.1 hv with rfl | hv
    · exact List.mem_append_left _ hx
    · exact List.mem_append_right _ (ih hv)

theorem Regular.item (h : (arr xs).Regular) (hv : v ∈ xs) : v.Regular :=
  ⟨soundItems_iff.1 h.sound v hv, fun x hx => h.numbers x (mem_floatsOfItems hv hx)⟩

theorem Regular.nodup (h : (obj ms).Regular) : ms.keys.Nodup := h.sound.1

theorem Regular.member (h : (obj ms).Regular) {k : Wide} (hv : (k, v) ∈ ms) : v.Regular :=
  ⟨soundMembers_iff.1 h.sound.2 _ hv, fun x hx => h.numbers x (mem_floatsOfMembers hv hx)⟩

theorem Regular.isNumber {x : Binary64} (h : (float x).Regular) : x.IsNumber :=
  h.numbers x (.head _)

/-! ## The comparison -/

theorem sameItems_iff :
    sameItems xs ys = true ↔ xs.length = ys.length ∧
      ∀ (i : Nat) (v w : Json), xs[i]? = some v → ys[i]? = some w → same v w = true := by
  induction xs generalizing ys with
  | nil => cases ys <;> simp [sameItems]
  | cons x xs ih =>
    cases ys with
    | nil => simp [sameItems]
    | cons y ys =>
      rw [sameItems, Bool.and_eq_true, ih]
      constructor
      · rintro ⟨hxy, hlength, hitems⟩
        refine ⟨congrArg (· + 1) hlength, fun i v w hv hw => ?_⟩
        cases i with
        | zero =>
          cases hv
          cases hw
          exact hxy
        | succ i => exact hitems i v w hv hw
      · rintro ⟨hlength, hitems⟩
        exact ⟨hitems 0 x y rfl rfl, Nat.succ.inj hlength, fun i v w hv hw =>
          hitems (i + 1) v w hv hw⟩

theorem sameMembers_iff :
    sameMembers ms ns = true ↔ ∀ e ∈ ms, ∃ w, ns.get? e.1 = some w ∧ same e.2 w = true := by
  induction ms with
  | nil => simp [sameMembers]
  | cons e ms ih =>
    obtain ⟨k, v⟩ := e
    rw [sameMembers, Bool.and_eq_true, ih, List.forall_mem_cons]
    refine and_congr_left' ?_
    cases ns.get? k <;> simp

/-- Objects of one size are the same if each member of the first is in the second. -/
theorem same_obj_iff (hms : ms.keys.Nodup) (hns : ns.keys.Nodup) :
    same (.obj ms) (.obj ns) = true ↔ (∀ k, k ∈ ms.keys ↔ k ∈ ns.keys) ∧
      ∀ k v w, ms.get? k = some v → ns.get? k = some w → same v w = true := by
  have hlength (m : Entries Json Wide) : m.length = m.keys.length := by
    rw [Entries.keys, List.length_map]
  rw [same, Bool.and_eq_true, beq_iff_eq, sameMembers_iff, hlength, hlength]
  constructor
  · rintro ⟨hsize, hmembers⟩
    have hsubset : ms.keys ⊆ ns.keys := by
      intro k hk
      obtain ⟨v, hv⟩ := Entries.mem_keys_iff.1 hk
      obtain ⟨w, hw, -⟩ := hmembers _ (Entries.mem_of_get? hv)
      exact Entries.mem_keys_of_get? hw
    -- there is no room for another key
    have hperm := (hms.subperm hsubset).perm_of_length_le hsize.ge
    refine ⟨fun k => hperm.mem_iff, fun k v w hv hw => ?_⟩
    obtain ⟨w', hw', hsame⟩ := hmembers _ (Entries.mem_of_get? hv)
    rw [hw] at hw'
    cases hw'
    exact hsame
  · rintro ⟨hkeys, hvalues⟩
    have hperm : ms.keys.Perm ns.keys := (List.perm_ext_iff_of_nodup hms hns).2 hkeys
    refine ⟨hperm.length_eq, fun e he => ?_⟩
    have hv := Entries.get?_of_mem hms he
    obtain ⟨w, hw⟩ := Entries.mem_keys_iff.1 ((hkeys e.1).1 (Entries.mem_keys_of_get? hv))
    exact ⟨w, hw, hvalues _ _ _ hv hw⟩

/-- Maps with the same keys and the same values are the same as objects. -/
theorem same_obj_textKeys {m m' : Entries Json} (hm : m.keys.Nodup) (hm' : m'.keys.Nodup)
    (hkeys : ∀ k, k ∈ m.keys ↔ k ∈ m'.keys)
    (hvalues : ∀ k v w, m.get? k = some v → m'.get? k = some w → same v w = true) :
    same (.obj m.textKeys) (.obj m'.textKeys) = true := by
  refine (same_obj_iff (Entries.nodup_textKeys hm) (Entries.nodup_textKeys hm')).2
    ⟨fun k => ?_, fun k v w hv hw => ?_⟩
  · simp only [Entries.keys_textKeys, List.mem_map, hkeys]
  · have hk := Entries.mem_keys_of_get? hv
    rw [Entries.keys_textKeys] at hk
    obtain ⟨k, -, rfl⟩ := List.mem_map.1 hk
    rw [Entries.get?_textKeys] at hv hw
    exact hvalues k v w hv hw

/-- A truth value is compared with numbers as the integer that it counts as. -/
theorem same_bool (x : Bool) (hq : b.counted? = some q) :
    same (.bool x) b = same (.int (ofTruth x)) b := by
  cases b with
  | bool y => cases x <;> cases y <;> rfl
  | int j => rfl
  | float y => rfl
  | null | str | arr | obj => cases hq

theorem same_int_iff (i : Int) (hb : b.Regular) (hq : b.counted? = some q) :
    same (.int i) b = true ↔ .rational i = q := by
  cases b with
  | bool y =>
    cases hq
    simp [same]
  | int j =>
    cases hq
    simp [same]
  | float y =>
    have hy : y.quantity? = some q := hq
    rw [same, Binary64.eqvInt_iff hb.isNumber, hy, Option.some.injEq, eq_comm]
  | null | str | arr | obj => cases hq

theorem same_float_iff {p : Quantity} {x : Binary64} (hx : x.IsNumber) (hp : x.quantity? = some p)
    (hb : b.Regular) (hq : b.counted? = some q) : same (.float x) b = true ↔ p = q := by
  cases b with
  | bool y =>
    cases hq
    rw [same, Binary64.eqvInt_iff hx, hp, Option.some.injEq]
  | int j =>
    cases hq
    rw [same, Binary64.eqvInt_iff hx, hp, Option.some.injEq]
  | float y =>
    have hy : y.quantity? = some q := hq
    -- the other way of being the same is for what is not a number
    have hnumber : (x == .notANumber && y == .notANumber) = false := by
      cases hx <;> rfl
    rw [same, hnumber, Bool.or_false, Binary64.eqv_iff hx hb.isNumber, hp, hy, Option.some.injEq]
  | null | str | arr | obj => cases hq

/-- Values that count as numbers are the same if the numbers are. -/
theorem same_of_counted {p : Quantity} (ha : a.Regular) (hb : b.Regular)
    (hp : a.counted? = some p) (hq : b.counted? = some q) : same a b = true ↔ p = q := by
  cases a with
  | bool x =>
    cases hp
    rw [same_bool x hq]
    exact same_int_iff _ hb hq
  | int i =>
    cases hp
    exact same_int_iff i hb hq
  | float x => exact same_float_iff ha.isNumber hp hb hq
  | null | str | arr | obj => cases hp

/-- A value that counts as a number is the same only as such values. -/
theorem counted?_of_same {p : Quantity} (hb : b.Regular) (hp : a.counted? = some p)
    (h : same a b = true) : ∃ q, b.counted? = some q := by
  cases b with
  | bool y => exact ⟨_, rfl⟩
  | int j => exact ⟨_, rfl⟩
  | float y => cases hb.isNumber <;> exact ⟨_, rfl⟩
  | null | str | arr | obj => cases a <;> first | (cases hp; done) | simp [same] at h

/-- Induction on the items of lists and the values of objects. -/
theorem induct {P : Json → Prop} (null : P .null) (bool : ∀ b, P (.bool b)) (int : ∀ i, P (.int i))
    (float : ∀ x, P (.float x)) (str : ∀ s, P (.str s))
    (arr : ∀ xs : List Json, (∀ v ∈ xs, P v) → P (.arr xs))
    (obj : ∀ ms : Entries Json Wide, (∀ e ∈ ms, P e.2) → P (.obj ms)) (v : Json) : P v := by
  induction hsize : sizeOf v using Nat.strong_induction_on generalizing v with
  | _ n ih =>
    subst hsize
    cases v with
    | null => exact null
    | bool b => exact bool b
    | int i => exact int i
    | float x => exact float x
    | str s => exact str s
    | arr xs =>
      refine arr xs fun v hv => ih _ ?_ v rfl
      have hlt := List.sizeOf_lt_of_mem hv
      rw [Json.arr.sizeOf_spec]
      omega
    | obj ms =>
      refine obj ms fun e he => ih _ ?_ e.2 rfl
      have hlt := List.sizeOf_lt_of_mem he
      obtain ⟨k, v⟩ := e
      rw [Prod.mk.sizeOf_spec] at hlt
      rw [Json.obj.sizeOf_spec]
      change sizeOf v < _
      omega

/-- Without what is not a number, every value equals itself. -/
theorem Regular.equal_self (h : a.Regular) : Equal a a := by
  induction a using induct with
  | null => exact .null
  | bool b => exact .bool b
  | int i => exact .number rfl rfl
  | float x => cases h.isNumber <;> exact .number rfl rfl
  | str s => exact .str s
  | arr xs ih =>
    refine .arr rfl fun i v w hv hw => ?_
    rw [hv] at hw
    cases hw
    have hmem := List.mem_of_getElem? hv
    exact ih v hmem (h.item hmem)
  | obj ms ih =>
    refine .obj (fun _ => Iff.rfl) fun k v w hv hw => ?_
    rw [hv] at hw
    cases hw
    have hmem := Entries.mem_of_get? hv
    exact ih _ hmem (h.member hmem)

/-- What is said of two values by the comparison and by loose equality. -/
abbrev SameIffEqual (v w : Json) : Prop := same v w = true ↔ LooselyEqual v w

theorem sameIffEqual_of_counted {p : Quantity} (ha : a.Regular) (hb : b.Regular)
    (hp : a.counted? = some p) : SameIffEqual a b := by
  constructor
  · intro h
    obtain ⟨q, hq⟩ := counted?_of_same hb hp h
    obtain rfl := (same_of_counted ha hb hp hq).1 h
    exact .number hp hq
  · intro h
    exact (same_of_counted ha hb hp (h.counted? hp)).2 rfl

theorem sameIffEqual_null (b : Json) : SameIffEqual .null b := by
  constructor
  · intro h
    cases b <;> first | exact .null | simp [same] at h
  · intro h
    cases h with
    | null => rfl
    | number hp => cases hp

theorem sameIffEqual_str (s : Wide) (b : Json) : SameIffEqual (.str s) b := by
  constructor
  · intro h
    cases b with
    | str t =>
      obtain rfl : s = t := by simpa [same] using h
      exact .str s
    | _ => simp [same] at h
  · intro h
    cases h with
    | str => simp [same]
    | number hp => cases hp

/-- Lists are compared item by item. -/
theorem sameIffEqual_arr (hb : b.Regular)
    (hitem : ∀ v ∈ xs, ∀ w : Json, w.Regular → SameIffEqual v w) : SameIffEqual (.arr xs) b := by
  constructor
  · intro h
    cases b with
    | arr ys =>
      obtain ⟨hlength, hitems⟩ := sameItems_iff.1 (by simpa [same] using h)
      refine .arr hlength fun i v w hv hw => ?_
      have hw' := hb.item (List.mem_of_getElem? hw)
      exact (hitem v (List.mem_of_getElem? hv) w hw').1 (hitems i v w hv hw)
    | _ => simp [same] at h
  · intro h
    cases h with
    | arr hlength hitems =>
      rw [same]
      refine sameItems_iff.2 ⟨hlength, fun i v w hv hw => ?_⟩
      have hw' := hb.item (List.mem_of_getElem? hw)
      exact (hitem v (List.mem_of_getElem? hv) w hw').2 (hitems i v w hv hw)
    | number hp => cases hp

/-- Objects are compared key by key. -/
theorem sameIffEqual_obj (ha : (obj ms).Regular) (hb : b.Regular)
    (hvalue : ∀ e ∈ ms, ∀ w : Json, w.Regular → SameIffEqual e.2 w) : SameIffEqual (.obj ms) b := by
  constructor
  · intro h
    cases b with
    | obj ns =>
      obtain ⟨hkeys, hvalues⟩ := (same_obj_iff ha.nodup hb.nodup).1 h
      refine .obj hkeys fun k v w hv hw => ?_
      have hw' := hb.member (Entries.mem_of_get? hw)
      exact (hvalue (k, v) (Entries.mem_of_get? hv) w hw').1 (hvalues k v w hv hw)
    | _ => simp [same] at h
  · intro h
    cases h with
    | obj hkeys hvalues =>
      refine (same_obj_iff ha.nodup hb.nodup).2 ⟨hkeys, fun k v w hv hw => ?_⟩
      have hw' := hb.member (Entries.mem_of_get? hw)
      exact (hvalue (k, v) (Entries.mem_of_get? hv) w hw').2 (hvalues k v w hv hw)
    | number hp => cases hp

/-- **The comparison is loose equality.** -/
theorem same_iff (ha : a.Regular) (hb : b.Regular) : same a b = true ↔ LooselyEqual a b := by
  induction a using induct generalizing b with
  | null => exact sameIffEqual_null b
  | bool x => exact sameIffEqual_of_counted ha hb rfl
  | int i => exact sameIffEqual_of_counted ha hb rfl
  | float x => cases ha.isNumber <;> exact sameIffEqual_of_counted ha hb rfl
  | str s => exact sameIffEqual_str s b
  | arr xs ih => exact sameIffEqual_arr hb fun v hv w hw => ih v hv (ha.item hv) hw
  | obj ms ih => exact sameIffEqual_obj ha hb fun e he w hw => ih e he (ha.member he) hw

/-- **Declarations of one key agree if they are loosely equal.** -/
theorem agrees_iff (ha : a.Regular) (hb : b.Regular) : agrees a b = true ↔ LooselyEqual a b := by
  rw [← same_iff ha hb]
  cases a with
  | float x => cases ha.isNumber <;> exact Iff.rfl
  | _ => exact Iff.rfl

end Json

end Scaffold
