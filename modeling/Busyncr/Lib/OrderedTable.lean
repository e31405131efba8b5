import Std.Data.ExtTreeMap.Lemmas
import Mathlib.Data.List.Perm.Lattice
import Mathlib.Data.List.Nodup
import Mathlib.Algebra.GroupWithZero.Nat

/-!
Facts about ordered finite maps that a program working on database tables
needs: how the list of keys changes with one update, and what a loop of
updates over a list of keys leaves behind.
-/

namespace OrderedTable

open Std

universe u v

variable {Key : Type u} {Value : Type v} [Ord Key] [TransOrd Key] [LawfulEqOrd Key]

/-- The table lookup after an insertion, by plain equality of keys. -/
theorem getElem?_insert_eq [DecidableEq Key] (table : ExtTreeMap Key Value)
    (key other : Key) (value : Value) :
    (table.insert key value)[other]? = if key = other then some value else table[other]? := by
  simp [ExtTreeMap.getElem?_insert]

/-- The table lookup after a removal, by plain equality of keys. -/
theorem getElem?_erase_eq [DecidableEq Key] (table : ExtTreeMap Key Value)
    (key other : Key) :
    (table.erase key)[other]? = if key = other then none else table[other]? := by
  simp [ExtTreeMap.getElem?_erase]

theorem erase_insert [DecidableEq Key] (table : ExtTreeMap Key Value) (key : Key)
    (value : Value) : (table.insert key value).erase key = table.erase key := by
  apply ExtTreeMap.ext_getElem?
  intro other
  rw [getElem?_erase_eq, getElem?_erase_eq, getElem?_insert_eq]
  split <;> rfl

theorem insert_insert [DecidableEq Key] (table : ExtTreeMap Key Value) (key : Key)
    (first second : Value) :
    (table.insert key first).insert key second = table.insert key second := by
  apply ExtTreeMap.ext_getElem?
  intro other
  rw [getElem?_insert_eq, getElem?_insert_eq, getElem?_insert_eq]
  split <;> rfl

theorem erase_of_fresh [DecidableEq Key] {table : ExtTreeMap Key Value} {key : Key}
    (fresh : key ∉ table) : table.erase key = table := by
  apply ExtTreeMap.ext_getElem?
  intro other
  rw [getElem?_erase_eq]
  split
  next same => rw [← same, ExtTreeMap.getElem?_eq_none fresh]
  next => rfl

/-- Inserting a new key adds exactly that key to the key list. -/
theorem keys_insert_perm (table : ExtTreeMap Key Value) {key : Key} (value : Value)
    (fresh : key ∉ table) :
    (table.insert key value).keys.Perm (key :: table.keys) := by
  rw [List.perm_ext_iff_of_nodup ExtTreeMap.nodup_keys]
  · intro other
    simp only [ExtTreeMap.mem_keys, ExtTreeMap.mem_insert, List.mem_cons,
      LawfulEqOrd.compare_eq_iff_eq]
    rw [eq_comm]
  · exact List.nodup_cons.mpr ⟨by simpa using fresh, ExtTreeMap.nodup_keys⟩

/-- Removing a stored key removes exactly that key from the key list. -/
theorem keys_perm_cons_erase (table : ExtTreeMap Key Value) {key : Key}
    (stored : key ∈ table) :
    table.keys.Perm (key :: (table.erase key).keys) := by
  rw [List.perm_ext_iff_of_nodup ExtTreeMap.nodup_keys]
  · intro other
    simp only [ExtTreeMap.mem_keys, List.mem_cons, ExtTreeMap.mem_erase,
      LawfulEqOrd.compare_eq_iff_eq, ne_eq]
    constructor
    · intro membership
      by_cases same : other = key
      · exact .inl same
      · exact .inr ⟨fun equality => same equality.symm, membership⟩
    · rintro (same | ⟨_, membership⟩)
      · exact same ▸ stored
      · exact membership
  · refine List.nodup_cons.mpr ⟨?_, ExtTreeMap.nodup_keys⟩
    simp [ExtTreeMap.mem_erase]

/-- The sum of a measure over the stored values. -/
def total (measure : Value → Nat) (table : ExtTreeMap Key Value) : Nat :=
  (table.keys.map fun key => (table[key]?.map measure).getD 0).sum

/-- Taking one key out of the sum. -/
theorem total_eq_add_erase [DecidableEq Key] (measure : Value → Nat)
    (table : ExtTreeMap Key Value) (key : Key) :
    total measure table = (table[key]?.map measure).getD 0 + total measure (table.erase key) := by
  have others : (table.erase key).keys.map (fun other => (table[other]?.map measure).getD 0) =
      (table.erase key).keys.map
        fun other => ((table.erase key)[other]?.map measure).getD 0 := by
    apply List.map_congr_left
    intro other membership
    have different : key ≠ other := by
      rintro rfl
      simp [ExtTreeMap.mem_erase] at membership
    rw [getElem?_erase_eq, if_neg different]
  by_cases stored : key ∈ table
  · have perm := (keys_perm_cons_erase table stored).map
      fun other => (table[other]?.map measure).getD 0
    rw [total, perm.sum_nat, List.map_cons, List.sum_cons, others]
    rfl
  · rw [erase_of_fresh stored, ExtTreeMap.getElem?_eq_none stored]
    simp

/-- How storing one value changes the sum. -/
theorem total_insert [DecidableEq Key] (measure : Value → Nat) (table : ExtTreeMap Key Value)
    (key : Key) (value : Value) :
    total measure (table.insert key value) + (table[key]?.map measure).getD 0 =
      total measure table + measure value := by
  rw [total_eq_add_erase measure (table.insert key value) key, erase_insert,
    total_eq_add_erase measure table key]
  simp only [getElem?_insert_eq, if_true, Option.map_some, Option.getD_some]
  omega

/-- The sum over some of the keys. -/
theorem sum_le_total [DecidableEq Key] (measure : Value → Nat) (table : ExtTreeMap Key Value)
    {keys : List Key} (distinct : keys.Nodup) :
    (keys.map fun key => (table[key]?.map measure).getD 0).sum ≤ total measure table := by
  induction keys generalizing table with
  | nil => simp
  | cons key rest inductionHypothesis =>
      obtain ⟨fresh, distinctRest⟩ := List.nodup_cons.mp distinct
      have others : rest.map (fun other => (table[other]?.map measure).getD 0) =
          rest.map fun other => ((table.erase key)[other]?.map measure).getD 0 := by
        apply List.map_congr_left
        intro other listed
        have different : key ≠ other := by
          rintro rfl
          exact fresh listed
        rw [getElem?_erase_eq, if_neg different]
      have below := inductionHypothesis (table.erase key) distinctRest
      rw [List.map_cons, List.sum_cons, others, total_eq_add_erase measure table key]
      omega

/-- Remove every key of a list. -/
def eraseAll (keys : List Key) (table : ExtTreeMap Key Value) : ExtTreeMap Key Value :=
  keys.foldl (fun current key => current.erase key) table

/-- Store one value under every key of a list. -/
def insertAll (keys : List Key) (value : Value) (table : ExtTreeMap Key Value) :
    ExtTreeMap Key Value :=
  keys.foldl (fun current key => current.insert key value) table

omit [LawfulEqOrd Key] in
theorem eraseAll_append (first second : List Key) (table : ExtTreeMap Key Value) :
    eraseAll (first ++ second) table = eraseAll second (eraseAll first table) :=
  List.foldl_append

theorem getElem?_eraseAll [DecidableEq Key] (keys : List Key) (table : ExtTreeMap Key Value)
    (key : Key) :
    (eraseAll keys table)[key]? = if key ∈ keys then none else table[key]? := by
  induction keys generalizing table with
  | nil => simp [eraseAll]
  | cons head rest inductionHypothesis =>
      have unfolded : eraseAll (head :: rest) table = eraseAll rest (table.erase head) := rfl
      rw [unfolded, inductionHypothesis, getElem?_erase_eq]
      by_cases inRest : key ∈ rest
      · simp [inRest]
      · by_cases same : head = key
        · simp [same]
        · simp [inRest, same, Ne.symm same]

/-- Removals do not increase a sum. -/
theorem total_eraseAll_le [DecidableEq Key] (measure : Value → Nat) (keys : List Key)
    (table : ExtTreeMap Key Value) :
    total measure (eraseAll keys table) ≤ total measure table := by
  induction keys generalizing table with
  | nil => exact Nat.le_refl _
  | cons head rest inductionHypothesis =>
      apply Nat.le_trans (inductionHypothesis (table.erase head))
      rw [total_eq_add_erase measure table head]
      exact Nat.le_add_left _ _

theorem getElem?_insertAll [DecidableEq Key] (keys : List Key) (value : Value)
    (table : ExtTreeMap Key Value) (key : Key) :
    (insertAll keys value table)[key]? = if key ∈ keys then some value else table[key]? := by
  induction keys generalizing table with
  | nil => simp [insertAll]
  | cons head rest inductionHypothesis =>
      have unfolded : insertAll (head :: rest) value table =
          insertAll rest value (table.insert head value) := rfl
      rw [unfolded, inductionHypothesis, getElem?_insert_eq]
      by_cases inRest : key ∈ rest
      · simp [inRest]
      · by_cases same : head = key
        · simp [same]
        · simp [inRest, same, Ne.symm same]

/-- The order of the removals does not matter. -/
theorem eraseAll_perm [DecidableEq Key] {keys others : List Key} (same : keys.Perm others)
    (table : ExtTreeMap Key Value) : eraseAll keys table = eraseAll others table := by
  apply ExtTreeMap.ext_getElem?
  intro key
  rw [getElem?_eraseAll, getElem?_eraseAll]
  simp only [same.mem_iff]

/-- The order of the insertions does not matter. -/
theorem insertAll_perm [DecidableEq Key] {keys others : List Key} (same : keys.Perm others)
    (value : Value) (table : ExtTreeMap Key Value) :
    insertAll keys value table = insertAll others value table := by
  apply ExtTreeMap.ext_getElem?
  intro key
  rw [getElem?_insertAll, getElem?_insertAll]
  simp only [same.mem_iff]

end OrderedTable
