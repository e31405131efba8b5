import Mathlib.Data.List.Nodup
import Mathlib.Data.List.Induction
import Mathlib.Data.Set.Function
import Mathlib.Tactic.Common

/-!
The first item of every key.

A loop that remembers the keys it has met and works only on items with a new
one goes through exactly this list, in this order.
-/

namespace FirstOccurrence

universe u v

variable {Item : Type u} {Key : Type v} [DecidableEq Key] (key : Item → Key)

/-- Append an item unless its key is there already. -/
def addNew (kept : List Item) (item : Item) : List Item :=
  if key item ∈ kept.map key then kept else kept ++ [item]

/-- The first item of every key, in the order of the list. -/
def firsts (items : List Item) : List Item := items.foldl (addNew key) []

variable {key}

theorem firsts_concat (items : List Item) (item : Item) :
    firsts key (items ++ [item]) = addNew key (firsts key items) item := by
  simp [firsts]

theorem mem_map_addNew {kept : List Item} {item : Item} {k : Key} :
    k ∈ (addNew key kept item).map key ↔ k ∈ kept.map key ∨ k = key item := by
  unfold addNew
  split
  next met =>
    refine ⟨.inl, ?_⟩
    rintro (kept | rfl)
    · exact kept
    · exact met
  next => simp

theorem mem_map_firsts {items : List Item} {k : Key} :
    k ∈ (firsts key items).map key ↔ k ∈ items.map key := by
  induction items using List.reverseRecOn with
  | nil => rfl
  | append_singleton items item inductionHypothesis =>
      rw [firsts_concat, mem_map_addNew, inductionHypothesis]
      simp

theorem firsts_concat_of_mem {items : List Item} {item : Item}
    (met : key item ∈ items.map key) : firsts key (items ++ [item]) = firsts key items := by
  rw [firsts_concat, addNew, if_pos (mem_map_firsts.mpr met)]

theorem firsts_concat_of_not_mem {items : List Item} {item : Item}
    (fresh : key item ∉ items.map key) :
    firsts key (items ++ [item]) = firsts key items ++ [item] := by
  rw [firsts_concat, addNew, if_neg (mt mem_map_firsts.mp fresh)]

theorem nodup_map_firsts (items : List Item) : ((firsts key items).map key).Nodup := by
  induction items using List.reverseRecOn with
  | nil => exact .nil
  | append_singleton items item inductionHypothesis =>
      rw [firsts_concat, addNew]
      split
      next => exact inductionHypothesis
      next fresh =>
        rw [List.map_append, List.map_singleton, ← List.concat_eq_append]
        exact inductionHypothesis.concat fresh

theorem firsts_sublist (items : List Item) : (firsts key items).Sublist items := by
  induction items using List.reverseRecOn with
  | nil => exact .slnil
  | append_singleton items item inductionHypothesis =>
      rw [firsts_concat, addNew]
      split
      next => exact inductionHypothesis.trans (List.sublist_append_left items [item])
      next => exact inductionHypothesis.append_right [item]

/-- What holds of the key of an item holds of the key of a first item. -/
theorem exists_mem_firsts {items : List Item} (holds : Key → Prop) :
    (∃ item ∈ firsts key items, holds (key item)) ↔ ∃ item ∈ items, holds (key item) := by
  have keys : (∃ k ∈ (firsts key items).map key, holds k) ↔ ∃ k ∈ items.map key, holds k := by
    simp only [mem_map_firsts]
  simpa only [List.mem_map, exists_exists_and_eq_and] using keys

/-- Further items only add to the end. -/
theorem firsts_prefix_append (items more : List Item) :
    firsts key items <+: firsts key (items ++ more) := by
  induction more using List.reverseRecOn with
  | nil => simp
  | append_singleton more item inductionHypothesis =>
      rw [← List.append_assoc, firsts_concat, addNew]
      split
      next => exact inductionHypothesis
      next => exact inductionHypothesis.trans (List.prefix_append _ _)

/-- Where the key tells the items of a list apart, every item is kept. -/
theorem mem_firsts_of_injOn {items : List Item} (injective : Set.InjOn key {item | item ∈ items})
    {item : Item} : item ∈ firsts key items ↔ item ∈ items := by
  refine ⟨fun kept => (firsts_sublist items).subset kept, fun listed => ?_⟩
  obtain ⟨first, kept, same⟩ := List.mem_map.mp
    (mem_map_firsts.mpr (List.mem_map_of_mem (f := key) listed))
  rwa [← injective ((firsts_sublist items).subset kept) listed same]

end FirstOccurrence
