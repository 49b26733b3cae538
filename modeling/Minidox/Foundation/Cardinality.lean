import Minidox.Foundation.TreeMap
import Mathlib.Data.Set.Card

/-!
# Sizes of tree maps

The size of a map or a set as the number of its members.
-/

set_option autoImplicit false

namespace Minidox.Foundation.TreeMap

open Std

variable {α β : Type} [Ord α] [TransOrd α] [LawfulEqOrd α]

omit [Ord α] [TransOrd α] [LawfulEqOrd α] in
theorem ncard_mem_list {members : List α} (distinct : members.Nodup) :
    Set.ncard { key | key ∈ members } = members.length := by
  classical
  have listed : { key | key ∈ members } = (members.toFinset : Set α) := by
    ext key
    simp
  rw [listed, Set.ncard_coe_finset, List.toFinset_card_of_nodup distinct]

theorem size_set_eq_ncard (set : ExtTreeSet α) : set.size = Set.ncard { key | key ∈ set } := by
  have counted := ncard_mem_list (toList_nodup set)
  simp only [ExtTreeSet.mem_toList] at counted
  rw [counted, ExtTreeSet.length_toList]

theorem size_eq_ncard (map : ExtTreeMap α β) :
    map.size = Set.ncard { key : α | ∃ value, map[key]? = some value } := by
  have counted := ncard_mem_list (keys_nodup map)
  simp only [mem_keys] at counted
  rw [counted, List.length_map, ExtTreeMap.length_toList]

theorem one_lt_countP_values {map : ExtTreeMap α β} {condition : β → Bool} :
    1 < (values map).countP condition ↔ ∃ first second : α, first ≠ second ∧
      (∃ value, map[first]? = some value ∧ condition value) ∧
      ∃ value, map[second]? = some value ∧ condition value := by
  let kept := (map.toList.filter fun pair => condition pair.2).map Prod.fst
  have distinct : kept.Nodup := (keys_nodup map).sublist (List.filter_sublist.map Prod.fst)
  have member : ∀ key : α, key ∈ kept ↔ ∃ value, map[key]? = some value ∧ condition value := by
    intro key
    simp only [kept, List.mem_map, List.mem_filter, Prod.exists, exists_and_right, exists_eq_right,
      ExtTreeMap.mem_toList_iff_getElem?_eq_some]
  have length : (values map).countP condition = kept.length := by
    rw [values, List.countP_map, List.countP_eq_length_filter, List.length_map]
    rfl
  simp only [← member]
  rw [length, ← ncard_mem_list distinct, Set.one_lt_ncard (List.finite_toSet kept)]
  constructor
  · rintro ⟨first, here, second, there, apart⟩
    exact ⟨first, second, apart, here, there⟩
  · rintro ⟨first, second, apart, here, there⟩
    exact ⟨first, here, second, there, apart⟩

end Minidox.Foundation.TreeMap
