import Mathlib.Data.List.Nodup
import Std.Data.ExtTreeMap
import Std.Data.ExtTreeSet

/-! Lemmas about extensional tree maps and sets, by what a lookup finds. -/

set_option autoImplicit false

namespace Minidox.Foundation

open Std

variable {α β : Type} [Ord α] [TransOrd α] [LawfulEqOrd α]
variable {map : ExtTreeMap α β}

theorem le_foldr_max {values : List Nat} {value : Nat} (member : value ∈ values) :
    value ≤ values.foldr max 0 := by
  induction values with
  | nil => cases member
  | cons first rest ih =>
    rw [List.foldr_cons]
    cases List.mem_cons.mp member with
    | inl here => exact here ▸ Nat.le_max_left _ _
    | inr later => exact Nat.le_trans (ih later) (Nat.le_max_right _ _)

namespace TreeMap

def values (map : ExtTreeMap α β) : List β := map.toList.map Prod.snd

theorem mem_values {value : β} :
    value ∈ values map ↔ ∃ key : α, map[key]? = some value := by
  rw [values, List.mem_map]
  constructor
  · rintro ⟨⟨key, found⟩, member, rfl⟩
    exact ⟨key, ExtTreeMap.mem_toList_iff_getElem?_eq_some.mp member⟩
  · rintro ⟨key, found⟩
    exact ⟨(key, value), ExtTreeMap.mem_toList_iff_getElem?_eq_some.mpr found, rfl⟩

theorem any_iff {keep : α → β → Bool} :
    map.any keep ↔ ∃ (key : α) (value : β), map[key]? = some value ∧ keep key value := by
  have looped : map.any keep = Id.run (do
      for pair in map do
        if keep pair.1 pair.2 then
          return true
      return false) := by
    obtain ⟨⟨tree⟩⟩ := map
    induction tree using Quotient.inductionOn with
    | h tree => rfl
  have listed : map.any keep = map.toList.any fun pair => keep pair.1 pair.2 := by
    rw [looped, ExtTreeMap.forIn_eq_forIn_toList]
    induction map.toList with
    | nil => rfl
    | cons pair rest ih =>
      rw [List.forIn_cons, List.any_cons, ← ih]
      cases keep pair.1 pair.2 <;> rfl
  rw [listed, List.any_eq_true]
  constructor
  · rintro ⟨pair, member, kept⟩
    exact ⟨pair.1, pair.2, ExtTreeMap.mem_toList_iff_getElem?_eq_some.mp member, kept⟩
  · rintro ⟨key, value, found, kept⟩
    exact ⟨(key, value), ExtTreeMap.mem_toList_iff_getElem?_eq_some.mpr found, kept⟩

theorem getElem?_filter_iff {keep : α → β → Bool} {key : α} {value : β} :
    (map.filter keep)[key]? = some value ↔ map[key]? = some value ∧ keep key value := by
  rw [← ExtTreeMap.mem_toList_iff_getElem?_eq_some, ExtTreeMap.toList_filter, List.mem_filter,
    ExtTreeMap.mem_toList_iff_getElem?_eq_some]

theorem getElem?_filter_key {keep : α → Bool} {key : α} :
    (map.filter fun key _ => keep key)[key]? = if keep key then map[key]? else none := by
  apply Option.ext
  intro value
  rw [getElem?_filter_iff]
  by_cases kept : keep key <;> simp [kept]

theorem getElem?_insert_ite [DecidableEq α] {key other : α} {value : β} :
    (map.insert key value)[other]? = if other = key then some value else map[other]? := by
  rw [ExtTreeMap.getElem?_insert]
  exact if_congr (LawfulEqOrd.compare_eq_iff_eq.trans eq_comm) rfl rfl

theorem getElem?_erase_ite [DecidableEq α] {key other : α} :
    (map.erase key)[other]? = if other = key then none else map[other]? := by
  rw [ExtTreeMap.getElem?_erase]
  exact if_congr (LawfulEqOrd.compare_eq_iff_eq.trans eq_comm) rfl rfl

theorem getElem?_ofList_iff [DecidableEq α] {entries : List (α × β)}
    (distinct : (entries.map Prod.fst).Nodup) {key : α} {value : β} :
    (ExtTreeMap.ofList entries : ExtTreeMap α β)[key]? = some value ↔ (key, value) ∈ entries := by
  have apart : entries.Pairwise fun left right => ¬ compare left.1 right.1 = .eq := by
    rw [List.Nodup, List.pairwise_map] at distinct
    exact distinct.imp fun different same => different (LawfulEqOrd.compare_eq_iff_eq.mp same)
  constructor
  · intro found
    by_cases member : key ∈ entries.map Prod.fst
    · obtain ⟨⟨same, other⟩, included, rfl⟩ := List.mem_map.mp member
      rw [ExtTreeMap.getElem?_ofList_of_mem compare_self apart included] at found
      rw [← Option.some.inj found]
      exact included
    · rw [ExtTreeMap.getElem?_ofList_of_contains_eq_false (by simpa using member)] at found
      cases found
  · intro member
    exact ExtTreeMap.getElem?_ofList_of_mem compare_self apart member

theorem getElem?_ofList_mapIdx {γ : Type} {values : List γ} (value : γ → β) (first position : Nat) :
    (ExtTreeMap.ofList (values.mapIdx fun index each => (index + first, value each)) :
      ExtTreeMap Nat β)[position]? =
      if position < first then none else values[position - first]?.map value := by
  have distinct :
      ((values.mapIdx fun index each => (index + first, value each)).map Prod.fst).Nodup := by
    rw [List.Nodup, List.pairwise_map, List.pairwise_iff_getElem]
    intro left right _ _ before
    simp only [List.getElem_mapIdx]
    omega
  apply Option.ext
  intro found
  refine (getElem?_ofList_iff distinct).trans ?_
  rw [List.mem_mapIdx]
  constructor
  · rintro ⟨index, inside, same⟩
    cases same
    simp [inside]
  · intro listed
    split at listed
    next => cases listed
    next behind =>
      obtain ⟨each, located, rfl⟩ := Option.map_eq_some_iff.mp listed
      obtain ⟨inside, rfl⟩ := List.getElem?_eq_some_iff.mp located
      refine ⟨position - first, inside, ?_⟩
      rw [Nat.sub_add_cancel (Nat.le_of_not_lt behind)]

theorem keys_nodup (map : ExtTreeMap α β) : (map.toList.map Prod.fst).Nodup := by
  rw [List.Nodup, List.pairwise_map]
  refine ExtTreeMap.distinct_keys_toList.imp ?_
  intro left right different same
  exact different (LawfulEqOrd.compare_eq_iff_eq.mpr same)

theorem mem_keys {key : α} :
    key ∈ map.toList.map Prod.fst ↔ ∃ value, map[key]? = some value := by
  rw [List.mem_map]
  constructor
  · rintro ⟨⟨same, value⟩, member, rfl⟩
    exact ⟨value, ExtTreeMap.mem_toList_iff_getElem?_eq_some.mp member⟩
  · rintro ⟨value, found⟩
    exact ⟨(key, value), ExtTreeMap.mem_toList_iff_getElem?_eq_some.mpr found, rfl⟩

theorem ofList_toList [DecidableEq α] (map : ExtTreeMap α β) :
    (ExtTreeMap.ofList map.toList : ExtTreeMap α β) = map := by
  apply ExtTreeMap.ext_getElem?
  intro key
  apply Option.ext
  intro value
  rw [getElem?_ofList_iff (keys_nodup map), ExtTreeMap.mem_toList_iff_getElem?_eq_some]

theorem values_perm_erase [DecidableEq α] {key : α} {value : β}
    (found : map[key]? = some value) : (values map).Perm (value :: values (map.erase key)) := by
  have listed : map.toList.Perm ((key, value) :: (map.erase key).toList) := by
    rw [List.perm_ext_iff_of_nodup (List.Nodup.of_map _ (keys_nodup map))
      (List.nodup_cons.mpr ⟨?_, List.Nodup.of_map _ (keys_nodup _)⟩)]
    · rintro ⟨other, there⟩
      rw [List.mem_cons, ExtTreeMap.mem_toList_iff_getElem?_eq_some,
        ExtTreeMap.mem_toList_iff_getElem?_eq_some, getElem?_erase_ite]
      by_cases here : other = key
      · simp [here, found, eq_comm]
      · simp [here]
    · rw [ExtTreeMap.mem_toList_iff_getElem?_eq_some, getElem?_erase_ite, if_pos rfl]
      rintro ⟨⟩
  exact listed.map Prod.snd

theorem size_eq_of_mem_iff {γ δ : Type} [Ord δ] [TransOrd δ] [LawfulEqOrd δ]
    {index : ExtTreeMap δ γ} (name : β → δ)
    (injective : ∀ (left right : α) value other, map[left]? = some value →
      map[right]? = some other → name value = name other → left = right)
    (member : ∀ label, label ∈ index ↔ ∃ (key : α) (value : β), map[key]? = some value ∧
      name value = label) :
    index.size = map.size := by
  have distinct : (map.toList.map fun entry => name entry.2).Nodup := by
    refine List.Nodup.map_on ?_ (List.Nodup.of_map _ (keys_nodup map))
    rintro ⟨left, value⟩ foundLeft ⟨right, other⟩ foundRight same
    rw [ExtTreeMap.mem_toList_iff_getElem?_eq_some] at foundLeft foundRight
    obtain rfl := injective left right value other foundLeft foundRight same
    rw [Option.some.inj (foundLeft.symm.trans foundRight)]
  have listed : (index.toList.map Prod.fst).Perm (map.toList.map fun entry => name entry.2) := by
    refine (List.perm_ext_iff_of_nodup (keys_nodup index) distinct).mpr fun label => ?_
    rw [mem_keys, ← Option.isSome_iff_exists, ← ExtTreeMap.mem_iff_isSome_getElem?, member,
      List.mem_map, Prod.exists]
    simp only [ExtTreeMap.mem_toList_iff_getElem?_eq_some]
  have lengths := listed.length_eq
  rwa [List.length_map, List.length_map, ExtTreeMap.length_toList,
    ExtTreeMap.length_toList] at lengths

theorem toList_nodup (set : ExtTreeSet α) : set.toList.Nodup := by
  refine ExtTreeSet.distinct_toList.imp ?_
  intro left right different same
  exact different (LawfulEqOrd.compare_eq_iff_eq.mpr same)

omit [LawfulEqOrd α] in
@[simp] theorem values_empty : values (∅ : ExtTreeMap α β) = [] := by
  simp [values]

theorem values_insert_perm [DecidableEq α] {key : α} (value : β)
    (absent : map[key]? = none) : (values (map.insert key value)).Perm (value :: values map) := by
  have found : (map.insert key value)[key]? = some value := ExtTreeMap.getElem?_insert_self
  have restored : (map.insert key value).erase key = map := by
    apply ExtTreeMap.ext_getElem?
    intro other
    rw [getElem?_erase_ite, getElem?_insert_ite]
    by_cases here : other = key
    · rw [if_pos here, here, absent]
    · rw [if_neg here, if_neg here]
  have listed := values_perm_erase found
  rwa [restored] at listed

omit [LawfulEqOrd α] in
theorem mem_of_getElem? {key : α} {value : β} (found : map[key]? = some value) : key ∈ map := by
  rw [ExtTreeMap.mem_iff_isSome_getElem?, found]
  rfl

omit [LawfulEqOrd α] in
theorem not_mem_of_getElem? {key : α} (absent : map[key]? = none) :
    key ∉ map := by
  rw [ExtTreeMap.mem_iff_isSome_getElem?, absent]
  exact Bool.false_ne_true

omit [LawfulEqOrd α] in
theorem exists_of_mem {key : α} (present : key ∈ map) :
    ∃ value, map[key]? = some value :=
  Option.isSome_iff_exists.mp (ExtTreeMap.mem_iff_isSome_getElem?.mp present)

omit [LawfulEqOrd α] in
theorem getElem?_eq_none {key : α} (absent : key ∉ map) :
    map[key]? = none := by
  rw [ExtTreeMap.mem_iff_isSome_getElem?] at absent
  simpa using absent

theorem erase_of_absent [DecidableEq α] {key : α}
    (absent : map[key]? = none) : map.erase key = map := by
  apply ExtTreeMap.ext_getElem?
  intro other
  rw [getElem?_erase_ite]
  split
  next here => rw [here, absent]
  next => rfl

theorem insert_erase_of_found [DecidableEq α] {key : α} {value : β}
    (found : map[key]? = some value) : (map.erase key).insert key value = map := by
  apply ExtTreeMap.ext_getElem?
  intro other
  rw [getElem?_insert_ite, getElem?_erase_ite]
  split
  next here => rw [here, found]
  next => rfl

theorem isEmpty_iff_getElem? :
    map.isEmpty ↔ ∀ key : α, map[key]? = none := by
  rw [ExtTreeMap.isEmpty_iff]
  constructor
  · rintro rfl key
    simp
  · intro absent
    exact ExtTreeMap.ext_getElem? fun key => by simp [absent key]

def insertAll (map : ExtTreeMap α β) (pairs : List (α × β)) : ExtTreeMap α β :=
  pairs.foldl (fun filled pair => filled.insert pair.1 pair.2) map

def eraseAll (map : ExtTreeMap α β) (keys : List α) : ExtTreeMap α β :=
  keys.foldl ExtTreeMap.erase map

theorem getElem?_insertAll_of_not_mem [DecidableEq α]
    {pairs : List (α × β)} {key : α} (absent : key ∉ pairs.map Prod.fst) :
    (insertAll map pairs)[key]? = map[key]? := by
  induction pairs generalizing map with
  | nil => rfl
  | cons pair rest ih =>
    rw [List.map_cons, List.mem_cons, not_or] at absent
    rw [insertAll, List.foldl_cons]
    refine (ih absent.2).trans ?_
    rw [getElem?_insert_ite, if_neg absent.1]

theorem getElem?_insertAll_of_mem [DecidableEq α]
    {pairs : List (α × β)} (distinct : (pairs.map Prod.fst).Nodup) {key : α} {value : β}
    (member : (key, value) ∈ pairs) : (insertAll map pairs)[key]? = some value := by
  induction pairs generalizing map with
  | nil => cases member
  | cons pair rest ih =>
    rw [List.map_cons, List.nodup_cons] at distinct
    rw [insertAll, List.foldl_cons]
    cases List.mem_cons.mp member with
    | inl here =>
      subst here
      refine (getElem?_insertAll_of_not_mem distinct.1).trans ?_
      rw [getElem?_insert_ite, if_pos rfl]
    | inr later => exact ih distinct.2 later

theorem mem_or_of_getElem?_insertAll [DecidableEq α] {pairs : List (α × β)} {key : α} {value : β}
    (found : (insertAll map pairs)[key]? = some value) :
    (key, value) ∈ pairs ∨ map[key]? = some value := by
  induction pairs generalizing map with
  | nil => exact .inr found
  | cons pair rest ih =>
    rw [insertAll, List.foldl_cons] at found
    cases ih found with
    | inl later => exact .inl (List.mem_cons_of_mem _ later)
    | inr before =>
      rw [getElem?_insert_ite] at before
      split at before
      next here =>
        cases before
        exact .inl (here ▸ List.mem_cons_self)
      next => exact .inr before

theorem getElem?_eraseAll [DecidableEq α] {keys : List α} {key : α} :
    (eraseAll map keys)[key]? = if key ∈ keys then none else map[key]? := by
  induction keys generalizing map with
  | nil => simp [eraseAll]
  | cons first rest ih =>
    rw [eraseAll, List.foldl_cons]
    refine ih.trans ?_
    rw [getElem?_erase_ite]
    by_cases later : key ∈ rest
    · simp [later]
    · by_cases here : key = first <;> simp [later, here]

theorem eraseAll_insertAll [DecidableEq α] {pairs : List (α × β)}
    (fresh : ∀ key ∈ pairs.map Prod.fst, map[key]? = none) :
    eraseAll (insertAll map pairs) (pairs.map Prod.fst) = map := by
  apply ExtTreeMap.ext_getElem?
  intro key
  rw [getElem?_eraseAll]
  split
  next new => exact (fresh key new).symm
  next old => exact getElem?_insertAll_of_not_mem old

/-- `entry(key).or_insert(value)` for every pair of a list. -/
def insertAllIfNew (map : ExtTreeMap α β) (pairs : List (α × β)) : ExtTreeMap α β :=
  pairs.foldl (fun filled pair => filled.insertIfNew pair.1 pair.2) map

theorem getElem?_insertAllIfNew_toList (map source : ExtTreeMap α β) (key : α) :
    (insertAllIfNew map source.toList)[key]? = map[key]?.or source[key]? := by
  have general : ∀ (pairs : List (α × β)) (filled : ExtTreeMap α β),
      pairs.Pairwise (fun left right => ¬ compare left.1 right.1 = .eq) →
      (insertAllIfNew filled pairs)[key]? =
        filled[key]?.or ((pairs.find? fun pair => compare pair.1 key == .eq).map Prod.snd) := by
    intro pairs
    induction pairs with
    | nil => simp [insertAllIfNew]
    | cons pair rest ih =>
      intro filled distinct
      obtain ⟨fresh, distinctRest⟩ := List.pairwise_cons.mp distinct
      change (insertAllIfNew (filled.insertIfNew pair.1 pair.2) rest)[key]? = _
      rw [ih _ distinctRest, ExtTreeMap.getElem?_insertIfNew, List.find?_cons]
      by_cases same : compare pair.1 key = .eq
      · have there : pair.1 = key := LawfulEqOrd.compare_eq_iff_eq.mp same
        subst there
        cases found : filled[pair.1]? with
        | none =>
          have absent : pair.1 ∉ filled := by
            rw [ExtTreeMap.mem_iff_isSome_getElem?, found]
            simp
          simp [absent]
        | some value =>
          have present : pair.1 ∈ filled := mem_of_getElem? found
          simp [present]
      · have miss : (compare pair.1 key == .eq) = false := by simp [same]
        simp [same, miss]
  rw [general source.toList map ExtTreeMap.distinct_keys_toList]
  congr 1
  cases found : source[key]? with
  | none =>
    rw [Option.map_eq_none_iff, List.find?_eq_none]
    rintro ⟨other, value⟩ member
    have known := ExtTreeMap.mem_toList_iff_getElem?_eq_some.mp member
    intro same
    have there : other = key := LawfulEqOrd.compare_eq_iff_eq.mp (by simpa using same)
    rw [there, found] at known
    cases known
  | some value =>
    have member := ExtTreeMap.mem_toList_iff_getElem?_eq_some.mpr found
    cases search : source.toList.find? fun pair => compare pair.1 key == .eq with
    | none =>
      have missing := List.find?_eq_none.mp search (key, value) member
      simp at missing
    | some pair =>
      have same : pair.1 = key :=
        LawfulEqOrd.compare_eq_iff_eq.mp (by simpa using List.find?_some search)
      have known := ExtTreeMap.mem_toList_iff_getElem?_eq_some.mp
        (show (pair.1, pair.2) ∈ source.toList from List.mem_of_find?_eq_some search)
      rw [same, found] at known
      cases known
      rfl

end TreeMap

end Minidox.Foundation
