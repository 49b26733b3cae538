import Minidox.Foundation.TreeMap

/-!
# Overlays

A chain of maps in which a newer map hides what the older ones hold. A reader
looks a key up in the newest map that has it; flattening the chain gives one map
with the same answers.
-/

set_option autoImplicit false

namespace Minidox.Foundation

open Std

variable {α β : Type} [Ord α] [TransOrd α]

namespace TreeMap

/-- `BTreeMap::extend`: the entries of the second map replace those of the first. -/
def extend (map source : ExtTreeMap α β) : ExtTreeMap α β := map.insertMany source.toList

theorem getElem?_extend [LawfulEqOrd α] [DecidableEq α] (map source : ExtTreeMap α β)
    (key : α) : (extend map source)[key]? = source[key]?.or map[key]? := by
  unfold extend
  cases found : source[key]? with
  | some value =>
    have member := ExtTreeMap.mem_toList_iff_getElem?_eq_some.mpr found
    rw [ExtTreeMap.getElem?_insertMany_list_of_mem compare_self
      ExtTreeMap.distinct_keys_toList member]
    rfl
  | none =>
    have absent : (source.toList.map Prod.fst).contains key = false := by
      simp only [List.contains_eq_mem, decide_eq_false_iff_not, List.mem_map, not_exists, not_and]
      intro pair member same
      have there := ExtTreeMap.mem_toList_iff_getElem?_eq_some.mp member
      rw [same, found] at there
      cases there
    rw [ExtTreeMap.getElem?_insertMany_list_of_contains_eq_false absent]
    rfl

end TreeMap

namespace Overlay

/-- What the newest map that has the key holds. The newest map comes first. -/
def lookup (chain : List (ExtTreeMap α β)) (key : α) : Option β :=
  chain.findSome? fun map => map[key]?

/-- One map for the whole chain, filled from the oldest map on. -/
def flatten : List (ExtTreeMap α β) → ExtTreeMap α β
  | [] => ∅
  | newest :: older => TreeMap.extend (flatten older) newest

/-- A fork or a checkpoint seals the newest map, unless there is nothing in it. -/
def push (newest : ExtTreeMap α β) (older : List (ExtTreeMap α β)) : List (ExtTreeMap α β) :=
  if newest.isEmpty then older else newest :: older

theorem lookup_cons (newest : ExtTreeMap α β) (older : List (ExtTreeMap α β)) (key : α) :
    lookup (newest :: older) key = newest[key]?.or (lookup older key) := by
  simp only [lookup, List.findSome?_cons]
  cases newest[key]? with
  | none => rfl
  | some value => rfl

theorem lookup_empty_cons (older : List (ExtTreeMap α β)) (key : α) :
    lookup (∅ :: older) key = lookup older key := by
  rw [lookup_cons, ExtTreeMap.getElem?_empty, Option.none_or]

theorem lookup_single {flat : ExtTreeMap α β} {chain : List (ExtTreeMap α β)}
    (agrees : ∀ key, flat[key]? = lookup chain key) (key : α) :
    lookup [∅, flat] key = lookup chain key := by
  rw [lookup_empty_cons, lookup_cons, agrees key]
  exact Option.or_none

variable [LawfulEqOrd α]

theorem lookup_push (newest : ExtTreeMap α β) (older : List (ExtTreeMap α β)) (key : α) :
    lookup (push newest older) key = lookup (newest :: older) key := by
  unfold push
  split
  next empty =>
    rw [lookup_cons, TreeMap.isEmpty_iff_getElem?.mp empty key, Option.none_or]
  next => rfl

/-- Filling a map from the newest map of a chain on, where older maps only add new keys. -/
theorem getElem?_foldl_insertAllIfNew (newest : ExtTreeMap α β) (older : List (ExtTreeMap α β))
    (key : α) :
    (older.foldl (fun filled map => TreeMap.insertAllIfNew filled map.toList) newest)[key]? =
      lookup (newest :: older) key := by
  induction older generalizing newest with
  | nil =>
    rw [List.foldl_nil, lookup_cons]
    exact Option.or_none.symm
  | cons map rest ih =>
    rw [List.foldl_cons, ih, lookup_cons, lookup_cons, lookup_cons,
      TreeMap.getElem?_insertAllIfNew_toList, Option.or_assoc]

variable [DecidableEq α]

theorem getElem?_flatten (chain : List (ExtTreeMap α β)) (key : α) :
    (flatten chain)[key]? = lookup chain key := by
  induction chain with
  | nil => exact ExtTreeMap.getElem?_empty
  | cons newest older ih => rw [flatten, TreeMap.getElem?_extend, ih, lookup_cons]

theorem flatten_congr {left right : List (ExtTreeMap α β)}
    (same : ∀ key, lookup left key = lookup right key) : flatten left = flatten right := by
  apply ExtTreeMap.ext_getElem?
  intro key
  rw [getElem?_flatten, getElem?_flatten, same key]

end Overlay

end Minidox.Foundation
