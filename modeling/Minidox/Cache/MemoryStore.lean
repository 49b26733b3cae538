import Minidox.Cache.Basic

/-! The in-memory filesystem that the tests of `minidox-cache` run the page cache
on. -/

set_option autoImplicit false

namespace Minidox.Cache

open Foundation Attempt
open Std (ExtTreeMap)

structure MemoryStore where
  nodes : ExtTreeMap NodeId (List UInt8)
  opens : Nat
  closes : Nat

namespace MemoryStore

def withNode (node : NodeId) (bytes : List UInt8) : MemoryStore :=
  { nodes := (∅ : ExtTreeMap NodeId (List UInt8)).insert node bytes, opens := 0, closes := 0 }

def data (store : MemoryStore) (node : NodeId) : List UInt8 := store.nodes[node]?.getD []

/-- `data` after `resize` and `copy_from_slice`. -/
def overwrite (data : List UInt8) (offset : Nat) (buf : List UInt8) : List UInt8 :=
  ((ByteMap.ofList data).write offset buf).read 0 (max data.length (offset + buf.length))

instance : NodeStore Unit MemoryStore where
  len store node := .ok (store.data node).length
  readNode store node offset count :=
    .ok ((ByteMap.ofList (store.data node)).read offset
      (min count ((store.data node).length - offset)))
  writeNode node offset buf := do
    modify fun (world, store) =>
      (world, { store with
        nodes := store.nodes.insert node (overwrite (store.data node) offset buf) })
    pure buf.length
  onOpenNode _ := modify fun (world, store) => (world, { store with opens := store.opens + 1 })
  onCloseNode _ := modify fun (world, store) => (world, { store with closes := store.closes + 1 })

instance : FileView MemoryStore where
  fileLen store node := some (store.data node).length
  fileByte store node := ByteMap.ofList (store.data node)

theorem data_insert (store : MemoryStore) (node other : NodeId) (bytes : List UInt8) :
    data { store with nodes := store.nodes.insert node bytes } other =
      if node = other then bytes else store.data other := by
  simp only [data, ExtTreeMap.getElem?_insert]
  by_cases same : node = other
  · simp [same]
  · simp [same]

theorem length_overwrite (data : List UInt8) (offset : Nat) (buf : List UInt8) :
    (overwrite data offset buf).length = max data.length (offset + buf.length) := by
  simp [overwrite]

theorem ofList_overwrite {data buf : List UInt8} {offset : Nat}
    (inside : offset + buf.length ≤ data.length) :
    ByteMap.ofList (overwrite data offset buf) = (ByteMap.ofList data).write offset buf := by
  funext position
  by_cases short : position < data.length
  · have bound : position < max data.length (offset + buf.length) := by omega
    rw [ByteMap.ofList, overwrite, ByteMap.getD_read _ bound, Nat.zero_add]
  · rw [ByteMap.write_outside (by omega)]
    have past : (overwrite data offset buf).length ≤ position := by
      rw [length_overwrite]
      omega
    simp [ByteMap.ofList, List.getD, List.getElem?_eq_none past,
      List.getElem?_eq_none (Nat.le_of_not_lt short)]

instance : LawfulNodeStore Unit MemoryStore where
  len_ok found := by
    cases found
    rfl
  readNode_ok found := by
    cases found
    exact ⟨_, rfl, rfl⟩
  writeNode_frame node offset buf world store length found inside := by
    obtain rfl : (store.data node).length = length := Option.some.inj found
    simp only [NodeStore.writeNode, ends_bind, ends_modify, ends_pure]
    have same := ofList_overwrite inside
    refine ⟨?_, ?_, ?_⟩
    · funext other
      simp only [FileView.fileLen, data_insert, Option.some.injEq]
      by_cases here : node = other
      · subst here
        simp [length_overwrite, inside]
      · simp [here]
    · intro other position outside
      simp only [FileView.fileByte, data_insert]
      by_cases here : node = other
      · subst here
        simp only [↓reduceIte, same]
        exact ByteMap.write_outside fun inside => outside ⟨rfl, inside⟩
      · simp [here]
    · intro written reported
      cases reported
      refine ⟨le_refl _, fun position lower upper => ?_⟩
      simp only [FileView.fileByte, data_insert, ↓reduceIte, same]
      exact ByteMap.write_inside lower upper
  onOpenNode_frame _ _ _ := ⟨rfl, rfl⟩
  onCloseNode_frame _ _ _ := ⟨rfl, rfl⟩

end MemoryStore

end Minidox.Cache
