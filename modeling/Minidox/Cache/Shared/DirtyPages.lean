import Minidox.Cache.Basic
import Minidox.Foundation.Overlay
import Minidox.Foundation.Transition

/-!
# Dirty pages of a branch

`DirtyBranch` of `minidox-cache/src/branching.rs`. A branch shares the marks made
before a fork with its relatives and keeps its later marks to itself. A family of
branches is a family of sets, in which a fork copies a set.
-/

set_option autoImplicit false

namespace Minidox.Cache

open Foundation
open Std (ExtTreeMap ExtTreeSet)

abbrev DirtyGenerations := List (ExtTreeMap PageKey Bool)

structure DirtyBranch where
  base : DirtyGenerations
  changes : ExtTreeMap PageKey Bool

namespace DirtyBranch

def new : DirtyBranch := { base := [∅], changes := ∅ }

def pushMarks (branch : DirtyBranch) : DirtyBranch :=
  if branch.changes.isEmpty then branch
  else { base := branch.changes :: branch.base, changes := ∅ }

/-- The source and the child after a fork. -/
def fork (branch : DirtyBranch) : DirtyBranch × DirtyBranch :=
  (branch.pushMarks, { base := branch.pushMarks.base, changes := ∅ })

def markDirty (branch : DirtyBranch) (key : PageKey) : DirtyBranch :=
  { branch with changes := branch.changes.insert key true }

def markClean (branch : DirtyBranch) (key : PageKey) : DirtyBranch :=
  { branch with changes := branch.changes.insert key false }

def visible (branch : DirtyBranch) : ExtTreeMap PageKey Bool :=
  branch.base.foldl (fun marks generation => TreeMap.insertAllIfNew marks generation.toList)
    branch.changes

def collect (branch : DirtyBranch) (wanted : PageKey → Bool) : List PageKey :=
  branch.visible.toList.filterMap fun (key, dirty) =>
    if wanted key && dirty then some key else none

/-- The marks of a node, which `pages_for_node` collects on its own. -/
def visibleForNode (branch : DirtyBranch) (node : NodeId) : ExtTreeMap PageKey Bool :=
  branch.base.foldl
    (fun marks generation =>
      TreeMap.insertAllIfNew marks (generation.toList.filter fun entry => entry.1.1 = node))
    (ExtTreeMap.ofList (branch.changes.toList.filter fun entry => entry.1.1 = node))

def pagesForNode (branch : DirtyBranch) (node : NodeId) : List PageKey :=
  (branch.visibleForNode node).toList.filterMap fun (key, dirty) => if dirty then some key else none

def pages (branch : DirtyBranch) : List PageKey := branch.collect fun _ => true

def mark (branch : DirtyBranch) (key : PageKey) : Option Bool :=
  branch.changes[key]?.or (branch.base.findSome? fun generation => generation[key]?)

def IsDirty (branch : DirtyBranch) (key : PageKey) : Prop := branch.mark key = some true

instance (branch : DirtyBranch) (key : PageKey) : Decidable (branch.IsDirty key) :=
  inferInstanceAs (Decidable (_ = _))

theorem getElem?_visible (branch : DirtyBranch) (key : PageKey) :
    branch.visible[key]? = branch.mark key := by
  rw [visible, Overlay.getElem?_foldl_insertAllIfNew, Overlay.lookup_cons]
  rfl

variable {branch : DirtyBranch} {key : PageKey}

theorem mem_collect {wanted : PageKey → Bool} :
    key ∈ branch.collect wanted ↔ wanted key ∧ branch.IsDirty key := by
  simp only [collect, List.mem_filterMap, IsDirty]
  constructor
  · rintro ⟨⟨other, dirty⟩, member, kept⟩
    rw [Option.ite_none_right_eq_some, Option.some.injEq] at kept
    obtain ⟨both, rfl⟩ := kept
    rw [Bool.and_eq_true] at both
    rw [ExtTreeMap.mem_toList_iff_getElem?_eq_some, getElem?_visible] at member
    exact ⟨both.1, member.trans (congrArg some both.2)⟩
  · rintro ⟨asked, dirty⟩
    refine ⟨(key, true), ?_, by simp [asked]⟩
    rw [ExtTreeMap.mem_toList_iff_getElem?_eq_some, getElem?_visible, dirty]

theorem collect_ordered (branch : DirtyBranch) (wanted : PageKey → Bool) :
    (branch.collect wanted).Pairwise fun left right => compare left right = .lt := by
  refine List.Pairwise.filterMap _ ?_ ExtTreeMap.ordered_keys_toList
  rintro left right less key kept other keptOther
  rw [Option.ite_none_right_eq_some] at kept keptOther
  rw [← Option.some.inj kept.2, ← Option.some.inj keptOther.2]
  exact less

theorem collect_nodup (branch : DirtyBranch) (wanted : PageKey → Bool) :
    (branch.collect wanted).Nodup := by
  refine (branch.collect_ordered wanted).imp ?_
  rintro left right less rfl
  rw [Std.compare_self] at less
  cases less

theorem pagesForNode_eq (branch : DirtyBranch) (node : NodeId) :
    branch.pagesForNode node = branch.collect fun key => key.1 = node := by
  have kept : ∀ marks : ExtTreeMap PageKey Bool,
      (marks.toList.filter fun entry => entry.1.1 = node) =
        (marks.filter fun key _ => key.1 = node).toList := by
    intro marks
    rw [ExtTreeMap.toList_filter]
  have same : branch.visibleForNode node = branch.visible.filter fun key _ => key.1 = node := by
    apply ExtTreeMap.ext_getElem?
    intro key
    have chain : branch.visibleForNode node = (branch.base.map
        fun generation => generation.filter fun key _ => key.1 = node).foldl
        (fun marks generation => TreeMap.insertAllIfNew marks generation.toList)
        (branch.changes.filter fun key _ => key.1 = node) := by
      simp only [visibleForNode, kept, List.foldl_map, TreeMap.ofList_toList]
    rw [chain, Overlay.getElem?_foldl_insertAllIfNew, TreeMap.getElem?_filter_key,
      getElem?_visible, Overlay.lookup_cons, TreeMap.getElem?_filter_key, mark, Overlay.lookup,
      List.findSome?_map]
    simp only [Function.comp_def, TreeMap.getElem?_filter_key]
    split
    next => rfl
    next => simp
  rw [pagesForNode, same, ← kept, List.filterMap_filter, collect]
  refine List.filterMap_congr fun entry _ => ?_
  by_cases asked : entry.1.1 = node
  · simp [asked]
  · simp [asked]

@[simp] theorem not_isDirty_new (key : PageKey) : ¬ new.IsDirty key := by
  simp [IsDirty, mark, new]

theorem mark_pushMarks (branch : DirtyBranch) (key : PageKey) :
    branch.pushMarks.mark key = branch.mark key := by
  unfold pushMarks
  split
  · rfl
  · cases found : branch.changes[key]? with
    | none => simp [mark, found]
    | some value => simp [mark, found]

@[simp] theorem isDirty_pushMarks :
    branch.pushMarks.IsDirty key ↔ branch.IsDirty key := by
  rw [IsDirty, IsDirty, mark_pushMarks]

theorem mark_child (branch : DirtyBranch) (key : PageKey) :
    branch.fork.2.mark key = branch.mark key := by
  unfold fork pushMarks
  split
  next empty =>
    have none := TreeMap.isEmpty_iff_getElem?.mp empty key
    simp [mark, none]
  next => cases found : branch.changes[key]? <;> simp [mark, found]

@[simp] theorem isDirty_child :
    branch.fork.2.IsDirty key ↔ branch.IsDirty key := by
  rw [IsDirty, IsDirty, mark_child]

theorem isDirty_markDirty {other : PageKey} :
    (branch.markDirty key).IsDirty other ↔ key = other ∨ branch.IsDirty other := by
  simp only [IsDirty, mark, markDirty, ExtTreeMap.getElem?_insert]
  by_cases same : key = other
  · simp [same]
  · simp [same]

theorem isDirty_markClean {other : PageKey} :
    (branch.markClean key).IsDirty other ↔ key ≠ other ∧ branch.IsDirty other := by
  simp only [IsDirty, mark, markClean, ExtTreeMap.getElem?_insert]
  by_cases same : key = other
  · simp [same]
  · simp [same]

/-!
## Families of branches
-/

def dirtySet (branch : DirtyBranch) : ExtTreeSet PageKey := ExtTreeSet.ofList branch.pages

theorem mem_dirtySet :
    key ∈ branch.dirtySet ↔ branch.IsDirty key := by
  rw [dirtySet, ExtTreeSet.mem_ofList, List.contains_iff_mem, pages, mem_collect]
  simp

theorem pages_eq_toList (branch : DirtyBranch) : branch.pages = branch.dirtySet.toList := by
  refine List.Perm.eq_of_pairwise ?_ (branch.collect_ordered _) ExtTreeSet.ordered_toList ?_
  · intro left right _ _ less greater
    rw [Std.OrientedOrd.eq_swap, greater] at less
    cases less
  · refine (List.perm_ext_iff_of_nodup (branch.collect_nodup _) (TreeMap.toList_nodup _)).mpr ?_
    intro key
    rw [ExtTreeSet.mem_toList, mem_dirtySet, mem_collect]
    simp

theorem dirtySet_congr {other : DirtyBranch}
    (same : ∀ key, branch.IsDirty key ↔ other.IsDirty key) :
    branch.dirtySet = other.dirtySet := by
  apply ExtTreeSet.ext_mem
  intro key
  rw [mem_dirtySet, mem_dirtySet, same key]

theorem dirtySet_markDirty (branch : DirtyBranch) (key : PageKey) :
    (branch.markDirty key).dirtySet = branch.dirtySet.insert key := by
  apply ExtTreeSet.ext_mem
  intro other
  rw [mem_dirtySet, isDirty_markDirty, ExtTreeSet.mem_insert, mem_dirtySet,
    Std.LawfulEqOrd.compare_eq_iff_eq]

theorem dirtySet_markClean (branch : DirtyBranch) (key : PageKey) :
    (branch.markClean key).dirtySet = branch.dirtySet.erase key := by
  apply ExtTreeSet.ext_mem
  intro other
  rw [mem_dirtySet, isDirty_markClean, ExtTreeSet.mem_erase, mem_dirtySet, ne_eq, ne_eq,
    Std.LawfulEqOrd.compare_eq_iff_eq]

end DirtyBranch

/-- The branches of a family are numbered in the order in which they were made. -/
inductive DirtyAction where
  | markDirty (branch : Nat) (key : PageKey)
  | markClean (branch : Nat) (key : PageKey)
  | fork (branch : Nat)
  deriving DecidableEq, Repr

namespace DirtyBranch

def step (family : List DirtyBranch) : DirtyAction → List DirtyBranch
  | .markDirty branch key => family.modify branch fun marks => marks.markDirty key
  | .markClean branch key => family.modify branch fun marks => marks.markClean key
  | .fork branch =>
    family.modify branch (fun source => source.fork.1) ++
      family[branch]?.toList.map fun source => source.fork.2

/-- The same family with one set for each branch. A fork copies the set. -/
def referenceStep (sets : List (ExtTreeSet PageKey)) : DirtyAction → List (ExtTreeSet PageKey)
  | .markDirty branch key => sets.modify branch fun set => set.insert key
  | .markClean branch key => sets.modify branch fun set => set.erase key
  | .fork branch => sets ++ sets[branch]?.toList

theorem map_dirtySet_modify (family : List DirtyBranch) (branch : Nat)
    {change : DirtyBranch → DirtyBranch} {update : ExtTreeSet PageKey → ExtTreeSet PageKey}
    (updated : ∀ marks, (change marks).dirtySet = update marks.dirtySet) :
    (family.modify branch change).map dirtySet = (family.map dirtySet).modify branch update := by
  apply List.ext_getElem?
  intro index
  simp only [List.getElem?_map, List.getElem?_modify, Option.map_eq_map, Option.map_map]
  congr 1
  funext marks
  by_cases here : branch = index
  · simp [here, updated]
  · simp [here]

theorem map_dirtySet_step (family : List DirtyBranch) (action : DirtyAction) :
    referenceStep (family.map dirtySet) action = (step family action).map dirtySet := by
  cases action with
  | markDirty branch key =>
    exact (map_dirtySet_modify family branch fun marks => marks.dirtySet_markDirty key).symm
  | markClean branch key =>
    exact (map_dirtySet_modify family branch fun marks => marks.dirtySet_markClean key).symm
  | fork branch =>
    have parent : (family.modify branch fun source => source.fork.1).map dirtySet =
        family.map dirtySet := by
      have kept : ∀ source : DirtyBranch, source.fork.1.dirtySet = id source.dirtySet :=
        fun source => dirtySet_congr fun key => isDirty_pushMarks
      rw [map_dirtySet_modify family branch kept, List.modify_id]
    have child : ∀ source : DirtyBranch, source.fork.2.dirtySet = source.dirtySet :=
      fun source => dirtySet_congr fun key => isDirty_child
    simp only [referenceStep, step, List.map_append, parent, List.map_map, Function.comp_def,
      child, List.getElem?_map, Option.toList_map]

/-- A family of branches is a family of sets: both queries of every branch list its set in
key order. -/
theorem branches_are_forkable_sets (actions : List DirtyAction) :
    (run step [new] actions).map pages =
      (run referenceStep [∅] actions).map ExtTreeSet.toList ∧
    ∀ node, (run step [new] actions).map (fun branch => branch.pagesForNode node) =
      (run referenceStep [∅] actions).map fun set => set.toList.filter fun key => key.1 = node := by
  have start : [new].map dirtySet = [∅] := by
    rw [List.map_singleton, List.singleton_inj]
    apply ExtTreeSet.ext_mem
    intro key
    rw [mem_dirtySet]
    simp
  have sets : run referenceStep [∅] actions = (run step [new] actions).map dirtySet := by
    rw [← start]
    exact List.foldl_hom (List.map dirtySet) map_dirtySet_step
  have restricted : ∀ (branch : DirtyBranch) (node : NodeId), branch.pagesForNode node =
      branch.dirtySet.toList.filter fun key => key.1 = node := by
    intro branch node
    rw [← pages_eq_toList, pagesForNode_eq, pages, collect, collect, List.filter_filterMap]
    refine List.filterMap_congr fun entry _ => ?_
    by_cases dirty : entry.2
    · simp [dirty, Option.filter_some]
    · simp [dirty]
  refine ⟨?_, fun node => ?_⟩
  · rw [sets, List.map_map]
    exact List.map_congr_left fun branch _ => branch.pages_eq_toList
  · rw [sets, List.map_map]
    exact List.map_congr_left fun branch _ => restricted branch node

end DirtyBranch

end Minidox.Cache
