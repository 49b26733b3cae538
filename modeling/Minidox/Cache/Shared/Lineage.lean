import Minidox.Cache.Shared.Model

/-!
# Lineages

What a shared cache is about, without its containers: which identity each branch
resolves a page to, which identities are resident and as which page, and what the
stores and the pages hold. `Sound` is the invariant that ties identities,
residency, exclusive access and unsynced pages together.
-/

set_option autoImplicit false

namespace Minidox.Cache

open Foundation

structure LineageBranch (Identity : Type) where
  ident : PageKey → Option Identity
  len : NodeId → Option Nat
  byte : NodeId → ByteMap
  exclusive : PageKey → Prop
  dirty : PageKey → Prop
  active : Nat → Option Nat

structure Lineage (Identity : Type) where
  nextBranch : CacheBranchId
  branches : CacheBranchId → Option (LineageBranch Identity)
  pages : Identity → Option Nat
  known : PageKey → Prop
  contents : Nat → ByteMap
  nextPageId : Nat
  issued : Identity → Prop

namespace LineageBranch

variable {Identity : Type}

def Agrees (branch : LineageBranch Identity) (key : PageKey) (bytes : ByteMap) : Prop :=
  ∀ length index, branch.len key.1 = some length → index < pageSize → key.2 + index < length →
    bytes index = branch.byte key.1 (key.2 + index)

end LineageBranch

namespace Lineage

variable {Identity : Type}

/-- The byte that a branch sees: that of the resident page, or else of its store. -/
def byteAt (lineage : Lineage Identity) (branch : LineageBranch Identity) (node : NodeId)
    (position : Nat) : UInt8 :=
  match (branch.ident (node, pageOf position)).bind lineage.pages with
  | some page => lineage.contents page (position - pageOf position)
  | none => branch.byte node position

/-- Every branch sees the same files in both states. -/
structure SameView (before after : Lineage Identity) : Prop where
  next : after.nextBranch = before.nextBranch
  live : ∀ id, (after.branches id).isSome = (before.branches id).isSome
  sees : ∀ id old new, before.branches id = some old → after.branches id = some new →
    new.len = old.len ∧ ∀ node length position, old.len node = some length → position < length →
      after.byteAt new node position = before.byteAt old node position

def holders (held : List DaxPageMapping) (id : CacheBranchId) (page : Nat) : Nat :=
  held.countP fun mapping => decide (mapping.branch = id ∧ mapping.page = page)

/-- The origin of every identity: its page, the length of the file, and the bytes
that a load would find while it is not resident. -/
structure Origin (Identity : Type) where
  home : Identity → PageKey
  length : Identity → Option Nat
  image : Identity → ByteMap

def Backed (lineage : Lineage Identity) (mapping : DaxPageMapping) : Prop :=
  Aligned mapping.key ∧ lineage.known mapping.key ∧
    ∃ branch identity, lineage.branches mapping.branch = some branch ∧
      branch.ident mapping.key = some identity ∧ lineage.pages identity = some mapping.page ∧
      (mapping.flags.write → branch.exclusive mapping.key)

structure SoundFrom (origin : Origin Identity) (held : List DaxPageMapping)
    (lineage : Lineage Identity) : Prop where
  branch_lt : ∀ ⦃id branch⦄, lineage.branches id = some branch → id < lineage.nextBranch
  page_lt : ∀ ⦃identity page⦄, lineage.pages identity = some page → page < lineage.nextPageId
  page_unique : ∀ ⦃left right page⦄, lineage.pages left = some page →
    lineage.pages right = some page → left = right
  page_issued : ∀ ⦃identity page⦄, lineage.pages identity = some page → lineage.issued identity
  ident_issued : ∀ ⦃id branch key identity⦄, lineage.branches id = some branch → Aligned key →
    branch.ident key = some identity → lineage.issued identity
  ident_origin : ∀ ⦃id branch key identity⦄, lineage.branches id = some branch → Aligned key →
    branch.ident key = some identity →
    origin.home identity = key ∧ branch.len key.1 = origin.length identity ∧
      (lineage.pages identity = none → branch.Agrees key (origin.image identity))
  clean : ∀ ⦃id branch key identity page⦄, lineage.branches id = some branch → Aligned key →
    branch.ident key = some identity → lineage.pages identity = some page →
    ¬ branch.dirty key →
    (∀ mapping ∈ held, mapping.branch = id → mapping.key = key → ¬ mapping.flags.write) →
    branch.Agrees key (lineage.contents page)
  dirty_resident : ∀ ⦃id branch key⦄, lineage.branches id = some branch → branch.dirty key →
    Aligned key ∧ lineage.known key ∧
      ∃ identity page, branch.ident key = some identity ∧ lineage.pages identity = some page
  exclusive_private : ∀ ⦃id branch key identity other otherBranch otherKey⦄,
    lineage.branches id = some branch → branch.exclusive key → Aligned key →
    branch.ident key = some identity → lineage.branches other = some otherBranch →
    Aligned otherKey → otherBranch.ident otherKey = some identity → other = id
  exclusive_resolved : ∀ ⦃id branch key⦄, lineage.branches id = some branch →
    branch.exclusive key → Aligned key ∧ ∃ identity, branch.ident key = some identity
  held_backed : ∀ mapping ∈ held, lineage.Backed mapping
  active_count : ∀ id branch page, lineage.branches id = some branch →
    branch.active page = if holders held id page = 0 then none else some (holders held id page)

/-- The invariant of a lineage whose clients hold the mappings of `held`. -/
def Sound (held : List DaxPageMapping) (lineage : Lineage Identity) : Prop :=
  ∃ origin : Origin Identity, SoundFrom origin held lineage

def setBranch (lineage : Lineage Identity) (id : CacheBranchId)
    (branch : LineageBranch Identity) : Lineage Identity :=
  { lineage with branches := Function.update lineage.branches id (some branch) }

theorem sameView_refl (lineage : Lineage Identity) : SameView lineage lineage := by
  refine ⟨rfl, fun _ => rfl, ?_⟩
  intro id old new before after
  obtain rfl : old = new := Option.some.inj (before.symm.trans after)
  exact ⟨rfl, fun _ _ _ _ _ => rfl⟩

theorem SameView.trans {first second third : Lineage Identity} (before : SameView first second)
    (after : SameView second third) : SameView first third := by
  refine ⟨after.next.trans before.next, fun id => (after.live id).trans (before.live id), ?_⟩
  intro id old new foundOld foundNew
  have live := before.live id
  rw [foundOld, Option.isSome_some, Option.isSome_iff_exists] at live
  obtain ⟨middle, foundMiddle⟩ := live
  obtain ⟨firstLen, firstBytes⟩ := before.sees id old middle foundOld foundMiddle
  obtain ⟨secondLen, secondBytes⟩ := after.sees id middle new foundMiddle foundNew
  refine ⟨secondLen.trans firstLen, ?_⟩
  intro node length position known below
  rw [secondBytes node length position (by rw [firstLen, known]) below,
    firstBytes node length position known below]

theorem holders_cons (mapping : DaxPageMapping) (held : List DaxPageMapping) (id : CacheBranchId)
    (page : Nat) : holders (mapping :: held) id page =
      holders held id page + if mapping.branch = id ∧ mapping.page = page then 1 else 0 := by
  simp [holders, List.countP_cons]

theorem holders_erase {mapping : DaxPageMapping} {held : List DaxPageMapping}
    (member : mapping ∈ held) (id : CacheBranchId) (page : Nat) :
    holders held id page = holders (held.erase mapping) id page +
      if mapping.branch = id ∧ mapping.page = page then 1 else 0 := by
  rw [← holders_cons]
  exact (List.perm_cons_erase member).countP_eq _

theorem holders_eq_zero {held : List DaxPageMapping} {id : CacheBranchId} {page : Nat} :
    holders held id page = 0 ↔
      ∀ mapping ∈ held, mapping.branch = id → mapping.page ≠ page := by
  simp [holders, List.countP_eq_zero]

theorem SoundFrom.perm {origin : Origin Identity} {held others : List DaxPageMapping}
    {lineage : Lineage Identity} (sound : SoundFrom origin held lineage) (perm : held.Perm others) :
    SoundFrom origin others lineage :=
  { sound with
    clean := fun id branch key identity page found aligned resolved resident unmarked unwritten =>
      sound.clean found aligned resolved resident unmarked
        fun mapping member => unwritten mapping (perm.mem_iff.mp member)
    held_backed := fun mapping member => sound.held_backed mapping (perm.mem_iff.mpr member)
    active_count := fun id branch page found => by
      rw [holders, ← perm.countP_eq]
      exact sound.active_count id branch page found }

end Lineage

end Minidox.Cache
