import Minidox.Cache.Shared.LineageMappings

/-!
# Branches

Forking and removing branches, and making files in them.
-/

set_option autoImplicit false

namespace Minidox.Cache.Lineage

open Foundation

variable {Identity : Type} {origin : Origin Identity} {held : List DaxPageMapping}
  {lineage : Lineage Identity}

/-- The source gives up its exclusive pages, and the child starts as its copy. -/
def fork (lineage : Lineage Identity) (source : CacheBranchId)
    (parent child : LineageBranch Identity) : Lineage Identity :=
  { lineage with
    nextBranch := lineage.nextBranch + 1
    branches := Function.update (Function.update lineage.branches source (some parent))
      lineage.nextBranch (some child) }

/-- A branch with the files and the marks of another one. -/
structure CopyOf (branch copy : LineageBranch Identity) : Prop where
  ident : copy.ident = branch.ident
  len : copy.len = branch.len
  byte : copy.byte = branch.byte
  dirty : ∀ key, copy.dirty key ↔ branch.dirty key
  exclusive : ∀ key, ¬ copy.exclusive key
  active : ∀ page, copy.active page = none

section Fork

variable {source : CacheBranchId} {branch parent child : LineageBranch Identity}

theorem fork_cases {id : CacheBranchId} {after : LineageBranch Identity}
    (lookup : (lineage.fork source parent child).branches id = some after) :
    (after = child ∧ id = lineage.nextBranch) ∨ (after = parent ∧ id = source) ∨
      (id ≠ source ∧ id ≠ lineage.nextBranch ∧ lineage.branches id = some after) := by
  simp only [Lineage.fork, Function.update_apply] at lookup
  split at lookup
  next here =>
    cases lookup
    exact .inl ⟨rfl, here⟩
  next other =>
    split at lookup
    next here =>
      cases lookup
      exact .inr (.inl ⟨rfl, here⟩)
    next there => exact .inr (.inr ⟨there, other, lookup⟩)

theorem SoundFrom.fork (sound : SoundFrom origin held lineage)
    (found : lineage.branches source = some branch) (idle : ∀ page, branch.active page = none)
    (parentCopy : CopyOf branch parent) (childCopy : CopyOf branch child) :
    SoundFrom origin held (lineage.fork source parent child) := by
  have unheld : ∀ mapping ∈ held, mapping.branch ≠ source ∧
      mapping.branch ≠ lineage.nextBranch := by
    intro mapping member
    obtain ⟨-, -, mappingBranch, -, live, -⟩ := sound.held_backed mapping member
    exact ⟨sound.unheld_of_idle found idle mapping member,
      Nat.ne_of_lt (sound.branch_lt live)⟩
  -- the branch from before that a branch after the fork copies
  have old : ∀ id after, (lineage.fork source parent child).branches id = some after →
      ∃ before beforeId, lineage.branches beforeId = some before ∧ after.ident = before.ident ∧
        after.len = before.len ∧ after.byte = before.byte ∧
        (∀ key, after.dirty key ↔ before.dirty key) ∧
        (∀ key, after.exclusive key → before.exclusive key ∧ id = beforeId ∧ id ≠ source) ∧
        (beforeId = source ∨ beforeId = id) := by
    intro id after lookup
    rcases fork_cases lookup with
      ⟨rfl, -⟩ | ⟨rfl, -⟩ | ⟨notSource, -, foundThere⟩
    · exact ⟨branch, source, found, childCopy.ident, childCopy.len, childCopy.byte, childCopy.dirty,
        fun key exclusive => absurd exclusive (childCopy.exclusive key), .inl rfl⟩
    · exact ⟨branch, source, found, parentCopy.ident, parentCopy.len, parentCopy.byte,
        parentCopy.dirty, fun key exclusive => absurd exclusive (parentCopy.exclusive key),
        .inl rfl⟩
    · exact ⟨after, id, foundThere, rfl, rfl, rfl, fun _ => Iff.rfl,
        fun _ exclusive => ⟨exclusive, rfl, notSource⟩, .inr rfl⟩
  refine ⟨?_, sound.page_lt, sound.page_unique, sound.page_issued, ?_, ?_, ?_, ?_, ?_, ?_, ?_, ?_⟩
  · intro id after lookup
    rcases fork_cases lookup with
      ⟨-, rfl⟩ | ⟨-, rfl⟩ | ⟨-, -, foundThere⟩
    · exact Nat.lt_succ_self _
    · exact Nat.lt_succ_of_lt (sound.branch_lt found)
    · exact Nat.lt_succ_of_lt (sound.branch_lt foundThere)
  · intro id after key identity lookup aligned resolved
    obtain ⟨before, beforeId, foundBefore, ident, -⟩ := old id after lookup
    exact sound.ident_issued foundBefore aligned (by rwa [← ident])
  · intro id after key identity lookup aligned resolved
    obtain ⟨before, beforeId, foundBefore, ident, len, byte, -⟩ := old id after lookup
    have origins := sound.ident_origin foundBefore aligned
      (by rwa [← ident])
    simpa [LineageBranch.Agrees, len, byte, Lineage.fork] using origins
  · intro id after key identity page lookup aligned resolved resident undirty unwritten
    obtain ⟨before, beforeId, foundBefore, ident, len, byte, dirty, -, whose⟩ := old id after lookup
    have agrees := sound.clean foundBefore aligned
      (by rwa [← ident]) resident (by rwa [← dirty]) ?_
    · simpa [LineageBranch.Agrees, len, byte, Lineage.fork] using agrees
    · intro mapping member here atKey
      rcases whose with rfl | rfl
      · exact absurd here (unheld mapping member).1
      · exact unwritten mapping member here atKey
  · intro id after key lookup marked
    obtain ⟨before, beforeId, foundBefore, ident, -, -, dirty, -⟩ := old id after lookup
    rw [ident]
    exact sound.dirty_resident foundBefore ((dirty key).mp marked)
  · intro id after key identity other otherAfter otherKey lookup exclusive aligned resolved
      lookupOther alignedOther resolvedOther
    obtain ⟨before, beforeId, foundBefore, ident, -, -, -, wasExclusive, -⟩ := old id after lookup
    obtain ⟨otherBefore, otherId, foundOther, identOther, -, -, -, -, whose⟩ :=
      old other otherAfter lookupOther
    obtain ⟨exclusiveBefore, rfl, notSource⟩ := wasExclusive key exclusive
    have same := sound.exclusive_private
      foundBefore exclusiveBefore aligned (by rwa [← ident]) foundOther alignedOther
      (by rwa [← identOther])
    rcases whose with rfl | rfl
    · exact absurd same.symm notSource
    · exact same
  · intro id after key lookup exclusive
    obtain ⟨before, beforeId, foundBefore, ident, -, -, -, wasExclusive, -⟩ := old id after lookup
    rw [ident]
    exact sound.exclusive_resolved foundBefore (wasExclusive key exclusive).1
  · intro mapping member
    obtain ⟨aligned, known, mappingBranch, identity, live, resolved, resident, writable⟩ :=
      sound.held_backed mapping member
    obtain ⟨notSource, notChild⟩ := unheld mapping member
    exact ⟨aligned, known, mappingBranch, identity,
      by simpa [Lineage.fork, notSource, notChild] using live, resolved, resident, writable⟩
  · intro id after page lookup
    rcases fork_cases lookup with
      ⟨rfl, rfl⟩ | ⟨rfl, rfl⟩ | ⟨-, -, foundThere⟩
    · have none : holders held lineage.nextBranch page = 0 :=
        holders_eq_zero.mpr fun mapping member here => absurd here (unheld mapping member).2
      rw [childCopy.active, none, if_pos rfl]
    · have none : holders held id page = 0 :=
        holders_eq_zero.mpr fun mapping member here => absurd here (unheld mapping member).1
      rw [parentCopy.active, none, if_pos rfl]
    · exact sound.active_count id after page foundThere

end Fork

def remove (lineage : Lineage Identity) (id : CacheBranchId) : Lineage Identity :=
  { lineage with branches := Function.update lineage.branches id none }

theorem remove_cases {id other : CacheBranchId} {found : LineageBranch Identity}
    (lookup : (lineage.remove id).branches other = some found) :
    other ≠ id ∧ lineage.branches other = some found := by
  simp only [remove, Function.update_apply] at lookup
  split at lookup
  next => cases lookup
  next there => exact ⟨there, lookup⟩

theorem SoundFrom.remove {id : CacheBranchId} {branch : LineageBranch Identity}
    (sound : SoundFrom origin held lineage) (found : lineage.branches id = some branch)
    (idle : ∀ page, branch.active page = none) :
    SoundFrom origin held (lineage.remove id) where
  branch_lt other otherBranch lookup :=
    sound.branch_lt (remove_cases lookup).2
  page_lt := sound.page_lt
  page_unique := sound.page_unique
  page_issued := sound.page_issued
  ident_issued other otherBranch key identity lookup :=
    sound.ident_issued (remove_cases lookup).2
  ident_origin other otherBranch key identity lookup :=
    sound.ident_origin (remove_cases lookup).2
  clean other otherBranch key identity page lookup :=
    sound.clean (remove_cases lookup).2
  dirty_resident other otherBranch key lookup :=
    sound.dirty_resident (remove_cases lookup).2
  exclusive_private other otherBranch key identity third thirdBranch thirdKey lookup exclusive
    aligned
      resolved lookupThird :=
    sound.exclusive_private
      (remove_cases lookup).2 exclusive aligned resolved (remove_cases lookupThird).2
  exclusive_resolved other otherBranch key lookup exclusive :=
    sound.exclusive_resolved (remove_cases lookup).2 exclusive
  held_backed mapping member := by
    obtain ⟨aligned, known, mappingBranch, identity, live, backed⟩ :=
      sound.held_backed mapping member
    have there := sound.unheld_of_idle found idle mapping member
    exact ⟨aligned, known, mappingBranch, identity,
      by simpa [Lineage.remove, there] using live, backed⟩
  active_count other otherBranch page lookup :=
    sound.active_count other otherBranch page (remove_cases lookup).2

/-- A branch gets a new file with identities of its own. -/
structure NewFile (lineage : Lineage Identity) (issued : Identity → Prop) (node : NodeId)
    (old new : LineageBranch Identity) : Prop where
  absent : old.len node = none
  unresolved : ∀ key, key.1 = node → old.ident key = none
  ident : ∀ key, key.1 ≠ node → new.ident key = old.ident key
  len : ∀ other, other ≠ node → new.len other = old.len other
  byte : ∀ other, other ≠ node → new.byte other = old.byte other
  exclusive : new.exclusive = old.exclusive
  dirty : new.dirty = old.dirty
  active : new.active = old.active
  fresh : ∀ key identity, Aligned key → key.1 = node → new.ident key = some identity →
    ¬ lineage.issued identity ∧ issued identity
  distinct : ∀ key other identity, Aligned key → Aligned other → key.1 = node → other.1 = node →
    new.ident key = some identity → new.ident other = some identity → key = other

open Classical in
noncomputable def newHome (node : NodeId) (branch : LineageBranch Identity) (identity : Identity) :
    Option PageKey :=
  if given : ∃ key, Aligned key ∧ key.1 = node ∧ branch.ident key = some identity then
    some given.choose
  else none

noncomputable def Origin.withFile (origin : Origin Identity) (node : NodeId)
    (branch : LineageBranch Identity) : Origin Identity where
  home identity := (newHome node branch identity).getD (origin.home identity)
  length identity := match newHome node branch identity with
    | some key => branch.len key.1
    | none => origin.length identity
  image identity := match newHome node branch identity with
    | some key => fun index => branch.byte key.1 (key.2 + index)
    | none => origin.image identity

section NewFile

variable {issued : Identity → Prop} {node : NodeId} {old new : LineageBranch Identity}

theorem NewFile.newHome_eq (file : NewFile lineage issued node old new) {key : PageKey}
    {identity : Identity} (aligned : Aligned key) (here : key.1 = node)
    (resolved : new.ident key = some identity) : newHome node new identity = some key := by
  have given : ∃ key, Aligned key ∧ key.1 = node ∧ new.ident key = some identity :=
    ⟨key, aligned, here, resolved⟩
  rw [newHome, dif_pos given]
  obtain ⟨alignedChoice, hereChoice, resolvedChoice⟩ := given.choose_spec
  exact congrArg some
    (file.distinct _ key identity alignedChoice aligned hereChoice here resolvedChoice resolved)

theorem NewFile.newHome_none (file : NewFile lineage issued node old new) {identity : Identity}
    (given : lineage.issued identity) : newHome node new identity = none := by
  rw [newHome, dif_neg]
  rintro ⟨key, aligned, here, resolved⟩
  exact (file.fresh key identity aligned here resolved).1 given

theorem SoundFrom.newFile {id : CacheBranchId} (sound : SoundFrom origin held lineage)
    (found : lineage.branches id = some old) (file : NewFile lineage issued node old new)
    (ledger : ∀ identity, lineage.issued identity → issued identity) :
    SoundFrom (origin.withFile node new) held { lineage.setBranch id new with issued } := by
  -- a resolved page is one of the new file, or was resolved to the same identity before
  have cases : ∀ other branch key identity, (lineage.setBranch id new).branches other =
    some branch →
      Aligned key → branch.ident key = some identity →
      (other = id ∧ branch = new ∧ key.1 = node) ∨
      (lineage.issued identity ∧ ∃ before, lineage.branches other = some before ∧
        before.ident key = some identity ∧ branch.len key.1 = before.len key.1 ∧
        branch.byte key.1 = before.byte key.1 ∧ branch.dirty = before.dirty ∧
        branch.exclusive = before.exclusive) := by
    intro other branch key identity lookup aligned resolved
    rcases setBranch_cases lookup with ⟨rfl, rfl⟩ | ⟨-, foundThere⟩
    · by_cases here : key.1 = node
      · exact .inl ⟨rfl, rfl, here⟩
      · rw [file.ident key here] at resolved
        exact .inr ⟨sound.ident_issued found aligned resolved, old, found,
          resolved, file.len key.1 here, file.byte key.1 here, file.dirty, file.exclusive⟩
    · exact .inr ⟨sound.ident_issued foundThere aligned resolved, branch,
        foundThere, resolved, rfl, rfl, rfl, rfl⟩
  have freshUnresident : ∀ key identity, Aligned key → key.1 = node →
      new.ident key = some identity → lineage.pages identity = none := by
    intro key identity aligned here resolved
    cases resident : lineage.pages identity with
    | none => rfl
    | some page =>
      exact absurd (sound.page_issued resident)
        (file.fresh key identity aligned here resolved).1
  refine ⟨?_, sound.page_lt, sound.page_unique, ?_, ?_, ?_, ?_, ?_, ?_, ?_, ?_, ?_⟩
  · intro other branch lookup
    rcases setBranch_cases lookup with ⟨rfl, -⟩ | ⟨-, foundThere⟩
    · exact sound.branch_lt found
    · exact sound.branch_lt foundThere
  · intro identity page resident
    exact ledger identity (sound.page_issued resident)
  · intro other branch key identity lookup aligned resolved
    rcases cases other branch key identity lookup aligned resolved with
      ⟨rfl, rfl, here⟩ | ⟨given, -⟩
    · exact (file.fresh key identity aligned here resolved).2
    · exact ledger identity given
  · intro other branch key identity lookup aligned resolved
    rcases cases other branch key identity lookup aligned resolved with
      ⟨rfl, rfl, here⟩ | ⟨given, before, foundBefore, resolvedBefore, len, byte, -⟩
    · have home := file.newHome_eq aligned here resolved
      simp only [Origin.withFile, home, Option.getD_some, true_and]
      intro _ length index _ _ _
      rfl
    · have home := file.newHome_none given
      have origins := sound.ident_origin foundBefore aligned resolvedBefore
      simpa [Origin.withFile, home, LineageBranch.Agrees, len, byte, setBranch] using origins
  · intro other branch key identity page lookup aligned resolved resident undirty unwritten
    rcases cases other branch key identity lookup aligned resolved with
      ⟨rfl, rfl, here⟩ | ⟨-, before, foundBefore, resolvedBefore, len, byte, dirty, -⟩
    · cases (freshUnresident key identity aligned here resolved).symm.trans resident
    · have agrees := sound.clean foundBefore aligned resolvedBefore
        resident (by rwa [← dirty]) unwritten
      simpa [LineageBranch.Agrees, len, byte, setBranch] using agrees
  · intro other branch key lookup marked
    rcases setBranch_cases lookup with ⟨rfl, rfl⟩ | ⟨-, foundThere⟩
    · rw [file.dirty] at marked
      obtain ⟨aligned, known, identity, page, resolved, resident⟩ :=
        sound.dirty_resident found marked
      have there : key.1 ≠ node := by
        intro here
        rw [file.unresolved key here] at resolved
        cases resolved
      exact ⟨aligned, known, identity, page, by rwa [file.ident key there], resident⟩
    · exact sound.dirty_resident foundThere marked
  · intro other branch key identity third thirdBranch thirdKey lookup exclusive aligned resolved
      lookupThird alignedThird resolvedThird
    rcases cases other branch key identity lookup aligned resolved with
      ⟨rfl, rfl, here⟩ | ⟨given, before, foundBefore, resolvedBefore, -, -, -, exclusives⟩
    · rcases cases third thirdBranch thirdKey identity lookupThird alignedThird resolvedThird with
        ⟨rfl, -⟩ | ⟨given, -⟩
      · rfl
      · exact absurd given (file.fresh key identity aligned here resolved).1
    · rcases cases third thirdBranch thirdKey identity lookupThird alignedThird resolvedThird with
        ⟨-, rfl, here⟩ | ⟨-, beforeThird, foundThird, resolvedBeforeThird, -⟩
      · exact absurd given (file.fresh thirdKey identity alignedThird here resolvedThird).1
      · exact sound.exclusive_private foundBefore
          (by rwa [← exclusives]) aligned resolvedBefore foundThird alignedThird resolvedBeforeThird
  · intro other branch key lookup exclusive
    rcases setBranch_cases lookup with ⟨rfl, rfl⟩ | ⟨-, foundThere⟩
    · rw [file.exclusive] at exclusive
      obtain ⟨aligned, identity, resolved⟩ := sound.exclusive_resolved found exclusive
      have there : key.1 ≠ node := by
        intro here
        rw [file.unresolved key here] at resolved
        cases resolved
      exact ⟨aligned, identity, by rwa [file.ident key there]⟩
    · exact sound.exclusive_resolved foundThere exclusive
  · intro mapping member
    obtain ⟨aligned, known, mappingBranch, identity, live, resolved, resident, writable⟩ :=
      sound.held_backed mapping member
    by_cases here : mapping.branch = id
    · obtain rfl : old = mappingBranch := by
        rw [here] at live
        exact Option.some.inj (found.symm.trans live)
      have there : mapping.key.1 ≠ node := by
        intro same
        rw [file.unresolved mapping.key same] at resolved
        cases resolved
      exact ⟨aligned, known, new, identity, by simp [setBranch, here], by rwa [file.ident _ there],
        resident, by rwa [file.exclusive]⟩
    · exact ⟨aligned, known, mappingBranch, identity, by simpa [setBranch, here] using live,
        resolved, resident, writable⟩
  · intro other branch page lookup
    rcases setBranch_cases lookup with ⟨rfl, rfl⟩ | ⟨-, foundThere⟩
    · rw [file.active]
      exact sound.active_count other old page found
    · exact sound.active_count other branch page foundThere

theorem byteAt_newFile (file : NewFile lineage issued node old new) {other : NodeId}
    (there : other ≠ node) (id : CacheBranchId) (position : Nat) :
    ({ lineage.setBranch id new with issued } : Lineage Identity).byteAt new other position =
      lineage.byteAt old other position := by
  simp [byteAt, file.ident (other, pageOf position) there, file.byte other there, setBranch]

theorem SoundFrom.byteAt_created {id : CacheBranchId} (sound : SoundFrom origin held lineage)
    (file : NewFile lineage issued node old new) (position : Nat) :
    ({ lineage.setBranch id new with issued } : Lineage Identity).byteAt new node position =
      new.byte node position := by
  simp only [byteAt, setBranch]
  cases resolved : new.ident (node, pageOf position) with
  | none => rfl
  | some identity =>
    cases resident : lineage.pages identity with
    | none => simp [resident]
    | some page =>
      exact absurd (sound.page_issued resident)
        (file.fresh _ identity (aligned_pageOf node position) rfl resolved).1

end NewFile

end Minidox.Cache.Lineage
