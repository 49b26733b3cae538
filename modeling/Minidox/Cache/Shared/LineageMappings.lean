import Minidox.Cache.Shared.LineagePages

/-!
# Mappings and bytes

What clients do with mappings, and what a sync does with a store.
-/

set_option autoImplicit false

namespace Minidox.Cache.Lineage

open Foundation

variable {Identity : Type} {origin : Origin Identity} {held : List DaxPageMapping}
  {lineage : Lineage Identity}

/-!
## Holding and releasing
-/

theorem sameView_know (lineage : Lineage Identity) (known : PageKey → Prop) :
    SameView lineage { lineage with known } :=
  ⟨rfl, fun _ => rfl, (sameView_refl lineage).sees⟩

/-- A branch changes only in what it counts and marks, or gives up exclusive pages. -/
structure SameStore (old new : LineageBranch Identity) : Prop where
  ident : new.ident = old.ident
  len : new.len = old.len
  byte : new.byte = old.byte
  exclusive : ∀ key, new.exclusive key → old.exclusive key

/-- Also the bytes of its store change, but not those that a load would find. -/
structure Rewrites (lineage : Lineage Identity) (old new : LineageBranch Identity) : Prop where
  ident : new.ident = old.ident
  len : new.len = old.len
  exclusive : ∀ key, new.exclusive key → old.exclusive key
  cold : ∀ key identity bytes, Aligned key → old.ident key = some identity →
    lineage.pages identity = none → old.Agrees key bytes → new.Agrees key bytes

variable {id : CacheBranchId} {branch next : LineageBranch Identity}

theorem SameStore.agrees (same : SameStore branch next) {key : PageKey} {bytes : ByteMap} :
    next.Agrees key bytes ↔ branch.Agrees key bytes := by
  simp only [LineageBranch.Agrees, same.len, same.byte]

theorem SameStore.rewrites (same : SameStore branch next) : Rewrites lineage branch next :=
  ⟨same.ident, same.len, same.exclusive, fun _ _ _ _ _ _ => same.agrees.mpr⟩

theorem sameView_rewrite (found : lineage.branches id = some branch) (len : next.len = branch.len)
    (bytes : ∀ node position, (lineage.setBranch id next).byteAt next node position =
      lineage.byteAt branch node position) :
    SameView lineage (lineage.setBranch id next) := by
  refine ⟨rfl, ?_, ?_⟩
  · intro other
    by_cases here : other = id
    · simp [setBranch, here, found]
    · simp [setBranch, here]
  · intro other old new before after
    rcases setBranch_cases after with ⟨rfl, rfl⟩ | ⟨-, foundThere⟩
    · obtain rfl : old = branch := Option.some.inj (before.symm.trans found)
      exact ⟨len, fun node _ position _ _ => bytes node position⟩
    · obtain rfl : old = new := Option.some.inj (before.symm.trans foundThere)
      exact ⟨rfl, fun _ _ _ _ _ => rfl⟩

theorem sameView_setBranch (found : lineage.branches id = some branch)
    (same : SameStore branch next) : SameView lineage (lineage.setBranch id next) :=
  sameView_rewrite found same.len fun node position => by
    simp [byteAt, same.ident, same.byte, setBranch]

theorem not_inPage_of_ne {key other : PageKey} (aligned : Aligned key)
    (alignedOther : Aligned other)
    (different : other ≠ key) {index : Nat} (inPage : index < pageSize) :
    ¬ (other.1 = key.1 ∧ key.2 ≤ other.2 + index ∧ other.2 + index < key.2 + pageSize) := by
  rintro ⟨sameNode, lower, upper⟩
  refine different (Prod.ext sameNode ?_)
  unfold Aligned pageSize at *
  omega

theorem pageOf_eq_key {key : PageKey} (aligned : Aligned key) {node position : Nat} :
    (node, pageOf position) = key ↔
      node = key.1 ∧ key.2 ≤ position ∧ position < key.2 + pageSize := by
  constructor
  · rintro rfl
    exact ⟨rfl, pageOf_le position, lt_pageOf_add position⟩
  · rintro ⟨rfl, lower, upper⟩
    exact Prod.ext rfl (pageOf_eq_of_mem aligned lower upper)

section Sound

variable (sound : SoundFrom origin held lineage)

include sound

theorem SoundFrom.know (key : PageKey) :
    SoundFrom origin held
      { lineage with known := fun other => other = key ∨ lineage.known other } where
  branch_lt := sound.branch_lt
  page_lt := sound.page_lt
  page_unique := sound.page_unique
  page_issued := sound.page_issued
  ident_issued := sound.ident_issued
  ident_origin := sound.ident_origin
  clean := sound.clean
  dirty_resident id branch other found dirty := by
    obtain ⟨aligned, known, resident⟩ := sound.dirty_resident found dirty
    exact ⟨aligned, .inr known, resident⟩
  exclusive_private := sound.exclusive_private
  exclusive_resolved := sound.exclusive_resolved
  held_backed mapping member := by
    obtain ⟨aligned, known, backed⟩ := sound.held_backed mapping member
    exact ⟨aligned, .inr known, backed⟩
  active_count := sound.active_count

/-- Counting, marking and writing keeps the invariant when the counts are those of the new
mappings, every new mark is of a resident known page, and a page without a mark and
without a writable mapping holds what the store holds. -/
theorem SoundFrom.recount {others : List DaxPageMapping} (found : lineage.branches id = some branch)
    (rewrites : Rewrites lineage branch next) (backed : ∀ mapping ∈ others, lineage.Backed mapping)
    (exclusives : ∀ mapping ∈ others, mapping.branch = id → branch.exclusive mapping.key →
      next.exclusive mapping.key) (counts : ∀ page, next.active page =
      if holders others id page = 0 then none else some (holders others id page))
    (countsOther : ∀ other page, other ≠ id → holders others other page = holders held other page)
    (writers : ∀ mapping ∈ held, mapping.branch ≠ id → mapping ∈ others)
    (dirty : ∀ key, next.dirty key → branch.dirty key ∨ Aligned key ∧ lineage.known key ∧
      ∃ identity page, branch.ident key = some identity ∧ lineage.pages identity = some page)
    (clean : ∀ key identity page, Aligned key → branch.ident key = some identity →
      lineage.pages identity = some page → ¬ next.dirty key →
      (∀ mapping ∈ others, mapping.branch = id → mapping.key = key → ¬ mapping.flags.write) →
      next.Agrees key (lineage.contents page)) :
    SoundFrom origin others (lineage.setBranch id next) := by
  have old : ∀ other otherBranch, (lineage.setBranch id next).branches other = some otherBranch →
      ∃ before, lineage.branches other = some before ∧ Rewrites lineage before otherBranch := by
    intro other otherBranch lookup
    rcases setBranch_cases lookup with ⟨rfl, rfl⟩ | ⟨-, foundThere⟩
    · exact ⟨branch, found, rewrites⟩
    · exact ⟨otherBranch, foundThere, rfl, rfl, fun _ exclusive => exclusive,
        fun _ _ _ _ _ _ agrees => agrees⟩
  refine ⟨?_, sound.page_lt, sound.page_unique, sound.page_issued, ?_, ?_, ?_, ?_, ?_, ?_, ?_, ?_⟩
  · intro other otherBranch lookup
    obtain ⟨before, foundBefore, -⟩ := old other otherBranch lookup
    exact sound.branch_lt foundBefore
  · intro other otherBranch key identity lookup aligned resolved
    obtain ⟨before, foundBefore, rewritten⟩ := old other otherBranch lookup
    exact sound.ident_issued foundBefore aligned
      (by rwa [← rewritten.ident])
  · intro other otherBranch key identity lookup aligned resolved
    obtain ⟨before, foundBefore, rewritten⟩ := old other otherBranch lookup
    rw [rewritten.ident] at resolved
    obtain ⟨home, length, image⟩ :=
      sound.ident_origin foundBefore aligned resolved
    exact ⟨home, by rw [rewritten.len, length], fun absent =>
      rewritten.cold key identity _ aligned resolved absent (image absent)⟩
  · intro other otherBranch key identity page lookup aligned resolved resident undirty unwritten
    rcases setBranch_cases lookup with ⟨rfl, rfl⟩ | ⟨there, foundThere⟩
    · exact clean key identity page aligned (by rwa [← rewrites.ident]) resident undirty unwritten
    · refine sound.clean foundThere aligned resolved resident
        undirty ?_
      intro mapping member here
      exact unwritten mapping (writers mapping member (by rw [here]; exact there)) here
  · intro other otherBranch key lookup marked
    rcases setBranch_cases lookup with ⟨rfl, rfl⟩ | ⟨-, foundThere⟩
    · rcases dirty key marked with before | ⟨aligned, known, identity, page, resolved, resident⟩
      · rw [rewrites.ident]
        exact sound.dirty_resident found before
      · exact ⟨aligned, known, identity, page, by rwa [rewrites.ident], resident⟩
    · exact sound.dirty_resident foundThere marked
  · intro other otherBranch key identity third thirdBranch thirdKey lookup exclusive aligned
      resolved
      lookupThird alignedThird resolvedThird
    obtain ⟨before, foundBefore, rewritten⟩ := old other otherBranch lookup
    obtain ⟨beforeThird, foundThird, rewrittenThird⟩ := old third thirdBranch lookupThird
    exact sound.exclusive_private foundBefore
      (rewritten.exclusive key exclusive) aligned (by rwa [← rewritten.ident]) foundThird
        alignedThird
      (by rwa [← rewrittenThird.ident])
  · intro other otherBranch key lookup exclusive
    obtain ⟨before, foundBefore, rewritten⟩ := old other otherBranch lookup
    rw [rewritten.ident]
    exact sound.exclusive_resolved foundBefore (rewritten.exclusive key exclusive)
  · intro mapping member
    obtain ⟨aligned, known, mappingBranch, identity, live, resolved, resident, writable⟩ :=
      backed mapping member
    by_cases here : mapping.branch = id
    · obtain rfl : branch = mappingBranch := by
        rw [here] at live
        exact Option.some.inj (found.symm.trans live)
      exact ⟨aligned, known, next, identity, by simp [setBranch, here], by rwa [rewrites.ident],
        resident, fun write => exclusives mapping member here (writable write)⟩
    · exact ⟨aligned, known, mappingBranch, identity, by simpa [setBranch, here] using live,
        resolved, resident, writable⟩
  · intro other otherBranch page lookup
    rcases setBranch_cases lookup with ⟨rfl, rfl⟩ | ⟨there, foundThere⟩
    · exact counts page
    · rw [countsOther other page there]
      exact sound.active_count other otherBranch page foundThere

theorem SoundFrom.unheld_of_idle (found : lineage.branches id = some branch)
    (idle : ∀ page, branch.active page = none) :
    ∀ mapping ∈ held, mapping.branch ≠ id := by
  rintro mapping member rfl
  have counted := sound.active_count mapping.branch branch mapping.page found
  rw [idle] at counted
  split at counted
  next none => exact holders_eq_zero.mp none mapping member rfl rfl
  next => cases counted

theorem SoundFrom.hold {mapping : DaxPageMapping}
    (found : lineage.branches mapping.branch = some branch) (backed : lineage.Backed mapping)
    (same : SameStore branch next) (exclusive : next.exclusive = branch.exclusive)
    (dirty : next.dirty = branch.dirty) (active : ∀ page, next.active page =
      if page = mapping.page then some ((branch.active page).getD 0 + 1) else branch.active page) :
    SoundFrom origin (mapping :: held) (lineage.setBranch mapping.branch next) := by
  refine sound.recount found same.rewrites ?_ (fun _ _ _ kept => by rwa [exclusive]) ?_ ?_ ?_ ?_ ?_
  · intro other member
    rcases List.mem_cons.mp member with rfl | before
    · exact backed
    · exact sound.held_backed other before
  · intro page
    rw [active page, sound.active_count mapping.branch branch page found, holders_cons]
    by_cases here : page = mapping.page
    · subst here
      by_cases none : holders held mapping.branch mapping.page = 0
      · simp [none]
      · simp [none]
    · simp [here, Ne.symm here]
  · intro other page different
    simp [holders_cons, Ne.symm different]
  · intro other member _
    exact List.mem_cons_of_mem _ member
  · intro key marked
    exact .inl (by rwa [← dirty])
  · intro key identity page aligned resolved resident undirty unwritten
    refine same.agrees.mpr (sound.clean found aligned
      resolved resident (by rwa [← dirty]) ?_)
    intro other member
    exact unwritten other (List.mem_cons_of_mem _ member)

theorem SoundFrom.release {mapping : DaxPageMapping} (member : mapping ∈ held)
    (found : lineage.branches mapping.branch = some branch) (same : SameStore branch next)
    (exclusive : next.exclusive = branch.exclusive) (dirty : ∀ key, next.dirty key ↔
      (mapping.flags.write ∧ key = mapping.key) ∨ branch.dirty key)
    (active : ∀ page, next.active page = if page = mapping.page then
      (if holders held mapping.branch page = 1 then none
        else some (holders held mapping.branch page - 1)) else branch.active page) :
    SoundFrom origin (held.erase mapping) (lineage.setBranch mapping.branch next) := by
  obtain ⟨alignedKey, knownKey, mappingBranch, mappingIdentity, live, resolvedKey,
      residentKey, -⟩ :=
    sound.held_backed mapping member
  obtain rfl : branch = mappingBranch := Option.some.inj (found.symm.trans live)
  refine sound.recount found same.rewrites ?_ (fun _ _ _ kept => by rwa [exclusive]) ?_ ?_ ?_ ?_ ?_
  · intro other kept
    exact sound.held_backed other (List.mem_of_mem_erase kept)
  · intro page
    have split := holders_erase member mapping.branch page
    rw [active page]
    by_cases here : page = mapping.page
    · subst here
      simp only [and_self, ↓reduceIte] at split ⊢
      rw [split]
      simp
    · rw [if_neg here, sound.active_count mapping.branch branch page found]
      simp only [Ne.symm here, and_false, ↓reduceIte, Nat.add_zero] at split
      rw [split]
  · intro other page different
    have split := holders_erase member other page
    simp only [Ne.symm different, false_and, ↓reduceIte, Nat.add_zero] at split
    exact split.symm
  · intro other kept different
    refine (List.mem_erase_of_ne ?_).mpr kept
    rintro rfl
    exact different rfl
  · intro key marked
    rcases (dirty key).mp marked with ⟨-, rfl⟩ | before
    · exact .inr ⟨alignedKey, knownKey, mappingIdentity, mapping.page, resolvedKey, residentKey⟩
    · exact .inl before
  · intro key identity page aligned resolved resident undirty unwritten
    rw [dirty] at undirty
    refine same.agrees.mpr (sound.clean found aligned
      resolved resident (fun marked => undirty (.inr marked)) ?_)
    intro other kept here atKey writable
    by_cases same : other = mapping
    · subst same
      exact undirty (.inl ⟨writable, atKey.symm⟩)
    · exact unwritten other ((List.mem_erase_of_ne same).mpr kept) here atKey writable

theorem SoundFrom.unclaim (found : lineage.branches id = some branch)
    (idle : ∀ page, branch.active page = none) (same : SameStore branch next)
    (active : next.active = branch.active) (dirty : ∀ key, next.dirty key ↔ branch.dirty key) :
    SoundFrom origin held (lineage.setBranch id next) := by
  refine sound.recount found same.rewrites sound.held_backed ?_ ?_ (fun _ _ _ => rfl)
    (fun _ member _ => member) (fun key marked => .inl ((dirty key).mp marked)) ?_
  · rintro mapping member rfl
    exact absurd rfl (sound.unheld_of_idle found idle mapping member)
  · intro page
    rw [active]
    exact sound.active_count id branch page found
  · intro key identity page aligned resolved resident undirty unwritten
    exact same.agrees.mpr (sound.clean found aligned resolved resident
      (fun marked => undirty ((dirty key).mpr marked)) unwritten)

/-!
## Bytes
-/

def setPage (lineage : Lineage Identity) (page : Nat) (bytes : ByteMap) : Lineage Identity :=
  { lineage with contents := Function.update lineage.contents page bytes }

section SetPage

variable {mapping : DaxPageMapping} (member : mapping ∈ held) (writable : mapping.flags.write)

include member writable

theorem SoundFrom.writable_private {key : PageKey} {identity : Identity}
    (found : lineage.branches id = some branch) (aligned : Aligned key)
    (resolved : branch.ident key = some identity)
    (resident : lineage.pages identity = some mapping.page) :
    id = mapping.branch ∧ key = mapping.key := by
  obtain ⟨alignedKey, -, mappingBranch, mappingIdentity, live, resolvedKey, residentKey,
      exclusive⟩ :=
    sound.held_backed mapping member
  obtain rfl := sound.page_unique resident residentKey
  refine ⟨sound.exclusive_private
    live (exclusive writable) alignedKey resolvedKey found aligned resolved, ?_⟩
  obtain ⟨home, -⟩ := sound.ident_origin found aligned resolved
  obtain ⟨homeKey, -⟩ :=
    sound.ident_origin live alignedKey resolvedKey
  exact home.symm.trans homeKey

theorem SoundFrom.setPage (bytes : ByteMap) :
    SoundFrom origin held (lineage.setPage mapping.page bytes) where
  branch_lt := sound.branch_lt
  page_lt := sound.page_lt
  page_unique := sound.page_unique
  page_issued := sound.page_issued
  ident_issued := sound.ident_issued
  ident_origin := sound.ident_origin
  clean id branch key identity page found aligned resolved resident undirty unwritten := by
    by_cases same : page = mapping.page
    · subst same
      obtain ⟨rfl, rfl⟩ := sound.writable_private member writable found aligned resolved resident
      exact absurd writable (unwritten mapping member rfl rfl)
    · have agrees := sound.clean found aligned resolved resident undirty
        unwritten
      simpa [Lineage.setPage, same] using agrees
  dirty_resident := sound.dirty_resident
  exclusive_private := sound.exclusive_private
  exclusive_resolved := sound.exclusive_resolved
  held_backed := sound.held_backed
  active_count := sound.active_count

theorem SoundFrom.byteAt_setPage (bytes : ByteMap) (found : lineage.branches id = some branch)
    (node position : Nat) :
    (lineage.setPage mapping.page bytes).byteAt branch node position =
      if id = mapping.branch ∧ (node, pageOf position) = mapping.key then
        bytes (position - pageOf position)
      else lineage.byteAt branch node position := by
  obtain ⟨-, -, mappingBranch, mappingIdentity, live, resolvedKey, residentKey, -⟩ :=
    sound.held_backed mapping member
  by_cases here : id = mapping.branch ∧ (node, pageOf position) = mapping.key
  · obtain ⟨rfl, atKey⟩ := here
    obtain rfl : branch = mappingBranch := Option.some.inj (found.symm.trans live)
    simp [byteAt, atKey, resolvedKey, residentKey, Lineage.setPage]
  · rw [if_neg here]
    simp only [byteAt]
    cases resolved : branch.ident (node, pageOf position) with
    | none => rfl
    | some identity =>
      cases resident : lineage.pages identity with
      | none => simp [Lineage.setPage, resident]
      | some page =>
        have different : page ≠ mapping.page := by
          rintro rfl
          exact here (sound.writable_private member writable found (aligned_pageOf node position)
            resolved resident)
        simp [Lineage.setPage, resident, different]

end SetPage

end Sound

section WriteBack

variable {id : CacheBranchId} {branch : LineageBranch Identity} {key : PageKey}
  {byte : NodeId → ByteMap}

def InPage (key : PageKey) (old new : NodeId → ByteMap) : Prop :=
  ∀ node position, ¬ (node = key.1 ∧ key.2 ≤ position ∧ position < key.2 + pageSize) →
    new node position = old node position

theorem agrees_inPage {other : PageKey} (aligned : Aligned key) (alignedOther : Aligned other)
    (different : other ≠ key) (inPage : InPage key branch.byte byte) {bytes : ByteMap} :
    LineageBranch.Agrees { branch with byte } other bytes ↔ branch.Agrees other bytes := by
  constructor
  · intro agrees length index known inside below
    rw [agrees length index known inside below]
    exact inPage other.1 _ (not_inPage_of_ne aligned alignedOther different inside)
  · intro agrees length index known inside below
    rw [agrees length index known inside below]
    exact (inPage other.1 _ (not_inPage_of_ne aligned alignedOther different inside)).symm

variable (sound : SoundFrom origin held lineage) (found : lineage.branches id = some branch)

include sound found

theorem SoundFrom.writeBack (dirty : branch.dirty key) (inPage : InPage key branch.byte byte) :
    SoundFrom origin held (lineage.setBranch id { branch with byte }) := by
  obtain ⟨aligned, -, keyIdentity, keyPage, resolvedKey, residentKey⟩ :=
    sound.dirty_resident found dirty
  refine sound.recount found ⟨rfl, rfl, fun _ exclusive => exclusive, ?_⟩ sound.held_backed
    (fun _ _ _ kept => kept) (fun page => sound.active_count id branch page found)
    (fun _ _ _ => rfl)
    (fun _ member _ => member) (fun _ marked => .inl marked) ?_
  · intro other identity bytes alignedOther resolved absent agrees
    refine (agrees_inPage aligned alignedOther ?_ inPage).mpr agrees
    rintro rfl
    obtain rfl : keyIdentity = identity := Option.some.inj (resolvedKey.symm.trans resolved)
    cases residentKey.symm.trans absent
  · intro other identity page alignedOther resolved resident undirty unwritten
    have different : other ≠ key := by
      rintro rfl
      exact undirty dirty
    exact (agrees_inPage aligned alignedOther different inPage).mpr
      (sound.clean found alignedOther resolved resident undirty
        unwritten)

theorem SoundFrom.sameView_writeBack (dirty : branch.dirty key)
    (inPage : InPage key branch.byte byte) :
    SameView lineage (lineage.setBranch id { branch with byte }) := by
  obtain ⟨aligned, -, keyIdentity, keyPage, resolvedKey, residentKey⟩ :=
    sound.dirty_resident found dirty
  refine sameView_rewrite found rfl fun node position => ?_
  by_cases here : (node, pageOf position) = key
  · simp [byteAt, here, resolvedKey, residentKey, setBranch]
  · have outside := inPage node position fun inside => here ((pageOf_eq_key aligned).mpr inside)
    simp only [byteAt, setBranch, outside]

theorem SoundFrom.markClean (same : SameStore branch next)
    (exclusive : next.exclusive = branch.exclusive) (active : next.active = branch.active)
    (dirty : ∀ other, next.dirty other ↔ key ≠ other ∧ branch.dirty other)
    (agrees : ∀ identity page, branch.ident key = some identity →
      lineage.pages identity = some page → branch.Agrees key (lineage.contents page)) :
    SoundFrom origin held (lineage.setBranch id next) := by
  refine sound.recount found same.rewrites sound.held_backed
    (fun _ _ _ kept => by rwa [exclusive]) ?_
    (fun _ _ _ => rfl) (fun _ member _ => member)
    (fun other marked => .inl ((dirty other).mp marked).2) ?_
  · intro page
    rw [active]
    exact sound.active_count id branch page found
  · intro other identity page aligned resolved resident undirty unwritten
    by_cases here : key = other
    · subst here
      exact same.agrees.mpr (agrees identity page resolved resident)
    · refine same.agrees.mpr
        (sound.clean found aligned resolved resident ?_ unwritten)
      intro marked
      exact undirty ((dirty other).mpr ⟨here, marked⟩)

end WriteBack

end Minidox.Cache.Lineage
