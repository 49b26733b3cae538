import Minidox.Cache.Shared.Lineage

/-!
# Residency

The changes that the operations of a shared cache are made of keep the invariant,
and say what the branches see afterwards. Here: which identities are resident.
-/

set_option autoImplicit false

namespace Minidox.Cache.Lineage

open Foundation

variable {Identity : Type} {origin : Origin Identity} {held : List DaxPageMapping}
  {lineage : Lineage Identity}

/-!
## Unobservable growth
-/

structure Grows (before after : Lineage Identity) : Prop where
  nextBranch : after.nextBranch = before.nextBranch
  branches : after.branches = before.branches
  pages : after.pages = before.pages
  known : after.known = before.known
  contents : ∀ page < before.nextPageId, after.contents page = before.contents page
  nextPageId : before.nextPageId ≤ after.nextPageId
  issued : ∀ identity, before.issued identity → after.issued identity

theorem grows_refl (lineage : Lineage Identity) : Grows lineage lineage :=
  ⟨rfl, rfl, rfl, rfl, fun _ _ => rfl, le_refl _, fun _ given => given⟩

theorem Grows.trans {first second third : Lineage Identity} (before : Grows first second)
    (after : Grows second third) : Grows first third where
  nextBranch := after.nextBranch.trans before.nextBranch
  branches := after.branches.trans before.branches
  pages := after.pages.trans before.pages
  known := after.known.trans before.known
  contents page inside := (after.contents page (lt_of_lt_of_le inside before.nextPageId)).trans
    (before.contents page inside)
  nextPageId := le_trans before.nextPageId after.nextPageId
  issued identity given := after.issued identity (before.issued identity given)

theorem SoundFrom.grow {after : Lineage Identity} (sound : SoundFrom origin held lineage)
    (grows : Grows lineage after) : SoundFrom origin held after where
  branch_lt id branch found := by
    rw [grows.branches] at found
    rw [grows.nextBranch]
    exact sound.branch_lt found
  page_lt identity page found := by
    rw [grows.pages] at found
    exact lt_of_lt_of_le (sound.page_lt found) grows.nextPageId
  page_unique left right page foundLeft foundRight := by
    rw [grows.pages] at foundLeft foundRight
    exact sound.page_unique foundLeft foundRight
  page_issued identity page found := by
    rw [grows.pages] at found
    exact grows.issued identity (sound.page_issued found)
  ident_issued id branch key identity found aligned resolved := by
    rw [grows.branches] at found
    exact grows.issued identity (sound.ident_issued found aligned resolved)
  ident_origin id branch key identity found aligned resolved := by
    rw [grows.branches] at found
    rw [grows.pages]
    exact sound.ident_origin found aligned resolved
  clean id branch key identity page found aligned resolved resident undirty unwritten := by
    rw [grows.branches] at found
    rw [grows.pages] at resident
    rw [grows.contents page (sound.page_lt resident)]
    exact sound.clean found aligned resolved resident undirty unwritten
  dirty_resident id branch key found dirty := by
    rw [grows.branches] at found
    rw [grows.pages, grows.known]
    exact sound.dirty_resident found dirty
  exclusive_private id branch key identity other otherBranch otherKey found exclusive aligned
      resolved foundOther alignedOther resolvedOther := by
    rw [grows.branches] at found foundOther
    exact sound.exclusive_private found exclusive
      aligned resolved foundOther alignedOther resolvedOther
  exclusive_resolved id branch key found exclusive := by
    rw [grows.branches] at found
    exact sound.exclusive_resolved found exclusive
  held_backed mapping member := by
    rw [Backed, grows.known, grows.branches, grows.pages]
    exact sound.held_backed mapping member
  active_count id branch page found := by
    rw [grows.branches] at found
    exact sound.active_count id branch page found

theorem SoundFrom.sameView_grow {after : Lineage Identity} (sound : SoundFrom origin held lineage)
    (grows : Grows lineage after) : SameView lineage after := by
  refine ⟨grows.nextBranch, fun id => by rw [grows.branches], ?_⟩
  intro id old new before later
  rw [grows.branches] at later
  obtain rfl : old = new := Option.some.inj (before.symm.trans later)
  refine ⟨rfl, ?_⟩
  intro node length position known below
  simp only [byteAt, grows.pages]
  cases resident : (old.ident (node, pageOf position)).bind lineage.pages with
  | none => rfl
  | some page =>
    obtain ⟨identity, -, cached⟩ := Option.bind_eq_some_iff.mp resident
    simp only [grows.contents page (sound.page_lt cached)]

/-!
## Residency
-/

theorem aligned_pageOf (node : NodeId) (position : Nat) : Aligned (node, pageOf position) :=
  pageOf_mod position

variable {identity : Identity} {id : CacheBranchId} {branch : LineageBranch Identity}

/-- Two branches that resolve a page to one identity that is not resident would
load the same bytes. -/
theorem SoundFrom.cold {other : CacheBranchId} {otherBranch : LineageBranch Identity}
    {key otherKey : PageKey} (sound : SoundFrom origin held lineage)
    (absent : lineage.pages identity = none) (found : lineage.branches id = some branch)
    (aligned : Aligned key) (resolved : branch.ident key = some identity)
    (foundOther : lineage.branches other = some otherBranch) (alignedOther : Aligned otherKey)
    (resolvedOther : otherBranch.ident otherKey = some identity) {bytes : ByteMap}
    (agrees : branch.Agrees key bytes) : otherKey = key ∧ otherBranch.Agrees key bytes := by
  obtain ⟨home, sameLen, image⟩ := sound.ident_origin found aligned resolved
  obtain ⟨homeOther, sameLenOther, imageOther⟩ :=
    sound.ident_origin foundOther alignedOther resolvedOther
  obtain rfl : otherKey = key := homeOther.symm.trans home
  refine ⟨rfl, ?_⟩
  intro length index known inPage below
  have knownHere : branch.len otherKey.1 = some length := by
    rw [sameLen, ← sameLenOther, known]
  rw [agrees length index knownHere inPage below,
    ← image absent length index knownHere inPage below,
    imageOther absent length index known inPage below]

variable [DecidableEq Identity]

def load (lineage : Lineage Identity) (identity : Identity) (bytes : ByteMap) :
    Lineage Identity :=
  { lineage with
    pages := Function.update lineage.pages identity (some lineage.nextPageId)
    contents := Function.update lineage.contents lineage.nextPageId bytes
    nextPageId := lineage.nextPageId + 1 }

theorem load_contents {bytes : ByteMap} {page : Nat} (old : page < lineage.nextPageId) :
    (lineage.load identity bytes).contents page = lineage.contents page :=
  Function.update_of_ne (Nat.ne_of_lt old) _ _

theorem SoundFrom.load {key : PageKey} {bytes : ByteMap} (sound : SoundFrom origin held lineage)
    (found : lineage.branches id = some branch) (aligned : Aligned key)
    (resolved : branch.ident key = some identity) (absent : lineage.pages identity = none)
    (agrees : branch.Agrees key bytes) :
    SoundFrom origin held (lineage.load identity bytes) where
  branch_lt := sound.branch_lt
  page_lt other page resident := by
    simp only [Lineage.load, Function.update_apply] at resident ⊢
    split at resident
    next => cases resident; omega
    next => exact Nat.lt_succ_of_lt (sound.page_lt resident)
  page_unique left right page foundLeft foundRight := by
    simp only [Lineage.load, Function.update_apply] at foundLeft foundRight
    split at foundLeft
    next here =>
      cases foundLeft
      split at foundRight
      next there => rw [here, there]
      next => exact absurd (sound.page_lt foundRight) (lt_irrefl _)
    next =>
      split at foundRight
      next =>
        cases foundRight
        exact absurd (sound.page_lt foundLeft) (lt_irrefl _)
      next => exact sound.page_unique foundLeft foundRight
  page_issued other page resident := by
    simp only [Lineage.load, Function.update_apply] at resident
    split at resident
    next here =>
      rw [here]
      exact sound.ident_issued found aligned resolved
    next => exact sound.page_issued resident
  ident_issued := sound.ident_issued
  ident_origin other otherBranch otherKey otherIdentity foundOther alignedOther resolvedOther := by
    obtain ⟨home, sameLen, image⟩ := sound.ident_origin
      foundOther alignedOther resolvedOther
    refine ⟨home, sameLen, fun missing => image ?_⟩
    simp only [Lineage.load, Function.update_apply] at missing
    split at missing
    next => cases missing
    next => exact missing
  clean other otherBranch otherKey otherIdentity page foundOther alignedOther resolvedOther resident
      undirty unwritten := by
    simp only [Lineage.load, Function.update_apply] at resident
    split at resident
    next here =>
      cases resident
      rw [here] at resolvedOther
      obtain ⟨rfl, agreesOther⟩ := sound.cold absent found aligned resolved foundOther alignedOther
        resolvedOther agrees
      simpa [Lineage.load] using agreesOther
    next =>
      rw [load_contents (sound.page_lt resident)]
      exact sound.clean foundOther alignedOther
        resolvedOther resident undirty unwritten
  dirty_resident other otherBranch otherKey foundOther dirty := by
    obtain ⟨alignedOther, known, otherIdentity, page, resolvedOther, resident⟩ :=
      sound.dirty_resident foundOther dirty
    refine ⟨alignedOther, known, otherIdentity, page, resolvedOther, ?_⟩
    have different : otherIdentity ≠ identity := by
      rintro rfl
      rw [absent] at resident
      cases resident
    simpa [Lineage.load, different] using resident
  exclusive_private := sound.exclusive_private
  exclusive_resolved := sound.exclusive_resolved
  held_backed mapping member := by
    obtain ⟨alignedKey, known, mappingBranch, otherIdentity, live, resolvedOther, resident,
      writable⟩ :=
      sound.held_backed mapping member
    have different : otherIdentity ≠ identity := by
      rintro rfl
      rw [absent] at resident
      cases resident
    exact ⟨alignedKey, known, mappingBranch, otherIdentity, live, resolvedOther,
      by simpa [Lineage.load, different] using resident, writable⟩
  active_count := sound.active_count

theorem SoundFrom.sameView_load {key : PageKey} {bytes : ByteMap}
    (sound : SoundFrom origin held lineage) (found : lineage.branches id = some branch)
    (aligned : Aligned key) (resolved : branch.ident key = some identity)
    (absent : lineage.pages identity = none) (agrees : branch.Agrees key bytes) :
    SameView lineage (lineage.load identity bytes) := by
  refine ⟨rfl, fun _ => rfl, ?_⟩
  intro other old new before after
  obtain rfl : old = new := Option.some.inj (before.symm.trans after)
  refine ⟨rfl, ?_⟩
  intro node length position known below
  have inPage := lt_pageOf_add position
  have start := pageOf_le position
  simp only [byteAt]
  cases resolvedHere : old.ident (node, pageOf position) with
  | none => rfl
  | some otherIdentity =>
    simp only [Option.bind_some]
    by_cases here : otherIdentity = identity
    · subst here
      obtain ⟨rfl, agreesOther⟩ := sound.cold absent found aligned resolved before
        (aligned_pageOf node position) resolvedHere agrees
      have byte := agreesOther length (position - pageOf position) known (by omega)
        (by simpa [Nat.add_sub_cancel' start] using below)
      simpa [Lineage.load, absent, Nat.add_sub_cancel' start] using byte
    · cases resident : lineage.pages otherIdentity with
      | none => simp [Lineage.load, here, resident]
      | some page =>
        have kept : (lineage.load identity bytes).contents page = lineage.contents page :=
          load_contents (sound.page_lt resident)
        simpa [Lineage.load, here, resident] using congrFun kept (position - pageOf position)

omit [DecidableEq Identity] in
theorem setBranch_cases {other : CacheBranchId} {found : LineageBranch Identity}
    (lookup : (lineage.setBranch id branch).branches other = some found) :
    (other = id ∧ found = branch) ∨ (other ≠ id ∧ lineage.branches other = some found) := by
  simp only [setBranch, Function.update_apply] at lookup
  split at lookup
  next here =>
    cases lookup
    exact .inl ⟨here, rfl⟩
  next there => exact .inr ⟨there, lookup⟩

def ownPage (lineage : Lineage Identity) (id : CacheBranchId) (branch : LineageBranch Identity)
    (key : PageKey) (identity : Identity) (page : Nat) : Lineage Identity :=
  { lineage.setBranch id
      { branch with
        ident := Function.update branch.ident key (some identity)
        exclusive := fun other => other = key ∨ branch.exclusive other } with
    pages := Function.update lineage.pages identity (some page)
    issued := fun other => other = identity ∨ lineage.issued other }

@[simp] theorem ownPage_contents (lineage : Lineage Identity) (id : CacheBranchId)
    (branch : LineageBranch Identity) (key : PageKey) (identity : Identity) (page : Nat) :
    (lineage.ownPage id branch key identity page).contents = lineage.contents := rfl

theorem ownPage_cases {other : CacheBranchId} {found : LineageBranch Identity}
    {key otherKey : PageKey} {otherIdentity : Identity} {page : Nat}
    (here : lineage.branches id = some branch)
    (lookup : (lineage.ownPage id branch key identity page).branches other = some found)
    (resolved : found.ident otherKey = some otherIdentity) :
    (other = id ∧ otherKey = key ∧ otherIdentity = identity) ∨
      ∃ old, lineage.branches other = some old ∧ old.ident otherKey = some otherIdentity ∧
        ¬ (other = id ∧ otherKey = key) ∧ found.len = old.len ∧ found.byte = old.byte ∧
        found.dirty = old.dirty ∧ (found.exclusive otherKey → old.exclusive otherKey) := by
  rcases setBranch_cases lookup with ⟨rfl, rfl⟩ | ⟨there, foundThere⟩
  · simp only [Function.update_apply] at resolved
    split at resolved
    next same =>
      cases resolved
      exact .inl ⟨rfl, same, rfl⟩
    next different =>
      exact .inr ⟨branch, here, resolved, fun both => different both.2, rfl, rfl, rfl,
        fun exclusive => exclusive.resolve_left different⟩
  · exact .inr ⟨found, foundThere, resolved, fun both => there both.1, rfl, rfl, rfl,
      fun exclusive => exclusive⟩

section OwnPage

variable {id : CacheBranchId} {branch : LineageBranch Identity} {key : PageKey}
  {identity newIdentity : Identity} {page newPage : Nat}

theorem SoundFrom.ownPage (sound : SoundFrom origin held lineage)
    (found : lineage.branches id = some branch) (aligned : Aligned key)
    (resolved : branch.ident key = some identity) (resident : lineage.pages identity = some page)
    (unheld : holders held id page = 0) (fresh : ¬ lineage.issued newIdentity)
    (allocated : newPage < lineage.nextPageId)
    (unused : ∀ other, lineage.pages other ≠ some newPage)
    (copied : lineage.contents newPage = lineage.contents page) :
    SoundFrom
      { origin with
        home := Function.update origin.home newIdentity key
        length := Function.update origin.length newIdentity (branch.len key.1) }
      held (lineage.ownPage id branch key newIdentity newPage) := by
  -- whatever was resolved before has another identity than the new one
  have issuedNe : ∀ other otherBranch otherKey otherIdentity,
      lineage.branches other = some otherBranch → Aligned otherKey →
      otherBranch.ident otherKey = some otherIdentity → otherIdentity ≠ newIdentity := by
    rintro other otherBranch otherKey otherIdentity foundOther alignedOther resolvedOther rfl
    exact fresh (sound.ident_issued foundOther alignedOther
      resolvedOther)
  have residentNe : ∀ other otherPage, lineage.pages other = some otherPage →
      other ≠ newIdentity := by
    rintro other otherPage foundPage rfl
    exact fresh (sound.page_issued foundPage)
  have keyUnheld : ∀ mapping ∈ held, mapping.branch = id → mapping.key ≠ key := by
    rintro mapping member rfl rfl
    obtain ⟨-, -, mappingBranch, mappingIdentity, live, resolvedKey, backing, -⟩ :=
      sound.held_backed mapping member
    obtain rfl : branch = mappingBranch := Option.some.inj (found.symm.trans live)
    obtain rfl : identity = mappingIdentity := Option.some.inj (resolved.symm.trans resolvedKey)
    obtain rfl : page = mapping.page := Option.some.inj (resident.symm.trans backing)
    exact holders_eq_zero.mp unheld mapping member rfl rfl
  refine ⟨?_, ?_, ?_, ?_, ?_, ?_, ?_, ?_, ?_, ?_, ?_, ?_⟩
  · intro other otherBranch lookup
    rcases setBranch_cases lookup with ⟨rfl, -⟩ | ⟨-, foundOther⟩
    · exact sound.branch_lt found
    · exact sound.branch_lt foundOther
  · intro other otherPage foundPage
    simp only [Lineage.ownPage, Function.update_apply] at foundPage
    split at foundPage
    next =>
      cases foundPage
      exact allocated
    next => exact sound.page_lt foundPage
  · intro left right otherPage foundLeft foundRight
    simp only [Lineage.ownPage, Function.update_apply] at foundLeft foundRight
    split at foundLeft
    next here =>
      cases foundLeft
      split at foundRight
      next there => rw [here, there]
      next => exact absurd foundRight (unused right)
    next =>
      split at foundRight
      next =>
        cases foundRight
        exact absurd foundLeft (unused left)
      next => exact sound.page_unique foundLeft foundRight
  · intro other otherPage foundPage
    simp only [Lineage.ownPage, Function.update_apply] at foundPage
    split at foundPage
    next here => exact .inl here
    next => exact .inr (sound.page_issued foundPage)
  · intro other otherBranch otherKey otherIdentity lookup alignedOther resolvedOther
    rcases ownPage_cases found lookup resolvedOther with
      ⟨-, -, rfl⟩ | ⟨old, foundOld, resolvedOld, -⟩
    · exact .inl rfl
    · exact .inr (sound.ident_issued foundOld alignedOther
        resolvedOld)
  · intro other otherBranch otherKey otherIdentity lookup alignedOther resolvedOther
    rcases ownPage_cases found lookup resolvedOther with
      ⟨rfl, rfl, rfl⟩ | ⟨old, foundOld, resolvedOld, -, sameLen, sameByte, -⟩
    · refine ⟨by simp, ?_, fun missing => by simp [Lineage.ownPage] at missing⟩
      rcases setBranch_cases lookup with ⟨-, rfl⟩ | ⟨there, -⟩
      · simp
      · exact absurd rfl there
    · have different := issuedNe other old otherKey otherIdentity foundOld alignedOther resolvedOld
      obtain ⟨home, length, image⟩ :=
        sound.ident_origin foundOld alignedOther resolvedOld
      refine ⟨by simpa [different] using home, by simpa [different, sameLen] using length, ?_⟩
      intro missing
      simp only [Lineage.ownPage, Function.update_of_ne different] at missing
      simpa [LineageBranch.Agrees, sameLen, sameByte] using image missing
  · intro other otherBranch otherKey otherIdentity otherPage lookup alignedOther resolvedOther
      foundPage undirty unwritten
    rcases ownPage_cases found lookup resolvedOther with
      ⟨rfl, rfl, rfl⟩ | ⟨old, foundOld, resolvedOld, -, sameLen, sameByte, sameDirty, -⟩
    · rcases setBranch_cases lookup with ⟨-, rfl⟩ | ⟨there, -⟩
      · obtain rfl : newPage = otherPage := by simpa [Lineage.ownPage] using foundPage
        have agrees := sound.clean found aligned resolved
          resident undirty fun mapping member here atKey =>
            absurd atKey (keyUnheld mapping member here)
        change branch.Agrees otherKey (lineage.contents newPage)
        rw [copied]
        exact agrees
      · exact absurd rfl there
    · have different := issuedNe other old otherKey otherIdentity foundOld alignedOther resolvedOld
      simp only [Lineage.ownPage, Function.update_of_ne different] at foundPage
      have agrees := sound.clean foundOld alignedOther
        resolvedOld foundPage (by rwa [← sameDirty]) unwritten
      simpa [LineageBranch.Agrees, sameLen, sameByte] using agrees
  · intro other otherBranch otherKey lookup dirty
    rcases setBranch_cases lookup with ⟨rfl, rfl⟩ | ⟨there, foundOther⟩
    · obtain ⟨alignedOther, known, oldIdentity, oldPage, resolvedOld, foundPage⟩ :=
        sound.dirty_resident found dirty
      refine ⟨alignedOther, known, ?_⟩
      by_cases same : otherKey = key
      · exact ⟨newIdentity, newPage, by simp [same], by simp [Lineage.ownPage]⟩
      · exact ⟨oldIdentity, oldPage, by simpa [same] using resolvedOld,
          by simpa [Lineage.ownPage, residentNe _ _ foundPage] using foundPage⟩
    · obtain ⟨alignedOther, known, oldIdentity, oldPage, resolvedOld, foundPage⟩ :=
        sound.dirty_resident foundOther dirty
      exact ⟨alignedOther, known, oldIdentity, oldPage, resolvedOld,
        by simpa [Lineage.ownPage, residentNe _ _ foundPage] using foundPage⟩
  · intro other otherBranch otherKey otherIdentity third thirdBranch thirdKey lookup exclusive
      alignedOther resolvedOther lookupThird alignedThird resolvedThird
    rcases ownPage_cases found lookup resolvedOther with
      ⟨rfl, rfl, rfl⟩ | ⟨old, foundOld, resolvedOld, -, -, -, -, wasExclusive⟩
    · rcases ownPage_cases found lookupThird resolvedThird with
        ⟨rfl, -, -⟩ | ⟨oldThird, foundThird, resolvedOldThird, -⟩
      · rfl
      · exact absurd rfl
          (issuedNe third oldThird thirdKey _ foundThird alignedThird resolvedOldThird)
    · rcases ownPage_cases found lookupThird resolvedThird with
        ⟨-, -, rfl⟩ | ⟨oldThird, foundThird, resolvedOldThird, -⟩
      · exact absurd rfl (issuedNe other old otherKey _ foundOld alignedOther resolvedOld)
      · exact sound.exclusive_private
          foundOld (wasExclusive exclusive) alignedOther resolvedOld foundThird alignedThird
          resolvedOldThird
  · intro other otherBranch otherKey lookup exclusive
    rcases setBranch_cases lookup with ⟨rfl, rfl⟩ | ⟨-, foundOther⟩
    · by_cases same : otherKey = key
      · exact ⟨same ▸ aligned, newIdentity, by simp [same]⟩
      · obtain ⟨alignedOther, oldIdentity, resolvedOld⟩ :=
          sound.exclusive_resolved found (exclusive.resolve_left same)
        exact ⟨alignedOther, oldIdentity, by simpa [same] using resolvedOld⟩
    · exact sound.exclusive_resolved foundOther exclusive
  · intro mapping member
    obtain ⟨alignedKey, known, mappingBranch, mappingIdentity, live, resolvedKey, backing,
      writable⟩ :=
      sound.held_backed mapping member
    have kept : Function.update lineage.pages newIdentity (some newPage) mappingIdentity =
        some mapping.page := by
      simpa [residentNe _ _ backing] using backing
    by_cases here : mapping.branch = id
    · obtain rfl : mappingBranch = branch := by
        rw [here] at live
        exact Option.some.inj (live.symm.trans found)
      have different := keyUnheld mapping member here
      refine ⟨alignedKey, known, _, mappingIdentity, (by rw [here]; exact Function.update_self ..),
        ?_, kept, fun write => Or.inr (writable write)⟩
      simpa [different] using resolvedKey
    · exact ⟨alignedKey, known, mappingBranch, mappingIdentity,
        by simpa [Lineage.ownPage, setBranch, here] using live, resolvedKey, kept, writable⟩
  · intro other otherBranch otherPage lookup
    rcases setBranch_cases lookup with ⟨rfl, rfl⟩ | ⟨-, foundOther⟩
    · exact sound.active_count other branch otherPage found
    · exact sound.active_count other otherBranch otherPage foundOther

theorem SoundFrom.sameView_ownPage (sound : SoundFrom origin held lineage)
    (found : lineage.branches id = some branch) (resolved : branch.ident key = some identity)
    (resident : lineage.pages identity = some page) (fresh : ¬ lineage.issued newIdentity)
    (copied : lineage.contents newPage = lineage.contents page) :
    SameView lineage (lineage.ownPage id branch key newIdentity newPage) := by
  refine ⟨rfl, ?_, ?_⟩
  · intro other
    by_cases here : other = id
    · simp [Lineage.ownPage, setBranch, here, found]
    · simp [Lineage.ownPage, setBranch, here]
  · intro other old new before after
    have kept : ∀ node position,
        (lineage.ownPage id branch key newIdentity newPage).byteAt old node position =
          lineage.byteAt old node position := by
      intro node position
      simp only [byteAt]
      cases resolvedHere : old.ident (node, pageOf position) with
      | none => rfl
      | some otherIdentity =>
        have different : otherIdentity ≠ newIdentity := by
          rintro rfl
          exact fresh (sound.ident_issued before (aligned_pageOf node position)
            resolvedHere)
        simp [Lineage.ownPage, different, setBranch]
    rcases setBranch_cases after with ⟨rfl, rfl⟩ | ⟨there, foundThere⟩
    · obtain rfl : old = branch := Option.some.inj (before.symm.trans found)
      refine ⟨rfl, ?_⟩
      intro node length position known below
      by_cases same : (node, pageOf position) = key
      · subst same
        simp [byteAt, Lineage.ownPage, setBranch, resolved, resident, copied]
      · rw [← kept node position]
        simp [byteAt, same]
    · obtain rfl : old = new := Option.some.inj (before.symm.trans foundThere)
      exact ⟨rfl, fun node length position _ _ => kept node position⟩

end OwnPage

/-!
## Eviction
-/

omit [DecidableEq Identity]

theorem SoundFrom.unknown_clean {key : PageKey} {page : Nat} (sound : SoundFrom origin held lineage)
    (found : lineage.branches id = some branch) (aligned : Aligned key)
    (resolved : branch.ident key = some identity) (resident : lineage.pages identity = some page)
    (unknown : ¬ lineage.known key) : branch.Agrees key (lineage.contents page) := by
  refine sound.clean found aligned resolved resident ?_ ?_
  · intro dirty
    exact unknown (sound.dirty_resident found dirty).2.1
  · rintro mapping member - rfl
    exact absurd (sound.held_backed mapping member).2.1 unknown

section Evict

variable {pages : Identity → Option Nat}

theorem SoundFrom.evict (sound : SoundFrom origin held lineage)
    (subset : ∀ identity page, pages identity = some page → lineage.pages identity = some page)
    (dropped : ∀ identity id branch key, pages identity = none →
      (∃ page, lineage.pages identity = some page) → lineage.branches id = some branch →
      Aligned key → branch.ident key = some identity → ¬ lineage.known key) :
    SoundFrom
      { origin with
        image := fun identity => match lineage.pages identity with
          | some page => lineage.contents page
          | none => origin.image identity }
      held { lineage with pages } where
  branch_lt := sound.branch_lt
  page_lt identity page resident := sound.page_lt (subset identity page resident)
  page_unique left right page foundLeft foundRight :=
    sound.page_unique (subset left page foundLeft) (subset right page foundRight)
  page_issued identity page resident :=
    sound.page_issued (subset identity page resident)
  ident_issued := sound.ident_issued
  ident_origin id branch key identity found aligned resolved := by
    obtain ⟨home, length, image⟩ :=
      sound.ident_origin found aligned resolved
    refine ⟨home, length, fun missing => ?_⟩
    cases resident : lineage.pages identity with
    | none => simpa [resident] using image resident
    | some page =>
      simp only [resident]
      exact sound.unknown_clean found aligned resolved resident
        (dropped identity id branch key missing ⟨page, resident⟩ found aligned resolved)
  clean id branch key identity page found aligned resolved resident undirty unwritten :=
    sound.clean found aligned resolved (subset identity page resident)
      undirty unwritten
  dirty_resident id branch key found dirty := by
    obtain ⟨aligned, known, identity, page, resolved, resident⟩ :=
      sound.dirty_resident found dirty
    refine ⟨aligned, known, identity, page, resolved, ?_⟩
    cases kept : pages identity with
    | none =>
      exact absurd known
        (dropped identity id branch key kept ⟨page, resident⟩ found aligned resolved)
    | some other => exact kept.trans ((subset identity other kept).symm.trans resident)
  exclusive_private := sound.exclusive_private
  exclusive_resolved := sound.exclusive_resolved
  held_backed mapping member := by
    obtain ⟨aligned, known, branch, identity, live, resolved, resident, writable⟩ :=
      sound.held_backed mapping member
    refine ⟨aligned, known, branch, identity, live, resolved, ?_, writable⟩
    cases kept : pages identity with
    | none =>
      exact absurd known
        (dropped identity mapping.branch branch mapping.key kept ⟨_, resident⟩ live aligned
          resolved)
    | some other => exact kept.trans ((subset identity other kept).symm.trans resident)
  active_count := sound.active_count

theorem SoundFrom.sameView_evict (sound : SoundFrom origin held lineage)
    (subset : ∀ identity page, pages identity = some page → lineage.pages identity = some page)
    (dropped : ∀ identity id branch key, pages identity = none →
      (∃ page, lineage.pages identity = some page) → lineage.branches id = some branch →
      Aligned key → branch.ident key = some identity → ¬ lineage.known key) :
    SameView lineage { lineage with pages } := by
  refine ⟨rfl, fun _ => rfl, ?_⟩
  intro id old new before after
  obtain rfl : old = new := Option.some.inj (before.symm.trans after)
  refine ⟨rfl, ?_⟩
  intro node length position known below
  have inPage := lt_pageOf_add position
  have start := pageOf_le position
  simp only [byteAt]
  cases resolved : old.ident (node, pageOf position) with
  | none => rfl
  | some identity =>
    simp only [Option.bind_some]
    cases kept : pages identity with
    | some page => rw [subset identity page kept]
    | none =>
      cases resident : lineage.pages identity with
      | none => rfl
      | some page =>
        have aligned := aligned_pageOf node position
        have agrees := sound.unknown_clean before aligned resolved resident
          (dropped identity id old _ kept ⟨page, resident⟩ before aligned resolved)
        have byte := agrees length (position - pageOf position) known (by omega)
          (by simpa [Nat.add_sub_cancel' start] using below)
        simpa [Nat.add_sub_cancel' start] using byte.symm

end Evict

end Minidox.Cache.Lineage
