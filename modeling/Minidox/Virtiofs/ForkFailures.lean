import Minidox.Virtiofs.Resumption

/-!
# A fork that fails

`VirtioFsBranch::fork` makes the branch of the child before it resumes the mappings of the
source and before it opens the handles of the child. When one of these fails, nothing removes
the branch again.
-/

set_option autoImplicit false

namespace Minidox.Virtiofs

open Foundation Attempt
open Cache
open Std (ExtTreeMap)
open SharedPageCache (found_of_live Good)

variable {World Store Identity Filesystem : Type} [Ord Identity] [Std.TransOrd Identity]
  [ForkableNodeStore World Store Identity] [FileView Store] [IdentityLedger World Identity]
  [StoreLedger World Store]

namespace Device

variable {others : List DaxPageMapping} {device : Device World Store Identity}

/-!
## Strays of the branch
-/

/-- The cache counts more mappings of a page than the table has. -/
def HasStray (device : Device World Store Identity) : Prop :=
  ∃ branch page, device.cache.branches[device.state.branch]? = some branch ∧
    Devices.multiplicity device.state page < branch.activeCount page

theorem Counted.hasStray_iff (counted : Counted others device) :
    HasStray device ↔ ∃ mapping ∈ others, mapping.branch = device.state.branch := by
  obtain ⟨files, live⟩ := counted.live
  obtain ⟨branch, found⟩ := found_of_live live
  have own : ∀ page, Lineage.holders (TreeMap.values device.state.active) device.state.branch page =
      Devices.multiplicity device.state page := by
    intro page
    refine List.countP_congr fun mapping member => ?_
    obtain ⟨offset, active⟩ := TreeMap.mem_values.mp member
    simp [(counted.own offset mapping active).1]
  have count : ∀ page, branch.activeCount page =
      Lineage.holders others device.state.branch page + Devices.multiplicity device.state page := by
    intro page
    have both : Lineage.holders (others ++ TreeMap.values device.state.active) device.state.branch
        page = Lineage.holders others device.state.branch page +
          Devices.multiplicity device.state page := by
      rw [← own page]
      exact List.countP_append
    rw [CacheBranch.activeCount, counted.good.getElem?_activePages found, ← both]
    split
    next none => rw [none]; rfl
    next => rfl
  constructor
  · rintro ⟨same, page, foundSame, more⟩
    cases found.symm.trans foundSame
    rw [count page] at more
    have positive : Lineage.holders others device.state.branch page ≠ 0 := by omega
    simp only [ne_eq, Lineage.holders_eq_zero, not_forall, Decidable.not_not] at positive
    obtain ⟨mapping, member, here, -⟩ := positive
    exact ⟨mapping, member, here⟩
  · rintro ⟨mapping, member, here⟩
    refine ⟨branch, mapping.page, found, ?_⟩
    have positive : Lineage.holders others device.state.branch mapping.page ≠ 0 := by
      intro none
      exact Lineage.holders_eq_zero.mp none mapping member here rfl
    rw [count mapping.page]
    omega

/-!
## The handles of the child
-/

/-- The host and the store serve the handles of a child. -/
def ServesHandles (child : CacheBranchId) (nodes : List NodeId)
    (device : Device World Store Identity) : Prop :=
  Ends (forM nodes fun inode =>
      backendCache "restore DAX file handle" (SharedPageCache.openNode child inode)) device
    fun result _ => ∀ name io, result ≠ .error ⟨name, .cache (.io io)⟩

theorem ends_openAll_closed [LawfulForkableStore World Store Identity]
    (good : Good others device.cache) {branch : CacheBranchId}
    {files : Files} (live : device.cache.copies branch = some files) {nodes : List NodeId}
    (distinct : nodes.Nodup)
    (closed : ∀ node ∈ nodes, device.cache.opened branch node = 0) :
    Ends (forM nodes fun inode =>
        backendCache "restore DAX file handle" (SharedPageCache.openNode branch inode)) device
      fun result _ => result = .ok ⟨⟩ ∨ ∃ name io, result = .error ⟨name, .cache (.io io)⟩ := by
  induction nodes generalizing device with
  | nil => exact .inl rfl
  | cons node rest ih =>
    obtain ⟨fresh, distinctRest⟩ := List.nodup_cons.mp distinct
    rw [List.forall_mem_cons] at closed
    obtain ⟨state, found⟩ := found_of_live live
    rw [List.forM_cons, ends_bind]
    refine ends_onCache.mpr ((((SharedPageCache.ends_openNode_closed found closed.1).and
      (SharedPageCache.openFramed_openNode branch node device.cache)).and
      (SharedPageCache.moves_openNode branch node device.cache)).mono ?_)
    rintro result cache ⟨⟨failed, frame⟩, grown⟩
    cases result with
    | error error =>
      obtain ⟨io, rfl⟩ := failed error rfl
      exact .inr ⟨_, io, rfl⟩
    | ok value =>
      have liveAfter : cache.copies branch = some files := by
        rw [show cache.copies = device.cache.copies from (grown.sameView good).copies, live]
      have stillClosed : ∀ other ∈ rest, cache.opened branch other = 0 := by
        intro other member
        rw [frame.opened branch other fun same => ?_]
        · exact closed.2 other member
        · cases same
          exact fresh member
      refine ih ?_ ?_ distinctRest ?_
      · exact grown.good good
      · exact liveAfter
      · exact stillClosed

theorem ends_openAll_iff [LawfulForkableStore World Store Identity]
    (good : Good others device.cache) {branch : CacheBranchId} {files : Files}
    (live : device.cache.copies branch = some files) {nodes : List NodeId} (distinct : nodes.Nodup)
    (closed : ∀ node ∈ nodes, device.cache.opened branch node = 0) :
    Ends (forM nodes fun inode =>
        backendCache "restore DAX file handle" (SharedPageCache.openNode branch inode)) device
      fun result _ => result = .ok ⟨⟩ ↔ device.ServesHandles branch nodes := by
  refine ((ends_openAll_closed good live distinct closed).and (ends_self _ _ fun result _ =>
    ∀ name io, result ≠ .error ⟨name, .cache (.io io)⟩)).mono ?_
  rintro result after ⟨rfl | ⟨name, io, rfl⟩, served⟩
  · exact iff_of_true rfl (served.mpr fun _ _ => by rintro ⟨⟩)
  · exact iff_of_false (by rintro ⟨⟩) fun all => served.mp all name io rfl

/-!
## The branch of the child
-/

/-- `fork` up to the branch of the child. -/
def makeBranch : BackendM World Store Identity CacheBranchId := do
  backend "suspend DAX mappings" suspendMappings
  let device ← get
  backendCache "fork RedoxFS/DAX branch" (SharedPageCache.fork device.state.branch)

/-- Nothing stops the fork before there is a branch of the child. -/
structure MakesBranch (others : List DaxPageMapping) (device : Device World Store Identity) :
    Prop where
  removable : Removable device.state.window device.mmaps device.state.active.size
  free : ∀ mapping ∈ others, mapping.branch ≠ device.state.branch
  copied : ¬ device.cache.RefusesCopy device.state.branch
  room : device.cache.nextBranch + 1 < Word64.bound

structure ForkedFrom (others : List DaxPageMapping) (device : Device World Store Identity)
    (child : CacheBranchId) (forked : Device World Store Identity) : Prop
    extends MakesBranch others device where
  made : Ends makeBranch device fun result after => result = .ok child ∧ after = forked
  counted : Counted others forked
  state : forked.state = { device.state with active := ∅ }
  fresh : device.cache.copies child = none
  copies : forked.cache.copies =
    Function.update device.cache.copies child (device.cache.copies device.state.branch)
  opened : ∀ id node, forked.cache.opened id node =
    if id = child then 0 else device.cache.opened id node
  unowned : ∀ key, ¬ forked.cache.Owns device.state.branch key

theorem retables_onCache_grown {Error α : Type} {translate : CacheError → Error}
    {operation : SharedM World Store Identity α} (moves : Moves SharedPageCache.Grown operation) :
    Moves Retables (onCache translate operation) := by
  intro device
  refine ends_retables fun others counted => ?_
  refine ends_onCache.mpr ((moves device.cache).mono fun _ cache grown => ?_)
  have same := grown.sameView counted.good
  exact ⟨[], counted.setCache (grown.good counted.good) (outlived_of_sameView same),
    same.copies, rfl⟩

theorem retables_backend {α : Type} {operation : FsM World Store Identity α} (name : String)
    (moves : Moves Retables operation) : Moves Retables (backend name operation) :=
  fun device => ends_backend.mpr (moves device)

namespace ForkedFrom

variable {child : CacheBranchId} {forked : Device World Store Identity}
  (made : ForkedFrom others device child forked)

include made

theorem live : ∃ files, device.cache.copies device.state.branch = some files ∧
    forked.cache.copies child = some files ∧
    forked.cache.copies device.state.branch = some files := by
  obtain ⟨files, seen⟩ := made.counted.live
  rw [made.state, made.copies] at seen
  rw [made.copies, Function.update_self]
  by_cases same : device.state.branch = child
  · rw [same, Function.update_self, made.fresh] at seen
    cases seen
  · rw [Function.update_of_ne same] at seen ⊢
    exact ⟨files, seen, seen, seen⟩

theorem differs : forked.cache.copies ≠ device.cache.copies := by
  obtain ⟨files, -, new, -⟩ := made.live
  intro same
  rw [same, made.fresh] at new
  cases new

theorem alike : Alike device forked := by
  obtain ⟨files, seen, -, live⟩ := made.live
  refine ⟨by rw [made.state], by rw [made.state], by rw [made.state], live.trans seen.symm, ?_⟩
  intro node
  rw [made.opened, if_neg fun same => ?_]
  rw [same, made.fresh] at seen
  cases seen

/-- The source can be resumed when it could be with no page exclusive and none mapped. -/
theorem resumable_iff : Resumable forked (forked.cache.Owns forked.state.branch)
    (MappedBy others forked.state.branch) forked.state.specs.toList ↔
    Resumable device (fun _ => False) (fun _ => False) device.state.specs.toList := by
  have branch : forked.state.branch = device.state.branch := by rw [made.state]
  have unowned : ∀ key, forked.cache.Owns forked.state.branch key → False := by
    rw [branch]
    exact made.unowned
  have unmapped : ∀ key, MappedBy others forked.state.branch key → False := by
    rw [branch]
    rintro key ⟨mapping, member, here, -⟩
    exact made.free mapping member here
  rw [made.alike.specs]
  constructor
  · exact fun resumable => resumable.congr made.alike.symm unowned fun _ => False.elim
  · exact fun resumable => resumable.congr made.alike (fun _ => False.elim) unmapped

end ForkedFrom

/-!
## What a failed fork leaves
-/

variable [DecidableEq Identity] {child : CacheBranchId} {forked : Device World Store Identity}

/-- After the branch of the child is made, the host and the store serve what is asked of them to
resume the mappings of the source and to open the handles of the child. -/
def ForkServed (device : Device World Store Identity) : Prop :=
  Ends makeBranch device fun result forked => ∀ child, result = .ok child →
    forked.ServesTable ∧ Ends resumeMappings forked fun _ resumed =>
      resumed.ServesHandles child (VirtioFsBranch.specNodes device.state.specs)

theorem ForkedFrom.forkServed_iff (made : ForkedFrom others device child forked) :
    device.ForkServed ↔ forked.ServesTable ∧
    Ends resumeMappings forked fun _ resumed =>
      resumed.ServesHandles child (VirtioFsBranch.specNodes device.state.specs) := by
  have served := made.made.and (ends_self makeBranch device fun result forked => ∀ child,
    result = .ok child → forked.ServesTable ∧ Ends resumeMappings forked fun _ resumed =>
      resumed.ServesHandles child (VirtioFsBranch.specNodes device.state.specs))
  obtain ⟨⟨returned, rfl⟩, served⟩ := served
  rw [returned] at served
  refine served.trans ⟨fun all => all child rfl, ?_⟩
  rintro both _ ⟨⟩
  exact both

/-- A fork that fails leaves the branches and their files as they are. -/
def CreatesNothing (device : Device World Store Identity) : Prop :=
  Ends VirtioFsBranch.fork device fun result after => ∀ error, result = .error error →
    after.cache.copies = device.cache.copies

/-- The fork fails before it makes a branch, or it does not fail after it. -/
inductive ForkSpared (device : Device World Store Identity) : Prop where
  /-- A mapping cannot be taken out of the window. -/
  | stuck (kept : ¬ Removable device.state.window device.mmaps device.state.active.size)
  /-- The cache counts a mapping that the suspension does not give back. -/
  | stray (counted : HasStray device)
  /-- The store is not copied. -/
  | refused (failing : device.cache.RefusesCopy device.state.branch)
  /-- There is no id for a branch. -/
  | full (exhausted : Word64.bound ≤ device.cache.nextBranch + 1)
  /-- Every page can be mapped again, and the host and the store serve it. -/
  | resumed
      (resumable : Resumable device (fun _ => False) (fun _ => False) device.state.specs.toList)
      (served : device.ForkServed)

theorem Counted.makesBranch_of_not_spared (counted : Counted others device)
    (exposed : ¬ ForkSpared device) : MakesBranch others device where
  removable := Classical.byContradiction fun kept => exposed (.stuck kept)
  free mapping member here :=
    exposed (.stray (counted.hasStray_iff.mpr ⟨mapping, member, here⟩))
  copied failing := exposed (.refused failing)
  room := Nat.lt_of_not_le fun exhausted => exposed (.full exhausted)

variable [Std.LawfulEqOrd Identity] [LawfulForkableStore World Store Identity]

theorem retables_finishFork (lineage : Nat) (specs : ExtTreeMap Nat MappingSpec)
    (child : Except BackendError CacheBranchId) :
    Moves Retables (VirtioFsBranch.finishFork lineage specs child :
      BackendM World Store Identity VirtioFsBranch) :=
  moves_bind (moves_settle (retables_backend _ retables_resumeMappings)) fun _ =>
    moves_bind (moves_ofExcept _) fun branch => moves_bind (moves_ofExcept _) fun _ =>
      moves_bind (moves_forM fun inode _ =>
        retables_onCache_grown (SharedPageCache.moves_openNode branch inode)) fun _ => moves_pure _

/-- The rest of the fork succeeds if and only if the source can be resumed, and the host and the
store serve it. -/
theorem ForkedFrom.ends_finishFork_iff (made : ForkedFrom others device child forked) :
    Ends (VirtioFsBranch.finishFork device.state.lineage device.state.specs (.ok child)) forked
      fun result _ => (∃ made, result = .ok made) ↔
        Resumable device (fun _ => False) (fun _ => False) device.state.specs.toList ∧
          device.ForkServed := by
  obtain ⟨files, -, live, -⟩ := made.live
  have suspended : forked.state.active = ∅ := by rw [made.state]
  have handles := ends_self resumeMappings forked fun _ resumed =>
    resumed.ServesHandles child (VirtioFsBranch.specNodes device.state.specs)
  simp only [VirtioFsBranch.finishFork, ends_bind, ends_settle, ends_backend]
  refine ((ends_resumeMappings_iff made.counted suspended).and handles).mono ?_
  rintro resume after ⟨⟨returned, resumed⟩, served⟩
  rw [made.resumable_iff] at returned
  rw [made.forkServed_iff, served, ← and_assoc]
  cases resume with
  | error error =>
    exact iff_of_false (by rintro ⟨_, ⟨⟩⟩) fun all => absurd (returned.mpr all.1) (by rintro ⟨⟩)
  | ok value =>
    rw [and_iff_right (returned.mp rfl)]
    obtain ⟨_, _, now⟩ := resumed rfl
    have closed : ∀ node ∈ VirtioFsBranch.specNodes device.state.specs,
        after.cache.opened child node = 0 := by
      intro node _
      rw [now.opened, made.opened, if_pos rfl]
    simp only [Except.mapError, ends_ofExcept, VirtioFsBranch.fromParts, ends_bind]
    refine (ends_openAll_iff now.counted.good (now.copies ▸ live) (TreeMap.toList_nodup _)
      closed).mono fun opened final served => ?_
    cases opened with
    | error error => exact iff_of_false (by rintro ⟨_, ⟨⟩⟩) (served.not.mp (by rintro ⟨⟩))
    | ok value => exact iff_of_true ⟨_, rfl⟩ (served.mp rfl)

variable [FileMaker World Store] [LawfulFileMaker World Store Identity]

theorem ends_fork_forked (counted : Counted others device) :
    Ends VirtioFsBranch.fork device fun result after =>
      ((∃ error, result = .error error) ∧ after.cache.copies = device.cache.copies ∧
        ¬ MakesBranch others device) ∨
      ∃ child forked, ForkedFrom others device child forked ∧
        Ends (VirtioFsBranch.finishFork device.state.lineage device.state.specs (.ok child)) forked
          fun same final => result = same ∧ after = final := by
  simp only [VirtioFsBranch.fork, ends_bind, ends_backend]
  refine (((ends_suspendMappings_counted counted).and (retables_suspendMappings device)).and
    (ends_exec _ _)).mono ?_
  rintro result suspended ⟨⟨⟨loosens, returned, left⟩, retables⟩, suspends⟩
  obtain ⟨_, -, same, -⟩ := retables others counted
  cases result with
  | error error =>
    exact .inl ⟨⟨_, rfl⟩, same, fun makes => absurd (returned.mpr makes.removable) (by rintro ⟨⟩)⟩
  | ok value =>
    obtain ⟨countedSuspended, copies, mmaps, state⟩ := left rfl
    have branch : suspended.state.branch = device.state.branch := by rw [state]
    obtain ⟨files, live⟩ := countedSuspended.live
    obtain ⟨found, there⟩ := found_of_live live
    have good : Good others suspended.cache := by
      have good := countedSuspended.good
      rw [state, TreeMap.values_empty, List.append_nil] at good
      exact good
    have idle := good.idle_iff there
    rw [branch] at idle there
    have nextBranch : suspended.cache.nextBranch = device.cache.nextBranch := by
      rw [loosens.rebranched.rest]
    have copied := loosens.rebranched.refusesCopy_iff device.state.branch
    refine ends_get.mpr (ends_settle.mpr (ends_onCache.mpr ?_))
    rw [branch]
    refine (((SharedPageCache.ends_fork good device.state.branch).and
      (SharedPageCache.ends_fork_handles there)).and ((ends_exec _ _).and
        (ends_attempt (.fork device.state.branch) (fun _ => rfl) (by rintro _ ⟨⟩) good))).mono ?_
    rintro result cache ⟨⟨⟨goodForked, failed, made⟩, forks, handles⟩, ran, -, outlived⟩
    rw [idle, copied, nextBranch] at forks
    have fields : suspended.state.lineage = device.state.lineage ∧
        suspended.state.specs = device.state.specs := by rw [state]; exact ⟨rfl, rfl⟩
    rw [fields.1, fields.2]
    have countedForked : Counted others { suspended with cache } := by
      refine countedSuspended.setCache ?_ outlived
      rw [state, TreeMap.values_empty, List.append_nil]
      exact goodForked
    cases result with
    | error error =>
      -- the mappings are resumed, and then the error is returned
      have view : cache.copies = suspended.cache.copies := (failed error rfl).copies
      simp only [Except.mapError, VirtioFsBranch.finishFork, ends_bind, ends_settle, ends_backend]
      refine (retables_resumeMappings { suspended with cache }).mono fun resume after moved => ?_
      obtain ⟨_, -, resumed, -⟩ := moved others countedForked
      refine .inl ⟨⟨_, rfl⟩, resumed.trans (view.trans copies), fun makes => ?_⟩
      exact absurd (forks.mpr ⟨makes.free, makes.copied, makes.room⟩) (by rintro ⟨_, ⟨⟩⟩)
    | ok child =>
      obtain ⟨rfl, -, copiesForked, -⟩ := made child rfl
      obtain ⟨opened, unowned⟩ := handles _ rfl
      obtain ⟨free, asked, room⟩ := forks.mp ⟨_, rfl⟩
      refine (ends_exec _ _).mono fun result after ends => .inr
        ⟨suspended.cache.nextBranch, { suspended with cache }, ?_, ends⟩
      refine
        { removable := returned.mp rfl
          free
          copied := asked
          room
          made := ?_
          counted := countedForked
          state
          fresh := copies ▸ good.copies_nextBranch
          copies := copies ▸ copiesForked
          opened := fun id node => by
            rw [← loosens.frame.opened id node]
            exact opened id node
          unowned }
      simp only [makeBranch, ends_bind, ends_backend]
      refine suspends.mono fun _ _ same => ?_
      obtain ⟨rfl, rfl⟩ := same
      refine ends_get.mpr (ends_onCache.mpr ?_)
      rw [branch]
      refine ran.mono fun _ _ same => ?_
      obtain ⟨rfl, rfl⟩ := same
      exact ⟨rfl, rfl⟩

theorem createsNothing_of_spared (counted : Counted others device) (spared : ForkSpared device) :
    CreatesNothing device := by
  refine (ends_fork_forked counted).mono fun result after ends error failed => ?_
  rcases ends with early | ⟨child, forked, made, finished⟩
  · exact early.2.1
  · cases spared with
    | stuck kept => exact absurd made.removable kept
    | stray more =>
      obtain ⟨mapping, member, here⟩ := counted.hasStray_iff.mp more
      exact absurd here (made.free mapping member)
    | refused failing => exact absurd failing made.copied
    | full exhausted => exact absurd made.room (Nat.not_lt_of_le exhausted)
    | resumed resumable served =>
      obtain ⟨succeeds, rfl, -⟩ := made.ends_finishFork_iff.and finished
      obtain ⟨value, whole⟩ := succeeds.mpr ⟨resumable, served⟩
      cases whole.symm.trans failed

theorem spared_of_createsNothing (counted : Counted others device)
    (nothing : CreatesNothing device) : ForkSpared device := by
  refine Classical.byContradiction fun exposed => ?_
  obtain ⟨early | ⟨child, forked, made, finished⟩, unchanged⟩ :=
    (ends_fork_forked counted).and nothing
  · exact early.2.2 (counted.makesBranch_of_not_spared exposed)
  · have ends := (made.ends_finishFork_iff.and
      (retables_finishFork device.state.lineage device.state.specs (.ok child) forked)).and finished
    obtain ⟨⟨returned, retables⟩, same, final⟩ := ends
    obtain ⟨_, -, copies, -⟩ := retables others made.counted
    rw [← same] at returned
    rw [← final] at copies
    cases result : (VirtioFsBranch.fork.exec device).1 with
    | ok value =>
      rw [result] at returned
      obtain ⟨resumable, served⟩ := returned.mp ⟨value, rfl⟩
      exact exposed (.resumed resumable served)
    | error error => exact made.differs (copies.symm.trans (unchanged error result))

end Device

namespace Devices

variable [Std.LawfulEqOrd Identity] [DecidableEq Identity]
  [LawfulForkableStore World Store Identity] [FileMaker World Store]
  [LawfulFileMaker World Store Identity] [DurableStore World Store Filesystem]
  [LawfulDurableStore World Store Identity]

/-- In every state that a run reaches, a fork that fails creates no branch if and only if it is
spared. -/
theorem failed_fork_creates_nothing_iff {start : Devices World Store Identity}
    (begun : Begun start) (mmaps : Faults) (requests : List (Nat × Request)) {index : Nat}
    {state : VirtioFsBranch}
    (found : ((start.onHost mmaps).after requests).devices[index]? = some state) :
    let device := ((start.onHost mmaps).after requests).device state
    device.CreatesNothing ↔ device.ForkSpared := by
  obtain ⟨others, counted⟩ := (settled_after begun mmaps requests).counted found
  exact ⟨Device.spared_of_createsNothing counted, Device.createsNothing_of_spared counted⟩

namespace ForkOfMapped

open Redox

def withFaults (faults : Faults) : Devices RedoxWorld (MountedBranch OneFile) RedoxPageIdentity :=
  create 1 1 OneFile.world faults OneFile.branch

/-- The ninth call fails. -/
def failing : Devices RedoxWorld (MountedBranch OneFile) RedoxPageIdentity :=
  withFaults (List.replicate 8 none ++ [some ⟨.os 5, 0⟩])

def start : Devices RedoxWorld (MountedBranch OneFile) RedoxPageIdentity := withFaults []

def mapped : List (Nat × Request) :=
  [(0, .createFile "a" 1), (0, .openNode 2), (0, .attachDaxWindow 0 8192),
    (0, .setupMapping 2 0 4096 true 0)]

/-- The fork of a device with a mapped page returns a child. -/
def forks (state : VirtioFsBranch) : Bool :=
  decide (0 ∈ state.active) &&
    (VirtioFsBranch.fork.exec (((start.onHost []).after mapped).device state)).1.isOk

set_option maxRecDepth 4000 in
/-- A fork that the host refuses creates nothing, and the ordinary fork of a device with a mapped
page is spared. -/
theorem forks_of_mapped_page_are_spared :
    (∃ state, ((failing.onHost []).after mapped).devices[0]? = some state ∧ 0 ∈ state.active ∧
      (((failing.onHost []).after mapped).device state).CreatesNothing) ∧
    ∃ state, ((start.onHost []).after mapped).devices[0]? = some state ∧ 0 ∈ state.active ∧
      (((start.onHost []).after mapped).device state).ForkSpared := by
  have refused : ((failing.onHost []).after mapped).devices[0]?.map (fun state =>
      decide (0 ∈ state.active) &&
        (((failing.onHost []).after mapped).device state).cache.faults.head?.join.isSome) =
      some true := by
    decide +kernel
  have returned : ((start.onHost []).after mapped).devices[0]?.map forks = some true := by
    decide +kernel
  have begunFailing : Begun failing := .create OneFile.coherent 1 1 _
  have begun : Begun start := .create OneFile.coherent 1 1 _
  constructor
  · obtain ⟨state, found, fine⟩ := Option.map_eq_some_iff.mp refused
    rw [Bool.and_eq_true, decide_eq_true_eq] at fine
    refine ⟨state, found, fine.1, ?_⟩
    refine (failed_fork_creates_nothing_iff begunFailing [] mapped found).mpr
      (.refused (.inl fun none => ?_))
    rw [none] at fine
    cases fine.2
  · obtain ⟨state, found, fine⟩ := Option.map_eq_some_iff.mp returned
    rw [forks, Bool.and_eq_true, decide_eq_true_eq] at fine
    refine ⟨state, found, fine.1, ?_⟩
    refine (failed_fork_creates_nothing_iff begun [] mapped found).mp ?_
    intro error failed
    rw [failed] at fine
    cases fine.2

def closed : List (Nat × Request) := mapped ++ [(0, .close 2)]

/-- The fork fails, and the cache has a second branch. -/
def orphaned (state : VirtioFsBranch) : Bool :=
  match VirtioFsBranch.fork.exec (((start.onHost []).after closed).device state) with
  | (.ok _, _) => false
  | (.error _, after) => after.cache.branches[2]?.isSome &&
      (((start.onHost []).after closed).device state).cache.branches[2]?.isNone

set_option maxRecDepth 4000 in
theorem failed_fork_leaves_branch :
    ∃ state, ((start.onHost []).after closed).devices[0]? = some state ∧
      ¬ (((start.onHost []).after closed).device state).CreatesNothing := by
  have evaluated : ((start.onHost []).after closed).devices[0]?.map orphaned = some true := by
    decide +kernel
  obtain ⟨state, found, orphan⟩ := Option.map_eq_some_iff.mp evaluated
  refine ⟨state, found, fun nothing => ?_⟩
  rw [Device.CreatesNothing, Ends] at nothing
  unfold orphaned at orphan
  split at orphan
  next => cases orphan
  next error after executed =>
      rw [executed] at nothing
      have same := congrFun (nothing error rfl) 2
      rw [Bool.and_eq_true, Option.isNone_iff_eq_none, Option.isSome_iff_ne_none] at orphan
      exact orphan.1 (SharedPageCache.copies_eq_none_iff.mp
        (same.trans (SharedPageCache.copies_eq_none_iff.mpr orphan.2)))

end ForkOfMapped

end Devices

end Minidox.Virtiofs
