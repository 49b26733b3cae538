import Minidox.Cache.PageCacheFrames
import Minidox.Foundation.Transition

/-!
# Clients of the single-branch cache

A session is a cache and the mappings its client holds. The client calls the
cache, and stores bytes through its writable mappings without calling it.
-/

set_option autoImplicit false

namespace Minidox.Cache

open Foundation Attempt

def DaxMapping.pages (mapping : DaxMapping) : List Nat :=
  pageOffsets mapping.offset (mapping.offset + mapping.len)

namespace PageCache

inductive Action where
  | openNode (node : NodeId)
  | close (node : NodeId)
  | map (node : NodeId) (offset len : Nat) (flags : MapFlags)
  | read (node : NodeId) (offset capacity : Nat)
  | write (node : NodeId) (offset : Nat) (data : List UInt8)
  | sync (node : NodeId)
  | unmap (mapping : DaxMapping)
  | store (mapping : DaxMapping) (position : Nat) (byte : UInt8)
  deriving DecidableEq

structure Session (World Store : Type) where
  cache : PageCache World Store
  live : List DaxMapping

namespace Session

variable {World Store : Type}

def new (id : Nat) (world : World) (store : Store) (faults : Faults) : Session World Store :=
  { cache := PageCache.new id world store faults, live := [] }

def call {α : Type} (session : Session World Store) (operation : PageCacheM World Store α) :
    Session World Store :=
  { session with cache := (operation.exec session.cache).2 }

/-- A store through a mapping reaches the bytes of its range only. -/
def CanStore (session : Session World Store) (mapping : DaxMapping) (position : Nat) : Prop :=
  mapping ∈ session.live ∧ mapping.flags.write ∧
    mapping.offset ≤ position ∧ position < mapping.offset + mapping.len

instance (session : Session World Store) (mapping : DaxMapping) (position : Nat) :
    Decidable (session.CanStore mapping position) := by
  unfold CanStore
  infer_instance

/-- `unmap` takes the mapping away from the client, also when it fails. -/
def step [NodeStore World Store] (session : Session World Store) : Action → Session World Store
  | .openNode node => session.call (PageCache.openNode node)
  | .close node => session.call (PageCache.close node)
  | .map node offset len flags =>
    match (PageCache.map node offset len flags).exec session.cache with
    | (.ok mapping, cache) => { cache, live := mapping :: session.live }
    | (.error _, cache) => { session with cache }
  | .read node offset capacity => session.call (PageCache.read node offset capacity)
  | .write node offset data => session.call (PageCache.write node offset data)
  | .sync node => session.call (PageCache.sync node)
  | .unmap mapping =>
    if mapping ∈ session.live then
      { cache := ((PageCache.unmap mapping).exec session.cache).2
        live := session.live.erase mapping }
    else session
  | .store mapping position byte =>
    if session.CanStore mapping position then
      session.call (modifyInfo mapping.node fun info =>
        { info with backing := info.backing.write position [byte] })
    else session

def backingByte (session : Session World Store) (node : NodeId) (position : Nat) : Option UInt8 :=
  session.cache.files[node]?.map fun info => info.backing position

end Session

variable {World Store : Type} {guarded : NodeId → Nat → Prop} {gain loss : NodeId → Nat → Nat}

/-!
## Mapping counts
-/

def unguarded : NodeId → Nat → Prop := fun _ _ => False

def visits (node : NodeId) (pages : List Nat) : NodeId → Nat → Nat :=
  fun other page => if other = node then pages.count page else 0

theorem visits_nil (node : NodeId) : visits node [] = 0 := by
  funext other page
  simp [visits]

theorem visits_cons (node : NodeId) (page : Nat) (rest : List Nat) :
    visits node (page :: rest) = single node page + visits node rest := by
  funext other position
  by_cases here : other = node
  · by_cases same : position = page
    · subst same
      simp [visits, single, here, Nat.add_comm]
    · simp [visits, single, here, same, Ne.symm same]
  · simp [visits, single, here]

variable {after : PageCache World Store}

theorem Follows.weaken {before : PageCache World Store} {less more : NodeId → Nat → Nat}
    (follows : Follows (Keeps guarded gain loss) before after) (gains : less ≤ gain)
    (losses : loss ≤ more) : Follows (Keeps guarded less more) before after := by
  refine ⟨follows.1, ?_⟩
  intro node info found
  obtain ⟨next, foundNext, kept⟩ := follows.2 node info found
  refine ⟨next, foundNext, kept.size, kept.pages, ?_, kept.bytes⟩
  intro page
  have counted := kept.counts page
  have smaller : less node page ≤ gain node page := gains node page
  have larger : loss node page ≤ more node page := losses node page
  omega

def Marked (cache : PageCache World Store) (node : NodeId) (flags : MapFlags) (page : Nat) : Prop :=
  ∃ info, cache.files[node]? = some info ∧
    ∃ fmap : Fmap, info.pages[page]? = some fmap ∧ (flags.write → fmap.flags.write)

theorem Marked.follows {before : PageCache World Store} {node : NodeId} {flags : MapFlags}
    {page : Nat} (marked : Marked before node flags page)
    (follows : Follows (Keeps guarded gain loss) before after) : Marked after node flags page := by
  obtain ⟨info, found, fmap, cached, writable⟩ := marked
  obtain ⟨next, foundNext, kept⟩ := follows.2 node info found
  obtain ⟨later, cachedLater, stillWritable⟩ := kept.pages page fmap cached
  exact ⟨next, foundNext, later, cachedLater, stillWritable ∘ writable⟩

section Store

variable [NodeStore World Store]

theorem ends_mapOne (node : NodeId) (flags : MapFlags) (page : Nat)
    (cache : PageCache World Store) :
    Ends (mapOne node flags page) cache fun result after =>
      Follows (Steady unguarded) cache after ∧
        (result = .ok () → Follows (Keeps unguarded (single node page) 0) cache after ∧
          Marked after node flags page) := by
  rw [mapOne, ends_bind]
  refine ends_fileInfo ?_ fun _ => ⟨Std.Refl.refl cache, fun failed => by cases failed⟩
  intro info found
  simp only [ends_bind]
  have loads : Moves (Follows (Steady unguarded))
      (loadPage node page : PageCacheM World Store Unit) :=
    moves_loadPage node page fun _ inside => inside.elim
  refine (moves_onlyIf loads cache).mono ?_
  intro result middle moved
  cases result with
  | error error => exact ⟨moved, fun failed => by cases failed⟩
  | ok loaded =>
    have added : Follows (Keeps unguarded (single node page) 0) middle
        { middle with
          files := middle.files.modify node fun info => info.addMapping page flags } := by
      refine Follows.modify middle node (fun info _ => keeps_addMapping node info page flags) ?_
      intro other old different
      refine ⟨le_refl _, fun _ fmap cached => ⟨fmap, cached, fun writable => writable⟩, ?_,
        fun _ _ => rfl⟩
      simp [single, different]
    have both := moved.compose added
    rw [zero_add, zero_add] at both
    dsimp only
    rw [ends_modifyInfo]
    refine ⟨both.weaken (fun _ _ => Nat.zero_le _) (fun _ _ => Nat.le_refl _), fun _ => ⟨both, ?_⟩⟩
    obtain ⟨next, foundNext, -⟩ := moved.2 node info found
    refine ⟨next.addMapping page flags, by simp [foundNext], ?_⟩
    cases cached : next.pages[page]? with
    | none =>
      exact ⟨⟨1, flags, next.version⟩, by simp [FileMmapInfo.addMapping, cached],
        fun writable => writable⟩
    | some fmap =>
      exact ⟨⟨fmap.rc + 1, fmap.flags.union flags, next.version⟩,
        by simp [FileMmapInfo.addMapping, cached],
        fun writable => by simp [MapFlags.union, writable]⟩

theorem ends_mapPages (node : NodeId) (flags : MapFlags) (pages : List Nat)
    (cache : PageCache World Store) :
    Ends (forM pages (mapOne node flags)) cache fun result after =>
      Follows (Steady unguarded) cache after ∧
        (result = .ok () → Follows (Keeps unguarded (visits node pages) 0) cache after ∧
          ∀ page ∈ pages, Marked after node flags page) := by
  induction pages generalizing cache with
  | nil =>
    refine ⟨Std.Refl.refl cache, fun _ => ⟨?_, by simp⟩⟩
    rw [visits_nil]
    exact Std.Refl.refl cache
  | cons page rest ih =>
    rw [List.forM_cons, ends_bind]
    refine (ends_mapOne node flags page cache).mono ?_
    intro result middle mapped
    cases result with
    | error error => exact ⟨mapped.1, fun failed => by cases failed⟩
    | ok value =>
      obtain ⟨counted, marked⟩ := mapped.2 rfl
      refine (ih middle).mono ?_
      intro last after further
      refine ⟨IsTrans.trans _ _ _ mapped.1 further.1, fun finished => ?_⟩
      obtain ⟨restCounted, restMarked⟩ := further.2 finished
      refine ⟨?_, ?_⟩
      · rw [visits_cons]
        exact counted.compose restCounted
      · intro other member
        rcases List.mem_cons.mp member with rfl | later
        · exact marked.follows further.1
        · exact restMarked other later

/-- What a client may rely on for a mapping that it holds. -/
structure Mapped (cache : PageCache World Store) (mapping : DaxMapping) : Prop where
  owner : mapping.cacheId = cache.id
  aligned : mapping.offset % pageSize = 0
  whole : mapping.len % pageSize = 0
  nonempty : 0 < mapping.len
  bounded : Word64.checkedAdd mapping.offset mapping.len = some (mapping.offset + mapping.len)
  sized : ∃ info, cache.files[mapping.node]? = some info ∧
    mapping.offset + mapping.len ≤ info.size
  marked : ∀ page ∈ mapping.pages, Marked cache mapping.node mapping.flags page

omit [NodeStore World Store] in
theorem Mapped.follows {before : PageCache World Store} {mapping : DaxMapping}
    (mapped : Mapped before mapping) (follows : Follows (Keeps guarded gain loss) before after) :
    Mapped after mapping := by
  refine ⟨mapped.owner.trans follows.1, mapped.aligned, mapped.whole, mapped.nonempty,
    mapped.bounded, ?_, fun page member => (mapped.marked page member).follows follows⟩
  obtain ⟨info, found, sized⟩ := mapped.sized
  obtain ⟨next, foundNext, kept⟩ := follows.2 _ info found
  exact ⟨next, foundNext, le_trans sized kept.size⟩

omit [NodeStore World Store] in
theorem ends_ensureSize (node size : Nat) (cache : PageCache World Store) :
    Ends (ensureSize node size) cache fun result after =>
      Follows (Steady unguarded) cache after ∧ after.store = cache.store ∧
        (result = .ok () → node ∈ cache.files ∧
          ∃ info, after.files[node]? = some info ∧ size ≤ info.size) := by
  have moved : Moves (Follows (Steady unguarded))
      (ensureSize node size : PageCacheM World Store Unit) := moves_ensureSize node size
  refine Ends.and (moved cache) ?_
  simp only [ensureSize, ends_bind, ends_onlyIf]
  refine ends_fileInfo ?_ fun _ => ⟨rfl, fun failed => by cases failed⟩
  intro info found
  have present : node ∈ cache.files := by
    rw [Std.ExtTreeMap.mem_iff_isSome_getElem?, found]
    rfl
  refine ⟨fun larger => ?_, fun smaller => ⟨rfl, fun _ => ⟨present, info, found, by omega⟩⟩⟩
  refine ends_probe ?_ fun _ => ⟨rfl, fun failed => by cases failed⟩
  rw [ends_modifyInfo]
  exact ⟨rfl, fun _ => ⟨present, { info with size }, by simp [found], le_rfl⟩⟩

theorem ends_map (node offset len : Nat) (flags : MapFlags) (cache : PageCache World Store) :
    Ends (map node offset len flags) cache fun result after =>
      Follows (Steady unguarded) cache after ∧ ∀ mapping, result = .ok mapping →
        Mapped after mapping ∧ mapping.node ∈ cache.files ∧
          Follows (Keeps unguarded (visits mapping.node mapping.pages) 0) cache after := by
  simp only [map, ends_bind, ends_require]
  refine ⟨fun nonzero => ?_, fun _ => ⟨Std.Refl.refl cache, not_ok⟩⟩
  refine ⟨fun aligned => ?_, fun _ => ⟨Std.Refl.refl cache, not_ok⟩⟩
  refine ⟨fun access => ?_, fun _ => ⟨Std.Refl.refl cache, not_ok⟩⟩
  refine ends_orInvalid ?_ ⟨Std.Refl.refl cache, not_ok⟩
  intro alignedLen rounded
  dsimp only
  refine ends_orInvalid ?_ ⟨Std.Refl.refl cache, not_ok⟩
  intro stop added
  obtain rfl := Word64.checkedAdd_eq_some added
  dsimp only
  refine (ends_ensureSize node _ cache).mono ?_
  intro result sizedCache sized
  cases result with
  | error error => exact ⟨sized.1, not_ok⟩
  | ok value =>
    refine (ends_mapPages node flags _ sizedCache).mono ?_
    intro result after mapped
    have moved : Follows (Steady unguarded) cache after := IsTrans.trans _ _ _ sized.1 mapped.1
    cases result with
    | error error => exact ⟨moved, not_ok⟩
    | ok value =>
      simp only [ends_get, ends_pure]
      refine ⟨moved, fun mapping returned => ?_⟩
      cases returned
      obtain ⟨counted, marked⟩ := mapped.2 rfl
      obtain ⟨present, info, found, large⟩ := sized.2.2 rfl
      obtain ⟨rfl, whole⟩ := Word64.checkedNextMultipleOf_eq_some rounded
      refine ⟨⟨rfl, aligned, whole, ?_, added, ?_, marked⟩, present, ?_⟩
      · change 0 < Word64.nextMultipleOf len pageSize
        unfold Word64.nextMultipleOf pageSize
        omega
      · obtain ⟨next, foundNext, kept⟩ := mapped.1.2 node info found
        exact ⟨next, foundNext, le_trans large kept.size⟩
      · have both := sized.1.compose counted
        rwa [zero_add, zero_add] at both

structure Restamped (node : NodeId) (info next : FileMmapInfo) : Prop where
  backing : next.backing = info.backing
  size : next.size = info.size
  pages : ∀ page : Nat, next.pages[page]?.map (fun fmap => (fmap.rc, fmap.flags)) =
    info.pages[page]?.map fun fmap => (fmap.rc, fmap.flags)

instance (node : NodeId) : Std.Refl (Restamped node) := ⟨fun _ => ⟨rfl, rfl, fun _ => rfl⟩⟩

instance (node : NodeId) : IsTrans FileMmapInfo (Restamped node) :=
  ⟨fun _ _ _ before after => ⟨after.backing.trans before.backing, after.size.trans before.size,
    fun page => (after.pages page).trans (before.pages page)⟩⟩

theorem restamped_setVersion (node : NodeId) (info : FileMmapInfo) (page : Nat) :
    Restamped node info (info.setVersion page) := by
  refine ⟨rfl, rfl, fun other => ?_⟩
  simp only [FileMmapInfo.setVersion, Std.ExtTreeMap.getElem?_modify]
  by_cases same : page = other
  · subst same
    cases found : info.pages[page]? <;> simp
  · simp [same]

theorem Restamped.rcOf {node : NodeId} {info next : FileMmapInfo}
    (restamped : Restamped node info next) (page : Nat) : next.rcOf page = info.rcOf page := by
  have same := congrArg (Option.map Prod.fst) (restamped.pages page)
  simp only [Option.map_map, Function.comp_def] at same
  unfold FileMmapInfo.rcOf
  rw [same]

theorem ends_unmapOne (guarded : NodeId → Nat → Prop) (node page : Nat)
    (cache : PageCache World Store) :
    Ends (unmapOne node page) cache fun result after =>
      Follows (Keeps guarded 0 (single node page)) cache after ∧
        (∀ error, result = .error error → Follows (Steady guarded) cache after) := by
  have steady : ∀ {result : Except CacheError Unit} {after : PageCache World Store},
      Follows (Steady guarded) cache after →
      Follows (Keeps guarded 0 (single node page)) cache after ∧
        (∀ error, result = .error error → Follows (Steady guarded) cache after) := fun moved =>
    ⟨moved.weaken (fun _ _ => Nat.le_refl _) fun _ _ => Nat.zero_le _, fun _ _ => moved⟩
  rw [unmapOne, ends_bind]
  refine ends_fileInfo ?_ fun _ => steady (Std.Refl.refl cache)
  intro info found
  dsimp only
  cases cached : info.pages[page]? with
  | none => exact steady (Std.Refl.refl cache)
  | some fmap =>
    simp only [ends_bind]
    have kept : Ends (onlyIf fmap.flags.write (syncPage node page)) cache fun _ after =>
        Follows (Steady guarded) cache after ∧ Follows Restamped cache after :=
      Ends.and
        (moves_onlyIf (moves_syncPage (fun _ => moves_callStore _)
          (moves_modifyInfo node fun info => steady_setVersion node info page)) cache)
        (moves_onlyIf (moves_syncPage (fun _ => moves_callStore _)
          (moves_modifyInfo node fun info => restamped_setVersion node info page))
          cache)
    refine kept.mono ?_
    intro result middle moved
    cases result with
    | error error => exact steady moved.1
    | ok synced =>
      cases decremented : Word64.checkedSub fmap.rc 1 with
      | none => exact steady moved.1
      | some rc =>
        dsimp only
        rw [ends_modifyInfo]
        have released : Follows (Keeps guarded 0 (single node page)) middle
            { middle with
              files := middle.files.modify node fun info => info.setRc page rc } := by
          refine Follows.modify middle node ?_ ?_
          · intro next foundNext
            obtain ⟨same, foundSame, restamped⟩ := moved.2.2 node info found
            obtain rfl : next = same := Option.some.inj (foundNext.symm.trans foundSame)
            refine keeps_setRc node ?_
            rw [restamped.rcOf, FileMmapInfo.rcOf, cached]
            have one := Word64.checkedSub_eq_some decremented
            simp only [Option.map_some, Option.getD_some]
            omega
          · intro other old different
            exact ⟨le_refl _, fun _ fmap cached => ⟨fmap, cached, fun writable => writable⟩,
              by simp [single, different], fun _ _ => rfl⟩
        have both := moved.1.compose released
        rw [zero_add, zero_add] at both
        exact ⟨both, not_error⟩

theorem ends_unmapPages (guarded : NodeId → Nat → Prop) (node : NodeId) (pages : List Nat)
    (cache : PageCache World Store) :
    Ends (forM pages (unmapOne node)) cache fun _ after =>
      Follows (Keeps guarded 0 (visits node pages)) cache after := by
  induction pages generalizing cache with
  | nil =>
    rw [visits_nil]
    exact Std.Refl.refl cache
  | cons page rest ih =>
    rw [List.forM_cons, ends_bind, visits_cons]
    refine (ends_unmapOne guarded node page cache).mono ?_
    intro result middle moved
    cases result with
    | error error =>
      exact moved.1.weaken (fun _ _ => Nat.le_refl _) fun _ _ => Nat.le_add_right _ _
    | ok value =>
      refine (ih middle).mono ?_
      intro last after further
      have both := moved.1.compose further
      rwa [zero_add] at both

theorem ends_unmap (guarded : NodeId → Nat → Prop) (mapping : DaxMapping)
    (cache : PageCache World Store) :
    Ends (unmap mapping) cache fun _ after =>
      Follows (Keeps guarded 0 (visits mapping.node mapping.pages)) cache after := by
  have steady : ∀ {before after : PageCache World Store}, Follows (Steady guarded) before after →
      Follows (Keeps guarded 0 (visits mapping.node mapping.pages)) before after := fun moved =>
    moved.weaken (fun _ _ => Nat.le_refl _) fun _ _ => Nat.zero_le _
  simp only [unmap, ends_bind, ends_get, ends_require]
  refine ⟨fun _ => ?_, fun _ => steady (Std.Refl.refl cache)⟩
  refine ends_fileInfo (fun info found => ?_) fun _ => steady (Std.Refl.refl cache)
  refine ends_orInvalid ?_ (steady (Std.Refl.refl cache))
  intro stop added
  obtain rfl := Word64.checkedAdd_eq_some added
  dsimp only
  refine (ends_unmapPages guarded mapping.node _ cache).mono ?_
  intro result middle moved
  cases result with
  | error error => exact moved
  | ok value =>
    refine ends_fileInfo (fun info found => ?_) fun _ => moved
    have closes : Moves (Follows (Steady guarded)) (onlyIf (!info.inUse)
        (callStore (NodeStore.onCloseNode mapping.node)) : PageCacheM World Store Unit) :=
      moves_onlyIf (moves_callStore _)
    refine (closes middle).mono ?_
    intro _ after closed
    have both := moved.compose closed
    rwa [zero_add, add_zero] at both

end Store

/-!
## Reachable sessions
-/

namespace Session

/-- The mappings of the client that cover a page. -/
def coverage (live : List DaxMapping) (node : NodeId) (page : Nat) : Nat :=
  live.countP fun mapping => decide (mapping.node = node ∧ page ∈ mapping.pages)

/-- Every held mapping is backed by its pages, and every page counts at least the
mappings that cover it. -/
structure Valid (session : Session World Store) : Prop where
  mapped : ∀ mapping ∈ session.live, Mapped session.cache mapping
  counted : ∀ node page info, session.cache.files[node]? = some info →
    coverage session.live node page ≤ info.rcOf page

theorem valid_new (id : Nat) (world : World) (store : Store) (faults : Faults) :
    Valid (Session.new id world store faults) := by
  refine ⟨by simp [Session.new], ?_⟩
  intro node page info found
  simp [Session.new, PageCache.new] at found

variable {session : Session World Store}

theorem Valid.follows (valid : Valid session) {live : List DaxMapping}
    (follows : Follows (Keeps guarded gain loss) session.cache after)
    (mapped : ∀ mapping ∈ live, mapping ∈ session.live ∨
      Mapped after mapping ∧ mapping.node ∈ session.cache.files)
    (counted : ∀ node page, coverage live node page + loss node page ≤
      coverage session.live node page + gain node page) :
    Valid { cache := after, live } := by
  refine ⟨?_, ?_⟩
  · intro mapping member
    rcases mapped mapping member with before | ⟨now, -⟩
    · exact (valid.mapped mapping before).follows follows
    · exact now
  intro node page info found
  change coverage live node page ≤ _
  cases before : session.cache.files[node]? with
  | some old =>
    obtain ⟨next, foundNext, kept⟩ := follows.2 node old before
    obtain rfl : info = next := Option.some.inj (found.symm.trans foundNext)
    have counts := kept.counts page
    have covered := valid.counted node page old before
    have changed := counted node page
    omega
  | none =>
    -- an entry made by this call: no mapping of the client is of its node
    suffices empty : coverage live node page = 0 by omega
    rw [coverage, List.countP_eq_zero]
    intro mapping member
    simp only [decide_eq_true_eq, not_and]
    rintro rfl
    rcases mapped mapping member with held | ⟨-, present⟩
    · obtain ⟨old, foundOld, -⟩ := (valid.mapped mapping held).sized
      rw [before] at foundOld
      cases foundOld
    · rw [Std.ExtTreeMap.mem_iff_isSome_getElem?, before] at present
      cases present

theorem Valid.steady (valid : Valid session)
    (follows : Follows (Steady guarded) session.cache after) :
    Valid { session with cache := after } :=
  valid.follows follows (fun _ member => .inl member) fun _ _ => Nat.le_refl _

theorem coverage_cons (mapping : DaxMapping) (live : List DaxMapping) (node : NodeId) (page : Nat) :
    coverage (mapping :: live) node page ≤
      coverage live node page + visits mapping.node mapping.pages node page := by
  simp only [coverage, List.countP_cons, visits, decide_eq_true_eq]
  by_cases covers : mapping.node = node ∧ page ∈ mapping.pages
  · obtain ⟨rfl, member⟩ := covers
    have counted := List.count_pos_iff.mpr member
    simp only [member, and_self, ↓reduceIte]
    omega
  · rw [if_neg covers]
    omega

theorem coverage_erase {mapping : DaxMapping} {live : List DaxMapping} (member : mapping ∈ live)
    (node : NodeId) (page : Nat) :
    coverage (live.erase mapping) node page + visits mapping.node mapping.pages node page =
      coverage live node page := by
  have split := (List.perm_cons_erase member).countP_eq
    fun mapping => decide (mapping.node = node ∧ page ∈ mapping.pages)
  simp only [coverage, visits]
  rw [split, List.countP_cons]
  by_cases here : node = mapping.node
  · subst here
    by_cases covers : page ∈ mapping.pages
    · have once : mapping.pages.count page = 1 :=
        List.count_eq_one_of_mem (pageOffsets_nodup _ _) covers
      simp [covers, once]
    · simp [covers, List.count_eq_zero_of_not_mem covers]
  · simp [here, Ne.symm here]

theorem Valid.call {α : Type} (valid : Valid session) {operation : PageCacheM World Store α}
    (moves : Moves (Follows (Steady unguarded)) operation) : Valid (session.call operation) :=
  valid.steady (moves session.cache)

section Steps

variable [NodeStore World Store]

theorem valid_step (valid : Valid session) (action : Action) :
    Valid (session.step action) := by
  cases action with
  | openNode node => exact valid.call (moves_openNode node)
  | close node => exact valid.call (moves_close node)
  | read node offset capacity => exact valid.call (moves_read node offset capacity)
  | write node offset data =>
    exact valid.call (moves_write node offset data fun _ inside => inside.elim)
  | sync node => exact valid.call (moves_sync node)
  | map node offset len flags =>
    have mapped := ends_map node offset len flags session.cache
    unfold Ends at mapped
    simp only [Session.step]
    split
    next mapping cache executed =>
      rw [executed] at mapped
      obtain ⟨-, returned⟩ := mapped
      obtain ⟨held, present, counted⟩ := returned mapping rfl
      refine valid.follows counted ?_ fun node page => coverage_cons mapping _ node page
      intro other member
      rcases List.mem_cons.mp member with rfl | before
      · exact .inr ⟨held, present⟩
      · exact .inl before
    next error cache executed =>
      rw [executed] at mapped
      exact valid.steady mapped.1
  | unmap mapping =>
    simp only [Session.step]
    split
    next member =>
      exact valid.follows (ends_unmap unguarded mapping session.cache)
        (fun _ kept => .inl (List.mem_of_mem_erase kept))
        fun node page => Nat.le_of_eq (coverage_erase member node page)
    next => exact valid
  | store mapping position byte =>
    simp only [Session.step]
    split
    next =>
      exact valid.call (moves_modifyInfo mapping.node fun info =>
        steady_of_pages (le_refl _) rfl fun _ inside => inside.elim)
    next => exact valid

theorem valid_run (valid : Valid session) (actions : List Action) :
    Valid (run step session actions) :=
  run_invariant_all Valid (fun _ action held => valid_step held action) valid actions

def Reachable (session : Session World Store) : Prop :=
  ∃ id world store faults actions,
    session = run step (Session.new id world store faults) actions

theorem Reachable.valid (reachable : session.Reachable) :
    session.Valid := by
  obtain ⟨id, world, store, faults, actions, rfl⟩ := reachable
  exact valid_run (valid_new id world store faults) actions

end Steps

end Session

end PageCache

end Minidox.Cache
