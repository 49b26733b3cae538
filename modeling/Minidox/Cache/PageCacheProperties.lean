import Minidox.Cache.MemoryStore
import Minidox.Cache.PageCacheMappings

/-!
# Mapped bytes

What happens to a byte that a client stored through a writable mapping. A map
call loads a page again when the file was written since the page was last
loaded or synced, also when the page holds stores that were not synced.
-/

set_option autoImplicit false

namespace Minidox.Cache.PageCache

open Foundation Attempt

variable {World Store : Type} {cache : PageCache World Store} {session : Session World Store}
variable {node position : Nat} {byte : UInt8}

def Quiet (cache : PageCache World Store) : Prop := ∀ fault ∈ cache.faults, fault = none

theorem Quiet.tail (quiet : Quiet cache) :
    Quiet { cache with faults := cache.faults.tail } :=
  fun fault member => quiet fault (List.mem_of_mem_tail member)

theorem ends_probe_quiet (quiet : Quiet cache)
    {post : Except CacheError Unit → PageCache World Store → Prop}
    (passed : post (.ok ()) { cache with faults := cache.faults.tail }) :
    Ends probe cache post := by
  simp only [probe, ends_bind, ends_nextFault]
  have none : cache.faults.head?.join = none := by
    cases first : cache.faults.head? with
    | none => rfl
    | some fault => rw [quiet fault (List.mem_of_mem_head? first)]; rfl
  rw [none]
  exact passed

theorem ends_askStore_quiet {α : Type} (quiet : Quiet cache)
    {question : Store → Except IoError α} {value : α} (answer : question cache.store = .ok value)
    {post : Except CacheError α → PageCache World Store → Prop}
    (answered : post (.ok value) { cache with faults := cache.faults.tail }) :
    Ends (askStore question) cache post := by
  simp only [askStore, ends_bind]
  refine ends_probe_quiet quiet ?_
  simp only [ends_get, answer]
  exact answered

theorem ends_callStore_quiet {α : Type} (quiet : Quiet cache)
    {operation : Attempt (World × Store) IoError α} {value : α}
    (returns : (operation.exec (cache.world, cache.store)).1 = .ok value)
    {post : Except CacheError α → PageCache World Store → Prop}
    (called : Ends operation (cache.world, cache.store) fun result after =>
      result = .ok value → post (.ok value)
        { cache with world := after.1, store := after.2, faults := cache.faults.tail }) :
    Ends (callStore operation) cache post := by
  simp only [callStore, ends_bind]
  refine ends_probe_quiet quiet ?_
  simp only [ends_within]
  unfold Ends at called ⊢
  rw [returns]
  exact called returns

theorem ends_writeAllAt (node offset count : Nat) (source : ByteMap)
    (cache : PageCache World Store) :
    Ends (writeAllAt node offset count source) cache fun _ after =>
      after.store = cache.store ∧ ∃ moved ≤ count, after.files = cache.files.modify node fun info =>
        { info with backing := info.backing.blit offset moved source } := by
  simp only [writeAllAt, ends_bind, ends_nextFault]
  cases cache.faults.head?.join with
  | none => exact ⟨rfl, count, le_rfl, rfl⟩
  | some fault => exact ⟨rfl, min fault.progress count, min_le_right _ _, rfl⟩

def only (node : NodeId) (position : Nat) : NodeId → Nat → Prop :=
  fun other place => other = node ∧ place = position

theorem Session.backingByte_eq_some :
    session.backingByte node position = some byte ↔
      ∃ info, session.cache.files[node]? = some info ∧ info.backing position = byte := by
  simp [backingByte]

theorem Session.backingByte_follows {session after : Session World Store}
    {gain loss : NodeId → Nat → Nat} (held : session.backingByte node position = some byte)
    (follows : Follows (Keeps (only node position) gain loss) session.cache after.cache) :
    after.backingByte node position = some byte := by
  obtain ⟨info, found, same⟩ := Session.backingByte_eq_some.mp held
  obtain ⟨next, foundNext, kept⟩ := follows.2 node info found
  exact Session.backingByte_eq_some.mpr
    ⟨next, foundNext, by rw [kept.bytes position ⟨rfl, rfl⟩, same]⟩

variable [NodeStore World Store]

/-- The end of the range that `map` maps. -/
def mapEnd (offset len : Nat) : Option Nat :=
  (Word64.checkedNextMultipleOf len pageSize).bind (Word64.checkedAdd offset)

/-- `map` accepts the range, and goes on to the backing file and the pages. -/
def accepts (offset len : Nat) (flags : MapFlags) : Bool :=
  len ≠ 0 && offset % pageSize = 0 && (flags.read || flags.write) && (mapEnd offset len).isSome

theorem ends_map_refused {offset len : Nat} {flags : MapFlags}
    (refused : ¬ accepts offset len flags) (node : NodeId) (cache : PageCache World Store) :
    Ends (map node offset len flags) cache fun _ after => after = cache := by
  simp only [map, ends_bind, ends_require]
  refine ⟨fun some => ⟨fun aligned => ⟨fun used => ?_, by simp⟩, by simp⟩, by simp⟩
  refine ends_orInvalid (fun alignedLen rounded => ?_) rfl
  refine ends_orInvalid (fun stop added => absurd ?_ refused) rfl
  simp [accepts, some, aligned, used, mapEnd, rounded, added]

variable [FileView Store]

namespace Session

/-- The action neither takes the mapping away nor writes over the byte. -/
def Undisturbed (mapping : DaxMapping) (position : Nat) (session : Session World Store) :
    Action → Prop
  | .write node offset data =>
    ¬ (node = mapping.node ∧ offset ≤ position ∧ position < offset + data.length)
  | .store other place _ => ¬ (other.node = mapping.node ∧ place = position)
  | .unmap other => other = mapping → 1 < session.live.count mapping
  | _ => True

instance (mapping : DaxMapping) (position : Nat) (session : Session World Store)
    (action : Action) : Decidable (Undisturbed mapping position session action) := by
  cases action <;> unfold Undisturbed <;> infer_instance

/-- Loading the page of the byte again would leave the byte as it is. -/
def ReloadsSame (session : Session World Store) (node : NodeId) (position : Nat) : Prop :=
  match session.cache.files[node]? with
  | none => True
  | some info => info.mustLoad (pageOf position) →
      storedByte session.cache.store node position = info.backing position

instance (session : Session World Store) (node : NodeId) (position : Nat) :
    Decidable (session.ReloadsSame node position) := by
  unfold ReloadsSame
  split <;> infer_instance

/-- A map call that is accepted and covers the byte finds the page current, or the byte in the
store. -/
def MapsCurrent (node : NodeId) (position : Nat) (session : Session World Store) : Action → Prop
  | .map target offset len flags =>
    accepts offset len flags → target = node → offset ≤ position →
      position < offset + Word64.nextMultipleOf len pageSize → session.ReloadsSame node position
  | _ => True

instance (node : NodeId) (position : Nat) (session : Session World Store) (action : Action) :
    Decidable (MapsCurrent node position session action) := by
  cases action <;> unfold MapsCurrent <;> infer_instance

end Session

/-!
## Loading pages
-/

def Settled (node : NodeId) (position : Nat) (byte : UInt8) (cache : PageCache World Store) :
    Prop :=
  ∃ info, cache.files[node]? = some info ∧ info.backing position = byte ∧
    (info.mustLoad (pageOf position) → storedByte cache.store node position = byte)

theorem settled_loadPage [LawfulNodeStore World Store] {page : Nat} (aligned : page % pageSize = 0)
    {info : FileMmapInfo} (found : cache.files[node]? = some info) (load : info.mustLoad page)
    (settled : Settled node position byte cache) :
    Ends (loadPage node page) cache fun _ after => Settled node position byte after := by
  obtain ⟨same, foundSame, held, reload⟩ := settled
  obtain rfl : info = same := Option.some.inj (found.symm.trans foundSame)
  rw [loadPage, ends_bind]
  refine ends_askStore ?_ fun _ => ⟨info, found, held, reload⟩
  intro data read
  refine (ends_writeAllAt node page pageSize (ByteMap.ofList data) _).mono ?_
  rintro _ after ⟨store, moved, bounded, files⟩
  refine ⟨{ info with backing := info.backing.blit page moved (ByteMap.ofList data) },
    by simp [files, found], ?_, by rw [store]; exact reload⟩
  change info.backing.blit page moved (ByteMap.ofList data) position = byte
  by_cases inside : page ≤ position ∧ position < page + moved
  · have here : pageOf position = page :=
      pageOf_eq_of_mem aligned inside.1 (by omega)
    rw [ByteMap.blit_inside inside.1 inside.2, ofList_readNode read (by omega),
      Nat.add_sub_cancel' inside.1]
    exact reload (by rwa [here])
  · rwa [ByteMap.blit_outside inside]

theorem mustLoad_addMapping {info : FileMmapInfo} {page other : Nat} {flags : MapFlags}
    (load : (info.addMapping page flags).mustLoad other) : info.mustLoad other := by
  simp only [FileMmapInfo.mustLoad, FileMmapInfo.addMapping,
    Std.ExtTreeMap.getElem?_alter] at load ⊢
  by_cases same : page = other
  · subst same
    cases found : info.pages[page]? with
    | none => rfl
    | some fmap => simp [found] at load
  · simpa [same] using load

theorem settled_mapOne [LawfulNodeStore World Store] (flags : MapFlags) {page : Nat}
    (aligned : page % pageSize = 0) (settled : Settled node position byte cache) :
    Ends (mapOne node flags page) cache fun _ after => Settled node position byte after := by
  rw [mapOne, ends_bind]
  refine ends_fileInfo ?_ fun _ => settled
  intro info found
  simp only [ends_bind]
  have loaded : Ends (onlyIf (info.mustLoad page) (loadPage node page)) cache
      fun _ after => Settled node position byte after := by
    rw [ends_onlyIf]
    exact ⟨fun load => settled_loadPage aligned found load settled, fun _ => settled⟩
  refine loaded.mono ?_
  intro result middle held
  cases result with
  | error error => exact held
  | ok value =>
    obtain ⟨next, foundNext, kept, reload⟩ := held
    dsimp only
    rw [ends_modifyInfo]
    exact ⟨next.addMapping page flags, by simp [foundNext], kept,
      fun load => reload (mustLoad_addMapping load)⟩

omit [NodeStore World Store] in
theorem settled_ensureSize {size : Nat} (settled : Settled node position byte cache) :
    Ends (ensureSize node size) cache fun _ after => Settled node position byte after := by
  simp only [ensureSize, ends_bind, ends_onlyIf]
  refine ends_fileInfo ?_ fun _ => settled
  intro info found
  refine ⟨fun _ => ends_probe ?_ fun _ => settled, fun _ => settled⟩
  obtain ⟨same, foundSame, held, reload⟩ := settled
  dsimp only
  rw [ends_modifyInfo]
  exact ⟨{ same with size }, by simp [foundSame], held, reload⟩

theorem settled_map [LawfulNodeStore World Store] (offset len : Nat) (flags : MapFlags)
    (settled : Settled node position byte cache) :
    Ends (map node offset len flags) cache fun _ after => Settled node position byte after := by
  simp only [map, ends_bind, ends_require]
  refine ⟨fun nonzero => ?_, fun _ => settled⟩
  refine ⟨fun aligned => ?_, fun _ => settled⟩
  refine ⟨fun access => ?_, fun _ => settled⟩
  refine ends_orInvalid (fun alignedLen rounded => ?_) settled
  refine ends_orInvalid (fun stop added => ?_) settled
  dsimp only
  refine (settled_ensureSize settled).mono ?_
  intro result sizedCache sized
  cases result with
  | error error => exact sized
  | ok value =>
    refine (ends_forM (Settled node position byte) sized ?_).mono ?_
    · intro page member before held
      exact settled_mapOne flags (mod_of_mem_pageOffsets aligned member) held
    · intro result after held
      cases result with
      | error error => exact held
      | ok value => exact held

variable {mapping : DaxMapping}

namespace Session

theorem held_step [LawfulNodeStore World Store] {action : Action}
    (held : session.backingByte mapping.node position = some byte)
    (undisturbed : Undisturbed mapping position session action)
    (current : MapsCurrent mapping.node position session action) :
    (session.step action).backingByte mapping.node position = some byte := by
  cases action with
  | openNode node => exact backingByte_follows held (moves_openNode node session.cache)
  | close node => exact backingByte_follows held (moves_close node session.cache)
  | read node offset capacity =>
    have kept : Moves (Follows (Steady (only mapping.node position)))
        (read node offset capacity : PageCacheM World Store (List UInt8)) := moves_read _ _ _
    exact backingByte_follows held (kept session.cache)
  | sync node => exact backingByte_follows held (moves_sync node session.cache)
  | write node offset data =>
    refine backingByte_follows held (moves_write node offset data ?_ session.cache)
    rintro place ⟨rfl, rfl⟩ inside
    exact undisturbed ⟨rfl, inside⟩
  | unmap other =>
    simp only [Session.step]
    split
    next => exact backingByte_follows held (ends_unmap _ other session.cache)
    next => exact held
  | store other place value =>
    simp only [Session.step]
    split
    next =>
      have moves : Moves (Follows (Steady (only mapping.node position)))
          (modifyInfo other.node fun info =>
            { info with backing := info.backing.write place [value] } :
            PageCacheM World Store Unit) := by
        refine moves_modifyInfo other.node fun info => steady_of_pages (le_refl _) rfl ?_
        rintro position ⟨here, rfl⟩
        refine ByteMap.write_outside fun inside => undisturbed ⟨here, ?_⟩
        simp only [List.length_singleton] at inside
        omega
      exact backingByte_follows held (moves session.cache)
    next => exact held
  | map node offset len flags =>
    suffices kept : Ends (PageCache.map node offset len flags) session.cache fun _ after =>
        Session.backingByte { session with cache := after } mapping.node position = some byte by
      simp only [Session.step]
      unfold Ends at kept
      split
      next executed => simpa [backingByte, executed] using kept
      next executed => simpa [backingByte, executed] using kept
    by_cases accepted : accepts offset len flags
    swap
    · exact (ends_map_refused accepted node session.cache).mono fun _ _ same => same ▸ held
    by_cases covers : node = mapping.node ∧ offset ≤ position ∧
        position < offset + Word64.nextMultipleOf len pageSize
    · obtain ⟨rfl, lower, upper⟩ := covers
      have reloads := current accepted rfl lower upper
      obtain ⟨info, found, same⟩ := backingByte_eq_some.mp held
      simp only [ReloadsSame, found, same] at reloads
      refine (settled_map offset len flags ⟨info, found, same, reloads⟩).mono ?_
      rintro _ after ⟨next, foundNext, kept, -⟩
      exact backingByte_eq_some.mpr ⟨next, foundNext, kept⟩
    · have moves : Moves (Follows (Steady (only mapping.node position)))
          (PageCache.map node offset len flags : PageCacheM World Store DaxMapping) := by
        refine moves_map node offset len flags ?_
        rintro place ⟨rfl, rfl⟩ inside
        exact covers ⟨rfl, inside⟩
      exact (moves session.cache).mono fun _ after follows => backingByte_follows held follows

structure Tracked (mapping : DaxMapping) (position : Nat) (byte : UInt8)
    (session : Session World Store) : Prop where
  valid : session.Valid
  live : mapping ∈ session.live
  held : session.backingByte mapping.node position = some byte

omit [FileView Store] in
theorem live_step {action : Action} (live : mapping ∈ session.live)
    (undisturbed : Undisturbed mapping position session action) :
    mapping ∈ (session.step action).live := by
  cases action with
  | openNode | close | read | write | sync => exact live
  | map node offset len flags =>
    simp only [Session.step]
    split
    next => exact List.mem_cons_of_mem _ live
    next => exact live
  | store other place value =>
    simp only [Session.step]
    split
    next => exact live
    next => exact live
  | unmap other =>
    simp only [Session.step]
    split
    next =>
      by_cases same : other = mapping
      · subst same
        have twice : 1 < session.live.count other := undisturbed rfl
        rw [← List.count_pos_iff, List.count_erase_self]
        omega
      · exact (List.mem_erase_of_ne (Ne.symm same)).mpr live
    next => exact live

theorem tracked_run [LawfulNodeStore World Store] {actions : List Action}
    (tracked : session.Tracked mapping position byte)
    (admitted : Admitted step (fun state action => Undisturbed mapping position state action ∧
      MapsCurrent mapping.node position state action) session actions) :
    (run step session actions).Tracked mapping position byte := by
  refine run_invariant (Tracked mapping position byte) ?_ tracked admitted
  rintro state action held ⟨undisturbed, current⟩
  exact ⟨valid_step held.valid action, live_step held.live undisturbed,
    held_step held.held undisturbed current⟩

omit [FileView Store] in
theorem tracked_store (valid : session.Valid) (canStore : session.CanStore mapping position)
    (byte : UInt8) :
    (session.step (.store mapping position byte)).Tracked mapping position byte := by
  refine ⟨valid_step valid _, ?_, ?_⟩
  · simpa [Session.step, canStore, Session.call] using canStore.1
  · obtain ⟨info, found, -⟩ := (valid.mapped mapping canStore.1).sized
    refine backingByte_eq_some.mpr
      ⟨{ info with backing := info.backing.write position [byte] }, ?_, ?_⟩
    · rw [Session.step, if_pos canStore]
      change (session.cache.files.modify mapping.node fun info =>
        { info with backing := info.backing.write position [byte] })[mapping.node]? = _
      simp [found]
    · exact (ByteMap.write_inside le_rfl (by simp)).trans (by simp)

end Session

/-!
## Unmapping

With no failing host or store call, unmapping a writable mapping returns and
leaves the bytes of its pages in the store.
-/

/-- The calls of the stores that are reached on a file of the given length succeed. -/
structure Serves (World Store : Type) [NodeStore World Store] [FileView Store]
    (node length : Nat) (reached : World × Store → Prop) : Prop where
  len : ∀ world store, reached (world, store) → FileView.fileLen store node = some length →
    NodeStore.len World store node = .ok length
  write : ∀ world store offset data, reached (world, store) →
    FileView.fileLen store node = some length → offset + data.length ≤ length →
    Ends (NodeStore.writeNode node offset data) (world, store) fun result after =>
      result = .ok data.length ∧ reached after
  close : ∀ world store, reached (world, store) →
    ((NodeStore.onCloseNode node).exec (world, store)).1 = .ok ()

theorem serves_memoryStore (node length : Nat) :
    Serves Unit MemoryStore node length fun _ => True := by
  refine ⟨?_, fun _ _ _ _ _ _ _ => ⟨rfl, trivial⟩, fun _ _ _ => rfl⟩
  intro world store _ known
  exact congrArg Except.ok (Option.some.inj known)

variable [LawfulNodeStore World Store] {reached : World × Store → Prop}

theorem ends_writeBackPage_quiet (quiet : Quiet cache) {page count length : Nat}
    {info : FileMmapInfo} (found : cache.files[node]? = some info)
    (known : FileView.fileLen cache.store node = some length)
    (here : reached (cache.world, cache.store)) (serves : Serves World Store node length reached)
    (fits : page + count ≤ info.size) (inside : page + count ≤ length) :
    Ends (writeBackPage node page count) cache fun result after =>
      result = .ok () ∧ Quiet after ∧ reached (after.world, after.store) ∧
        FileView.fileLen after.store node = some length ∧
        (∃ next, after.files[node]? = some next ∧ Restamped node info next) ∧
        ∀ position, FileView.fileByte after.store node position =
          if page ≤ position ∧ position < page + count then info.backing position
          else FileView.fileByte cache.store node position := by
  have read : info.readExactAt page count = .ok (info.backing.read page count) := if_pos fits
  rw [writeBackPage, ends_bind]
  refine ends_fileInfo_of found ?_
  simp only [ends_bind]
  refine ends_probe_quiet quiet ?_
  simp only [read, orIo, ends_pure]
  have written := serves.write cache.world cache.store page (info.backing.read page count) here
    known (by simpa using inside)
  refine ends_callStore_quiet quiet.tail written.1 ?_
  refine ((LawfulNodeStore.writeNode_frame node page (info.backing.read page count) cache.world
    cache.store length known (by simpa using inside)).and written).mono ?_
  rintro result ⟨world, store⟩ ⟨⟨lengths, outside, stored⟩, -, there⟩ returned
  simp only [ByteMap.length_read] at returned outside
  obtain ⟨-, written⟩ := stored count returned
  simp only [ends_require]
  refine ⟨fun _ => ?_, fun short => absurd (ByteMap.length_read _ _ _) short⟩
  rw [ends_modifyInfo]
  refine ⟨rfl, quiet.tail.tail, there, (congrFun lengths node).trans known,
    ⟨info.setVersion page, by simp [found], restamped_setVersion node info page⟩, ?_⟩
  intro position
  by_cases covered : page ≤ position ∧ position < page + count
  · rw [if_pos covered, written position covered.1 covered.2, ByteMap.getD_read _ (by omega),
      Nat.add_sub_cancel' covered.1]
  · rw [if_neg covered]
    exact outside node position fun inside => covered inside.2

theorem ends_syncPage_quiet (quiet : Quiet cache) {page length : Nat} {info : FileMmapInfo}
    (found : cache.files[node]? = some info)
    (known : FileView.fileLen cache.store node = some length)
    (here : reached (cache.world, cache.store)) (serves : Serves World Store node length reached)
    (fits : page + pageSize ≤ info.size) :
    Ends (syncPage node page) cache fun result after =>
      result = .ok () ∧ Quiet after ∧ reached (after.world, after.store) ∧
        FileView.fileLen after.store node = some length ∧
        (∃ next, after.files[node]? = some next ∧ Restamped node info next) ∧
        ∀ position < length, FileView.fileByte after.store node position =
          if page ≤ position ∧ position < page + pageSize then info.backing position
          else FileView.fileByte cache.store node position := by
  rw [syncPage, ends_bind]
  refine ends_askStore_quiet quiet (serves.len _ _ here known) ?_
  dsimp only
  rw [ends_onlyIf]
  refine ⟨fun starts => ?_, fun past => ?_⟩
  · have written := ends_writeBackPage_quiet quiet.tail found known here serves
      (show page + min (length - page) pageSize ≤ info.size by omega) (by omega)
    refine written.mono ?_
    rintro result after ⟨returned, still, there, lengths, entry, bytes⟩
    refine ⟨returned, still, there, lengths, entry, fun position below => ?_⟩
    rw [bytes position]
    congr 1
    simp only [eq_iff_iff, and_congr_right_iff]
    omega
  · refine ⟨rfl, quiet.tail, here, known, ⟨info, found, Std.Refl.refl info⟩,
      fun position below => ?_⟩
    rw [if_neg (by omega)]

structure Unmapping (node length position : Nat) (byte : UInt8)
    (reached : World × Store → Prop) (rest : List Nat) (cache : PageCache World Store) : Prop where
  quiet : Quiet cache
  here : reached (cache.world, cache.store)
  known : FileView.fileLen cache.store node = some length
  entry : ∃ info, cache.files[node]? = some info ∧ info.backing position = byte ∧
    ∀ page ∈ rest, page + pageSize ≤ info.size ∧
      ∃ fmap : Fmap, info.pages[page]? = some fmap ∧ fmap.flags.write ∧ 1 ≤ fmap.rc

theorem unmapping_unmapOne {length : Nat} {page : Nat} {rest : List Nat}
    (serves : Serves World Store node length reached) (below : position < length)
    (fresh : page ∉ rest)
    (unmapping : Unmapping node length position byte reached (page :: rest) cache) :
    Ends (unmapOne node page) cache fun result after =>
      result = .ok () ∧ Unmapping node length position byte reached rest after ∧
        ((page ≤ position ∧ position < page + pageSize) ∨
          FileView.fileByte cache.store node position = byte →
          FileView.fileByte after.store node position = byte) := by
  obtain ⟨quiet, here, known, info, found, held, pages⟩ := unmapping
  obtain ⟨fits, fmap, cached, writable, counted⟩ := pages page List.mem_cons_self
  rw [unmapOne, ends_bind]
  refine ends_fileInfo_of found ?_
  simp only [cached, ends_bind, writable, ends_onlyIf, true_implies, not_true_eq_false,
    false_implies, and_true]
  refine (ends_syncPage_quiet quiet found known here serves fits).mono ?_
  rintro result after ⟨rfl, still, there, lengths, ⟨next, foundNext, restamped⟩, bytes⟩
  obtain ⟨rc, decremented⟩ : ∃ rc, Word64.checkedSub fmap.rc 1 = some rc :=
    ⟨fmap.rc - 1, if_pos counted⟩
  simp only [decremented]
  rw [ends_modifyInfo]
  refine ⟨rfl, ⟨still, there, lengths, next.setRc page rc, by simp [foundNext], ?_, ?_⟩, ?_⟩
  · exact (congrFun restamped.backing position).trans held
  · intro other member
    obtain ⟨fitsOther, old, cachedOther, writableOther, countedOther⟩ :=
      pages other (List.mem_cons_of_mem _ member)
    have different : page ≠ other := fun same => fresh (same ▸ member)
    have kept := restamped.pages other
    rw [cachedOther, Option.map_some, Option.map_eq_some_iff] at kept
    obtain ⟨later, cachedLater, same⟩ := kept
    obtain ⟨sameRc, sameFlags⟩ := Prod.mk.inj same
    refine ⟨le_of_le_of_eq fitsOther restamped.size.symm, later, ?_, sameFlags ▸ writableOther,
      sameRc ▸ countedOther⟩
    simpa [FileMmapInfo.setRc, Std.ExtTreeMap.getElem?_modify, different] using cachedLater
  · intro reached
    rw [bytes position below]
    split
    next => exact held
    next outside => exact reached.resolve_left outside

theorem unmapping_pages {length : Nat} {pages : List Nat}
    (serves : Serves World Store node length reached) (below : position < length)
    (distinct : pages.Nodup) (unmapping : Unmapping node length position byte reached pages cache) :
    Ends (forM pages (unmapOne node)) cache fun result after =>
      result = .ok () ∧ Unmapping node length position byte reached [] after ∧
        ((∃ page ∈ pages, page ≤ position ∧ position < page + pageSize) ∨
          FileView.fileByte cache.store node position = byte →
          FileView.fileByte after.store node position = byte) := by
  induction pages generalizing cache with
  | nil => exact ⟨rfl, unmapping, fun reached => by simpa using reached⟩
  | cons page rest ih =>
    rw [List.forM_cons, ends_bind]
    obtain ⟨fresh, distinctRest⟩ := List.nodup_cons.mp distinct
    refine (unmapping_unmapOne serves below fresh unmapping).mono ?_
    rintro result middle ⟨rfl, next, stored⟩
    refine (ih distinctRest next).mono ?_
    rintro last after ⟨rfl, final, storedRest⟩
    refine ⟨rfl, final, fun reached => ?_⟩
    rcases reached with ⟨covering, member, inside⟩ | already
    · rcases List.mem_cons.mp member with rfl | later
      · exact storedRest (.inr (stored (.inl inside)))
      · exact storedRest (.inl ⟨covering, later, inside⟩)
    · exact storedRest (.inr (stored (.inr already)))

namespace Session

theorem tracked_unmap {length : Nat} (tracked : session.Tracked mapping position byte)
    (writable : mapping.flags.write) (lower : mapping.offset ≤ position)
    (upper : position < mapping.offset + mapping.len) (quiet : Quiet session.cache)
    (known : FileView.fileLen session.cache.store mapping.node = some length)
    (below : position < length) (here : reached (session.cache.world, session.cache.store))
    (serves : Serves World Store mapping.node length reached) :
    Ends (PageCache.unmap mapping) session.cache fun result after =>
      result = .ok () ∧ FileView.fileByte after.store mapping.node position = byte := by
  have mapped := tracked.valid.mapped mapping tracked.live
  obtain ⟨info, found, held⟩ := backingByte_eq_some.mp tracked.held
  have ready : Unmapping mapping.node length position byte reached mapping.pages
      session.cache := by
    refine ⟨quiet, here, known, info, found, held, fun page member => ⟨?_, ?_⟩⟩
    · obtain ⟨same, foundSame, sized⟩ := mapped.sized
      obtain rfl : info = same := Option.some.inj (found.symm.trans foundSame)
      have inRange := add_le_of_mem_pageOffsets
        (by rw [Nat.add_sub_cancel_left]; exact mapped.whole) member
      omega
    · obtain ⟨same, foundSame, fmap, cached, marked⟩ := mapped.marked page member
      obtain rfl : info = same := Option.some.inj (found.symm.trans foundSame)
      refine ⟨fmap, cached, marked writable, ?_⟩
      have counted := tracked.valid.counted mapping.node page info found
      have covered : 0 < coverage session.live mapping.node page := by
        rw [coverage, List.countP_pos_iff]
        exact ⟨mapping, tracked.live, by simp [member]⟩
      simp only [FileMmapInfo.rcOf, cached, Option.map_some, Option.getD_some] at counted
      omega
  simp only [PageCache.unmap, ends_bind, ends_get, ends_require, mapped.owner, true_implies,
    not_true_eq_false, false_implies, and_true]
  refine ends_fileInfo (fun same _ => ?_) fun absent => by rw [absent] at found; cases found
  simp only [mapped.bounded, orInvalid, ends_pure]
  refine (unmapping_pages serves below (pageOffsets_nodup _ _) ready).mono ?_
  rintro result middle ⟨rfl, unmapped, stored⟩
  have inStore := stored (.inl ⟨pageOf position,
    pageOf_mem_pageOffsets mapped.aligned lower upper, pageOf_le _, lt_pageOf_add _⟩)
  obtain ⟨next, foundNext, -⟩ := unmapped.entry
  refine ends_fileInfo (fun same _ => ?_) fun absent => by rw [absent] at foundNext; cases foundNext
  dsimp only
  rw [ends_onlyIf]
  refine ⟨fun _ => ?_, fun _ => ⟨rfl, inStore⟩⟩
  refine ends_callStore_quiet unmapped.quiet (serves.close _ _ unmapped.here) ?_
  refine (LawfulNodeStore.onCloseNode_frame mapping.node middle.world middle.store).mono ?_
  rintro result after ⟨-, bytes⟩ -
  exact ⟨rfl, (congrFun (congrFun bytes mapping.node) position).trans inStore⟩

def afterStore (session : Session World Store) (mapping : DaxMapping) (position : Nat)
    (byte : UInt8) (later : List Action) : Session World Store :=
  run step (session.step (.store mapping position byte)) later

/-- A byte stored through a writable mapping stays in the shared backing file for
as long as the client holds the mapping, nobody writes over it, and no map call
covers it while its page is stale and the store holds another byte there.
Unmapping then leaves it in the store. -/
theorem mapped_store_survives {session : Session World Store} (reachable : session.Reachable)
    (mapping : DaxMapping) (position : Nat) (byte : UInt8) (later : List Action)
    (canStore : session.CanStore mapping position)
    (admitted : Admitted step (fun state action => Undisturbed mapping position state action ∧
      MapsCurrent mapping.node position state action)
      (session.step (.store mapping position byte)) later) :
    (session.afterStore mapping position byte later).backingByte mapping.node position =
        some byte ∧
      ∀ length reached, FileView.fileLen
          (session.afterStore mapping position byte later).cache.store mapping.node = some length →
        position < length → Quiet (session.afterStore mapping position byte later).cache →
        reached ((session.afterStore mapping position byte later).cache.world,
          (session.afterStore mapping position byte later).cache.store) →
        Serves World Store mapping.node length reached →
        ((PageCache.unmap mapping).exec (session.afterStore mapping position byte later).cache).1 =
            .ok () ∧
          FileView.fileByte ((session.afterStore mapping position byte later).step
            (.unmap mapping)).cache.store mapping.node position = byte := by
  have tracked : (session.afterStore mapping position byte later).Tracked mapping position byte :=
    tracked_run (tracked_store reachable.valid canStore byte) admitted
  refine ⟨tracked.held, ?_⟩
  intro length reached known below quiet here serves
  obtain ⟨-, writable, lower, upper⟩ := canStore
  have unmapped := tracked_unmap tracked writable lower upper quiet known below here serves
  rw [Session.step, if_pos tracked.live]
  exact unmapped

def firstPage : DaxMapping := ⟨0, 7, 0, pageSize, MapFlags.READ_WRITE⟩

def firstPageSession : Session Unit MemoryStore :=
  run step (Session.new 0 () (MemoryStore.withNode 7 [0]) [])
    [.openNode 7, .map 7 0 pageSize MapFlags.READ_WRITE]

theorem firstPageSession_reachable : firstPageSession.Reachable :=
  ⟨0, (), MemoryStore.withNode 7 [0], [],
    [.openNode 7, .map 7 0 pageSize MapFlags.READ_WRITE], rfl⟩

def syncedSession : Session Unit MemoryStore :=
  firstPageSession.afterStore firstPage 0 5
    [.write 7 pageSize [9], .sync 7, .map 7 0 pageSize MapFlags.READ]

theorem mapped_store_survives_synced :
    syncedSession.backingByte firstPage.node 0 = some 5 ∧
      ((PageCache.unmap firstPage).exec syncedSession.cache).1 = .ok () ∧
        FileView.fileByte (syncedSession.step (.unmap firstPage)).cache.store firstPage.node 0 =
          5 := by
  obtain ⟨held, unmapped⟩ := mapped_store_survives firstPageSession_reachable firstPage 0 5
    [.write 7 pageSize [9], .sync 7, .map 7 0 pageSize MapFlags.READ]
    (by decide +kernel) (by decide +kernel)
  have known : FileView.fileLen syncedSession.cache.store firstPage.node = some 4097 := by
    decide +kernel
  have quiet : Quiet syncedSession.cache := by
    unfold Quiet
    decide +kernel
  rw [← syncedSession] at held unmapped
  exact ⟨held, unmapped 4097 _ known (by decide) quiet trivial (serves_memoryStore _ _)⟩

/-- A write to the second page leaves the first one stale, so mapping the first
page again loads the old byte of the store over the stored one. -/
theorem second_map_reverts_store :
    firstPageSession.Reachable ∧ firstPageSession.CanStore firstPage 0 ∧
      Admitted step (Undisturbed firstPage 0) (firstPageSession.step (.store firstPage 0 5))
        [.write 7 pageSize [9], .map 7 0 pageSize MapFlags.READ] ∧
      (firstPageSession.afterStore firstPage 0 5
        [.write 7 pageSize [9], .map 7 0 pageSize MapFlags.READ]).backingByte 7 0 = some 0 :=
  ⟨firstPageSession_reachable, by decide +kernel, by decide +kernel,
    by decide +kernel⟩

end Session

end Minidox.Cache.PageCache
