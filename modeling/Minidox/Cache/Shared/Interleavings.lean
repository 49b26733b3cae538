import Minidox.Cache.Shared.Clashes
import Minidox.Cache.Shared.TornWrites

/-!
# Calls of one file that run at the same time

Threads read and write one file of one branch. A `write` must own the pages that it maps, and
it cannot come to own one that another thread is reading.
-/

set_option autoImplicit false

namespace Minidox.Cache

open Foundation Attempt SharedPageCache
open Std (ExtTreeMap)

def Job.stop (length offset : Nat) : Job → Nat
  | .read capacity => offset + min (length - offset) capacity
  | .write data => offset + data.length

def Job.Touches (job : Job) (length offset page : Nat) : Prop :=
  page % pageSize = 0 ∧ offset < job.stop length offset ∧ pageOf offset ≤ page ∧
    page < job.stop length offset

def Reply.size : Reply → Option Nat
  | .read bytes => some bytes.length
  | .wrote count => some count
  | _ => none

namespace System

section Steps

variable {World Store Identity : Type} [Ord Identity] [Std.TransOrd Identity]
  [DecidableEq Identity] [ForkableNodeStore World Store Identity] [FileMaker World Store]
  {branch : CacheBranchId} {node length : Nat} {issued : Job → Nat → Prop}
  {system : System World Store Identity} {thread : Thread} {call : Call DaxPageMapping}

/-- Threads make calls of a set, and take their steps in any order. -/
def Issues (issued : Job → Nat → Prop) (branch : CacheBranchId) (node : NodeId) : Action → Prop
  | .begin _ job owner file offset => owner = branch ∧ file = node ∧ issued job offset
  | .advance _ => True
  | _ => False

/-- A step of a call goes on, or returns with the full count. -/
def Returns (length : Nat) (system : System World Store Identity) : Action → Prop
  | .advance thread => ∀ call, system.calls[thread]? = some call →
      (system.step (.advance thread)).2 = .running ∨
        (system.step (.advance thread)).2.size =
          some (call.job.stop length call.offset - call.offset)
  | _ => True

/-- No call that the step can make of the host or the store of the branch fails. -/
def Serves (branch : CacheBranchId) (node : NodeId) (system : System World Store Identity) :
    Action → Prop :=
  fun _ => system.cache.serves branch node = true

instance (branch : CacheBranchId) (node : NodeId) (system : System World Store Identity)
    (action : Action) : Decidable (Serves branch node system action) :=
  inferInstanceAs (Decidable (_ = _))

/-- No page is both read and written, unless the branch owns it from the start. -/
def Compatible (system : System World Store Identity) (branch : CacheBranchId)
    (node length : Nat) (issued : Job → Nat → Prop) : Prop :=
  ∀ data offset page, issued (.write data) offset →
    (Job.write data).Touches length offset page → ¬ system.cache.Owns branch (node, page) →
    (∀ mapping ∈ system.mappings, mapping.branch = branch → mapping.key ≠ (node, page)) ∧
      ∀ capacity place, issued (.read capacity) place →
        ¬ (Job.read capacity).Touches length place page

theorem step_advance_idle (idle : system.calls[thread]? = none) :
    system.step (.advance thread) = (system, .refused) := by
  simp only [System.step, advance, idle]

theorem cache_begin (job : Job) (owner : CacheBranchId) (file offset : Nat) :
    (system.step (.begin thread job owner file offset)).1.cache = system.cache := by
  simp only [System.step, begin]
  split <;> rfl

theorem frame_advance (active : system.calls[thread]? = some call) :
    Frame call.claim system.cache (system.step (.advance thread)).1.cache := by
  rw [cache_advance active]
  exact call.framed_advance system.cache

/-- Every call of the set returns with its full count, in every interleaving. -/
def AlwaysReturns (issued : Job → Nat → Prop) (branch : CacheBranchId) (node length : Nat)
    (system : System World Store Identity) : Prop :=
  ∀ actions, (∀ action ∈ actions, Issues issued branch node action) →
    Admitted (fun system action => (system.step action).1) (Returns length) system actions

variable (always : AlwaysReturns issued branch node length system)

include always

theorem AlwaysReturns.step (action : Action) (requested : Issues issued branch node action) :
    AlwaysReturns issued branch node length (system.step action).1 := by
  intro actions issues
  refine (always (action :: actions) fun other member => ?_).2
  cases List.mem_cons.mp member with
  | inl same => exact same ▸ requested
  | inr later => exact issues other later

theorem AlwaysReturns.returns (thread : Thread) : system.Returns length (.advance thread) :=
  (always [.advance thread] fun action member => by
    rw [List.mem_singleton.mp member]
    trivial).1

theorem AlwaysReturns.exec (active : system.calls[thread]? = some call) :
    ∃ progress cache, call.advance.exec system.cache = (.ok progress, cache) := by
  have returned := always.returns thread call active
  cases executed : call.advance.exec system.cache with
  | mk result cache =>
    cases result with
    | ok progress => exact ⟨progress, cache, rfl⟩
    | error error =>
      have stepped : (system.step (.advance thread)).2 =
          call.failure system.cache.faults error := by
        simp only [System.step, System.advance, active, executed]
      rw [stepped] at returned
      obtain ⟨failed, stopped | ⟨stored, stopped⟩⟩ := call.failure_cases system.cache.faults error
      · rw [stopped] at returned
        cases returned <;> contradiction
      · rw [stopped] at returned
        cases returned <;> contradiction

end Steps

end System

/-!
## Calls that do not meet
-/

structure Issued (branch : CacheBranchId) (node length : Nat) (issued : Job → Nat → Prop)
    (call : Call DaxPageMapping) : Prop where
  place : call.branch = branch ∧ call.node = node
  job : issued call.job call.offset
  range : match call.phase with
    | .measure => call.cursor = call.offset
    | _ => call.offset ≤ call.cursor ∧ call.stop = call.job.stop length call.offset
  collected : ∀ capacity, call.job = .read capacity → call.collected.length = call.stored

def Issued.Outcome (branch : CacheBranchId) (node length : Nat) (issued : Job → Nat → Prop)
    (call : Call DaxPageMapping) : Progress DaxPageMapping → Prop
  | .running next => Issued branch node length issued next
  | .finished reply => reply.size = some (call.job.stop length call.offset - call.offset)

section Calls

variable {branch : CacheBranchId} {node length : Nat} {issued : Job → Nat → Prop}
  {call : Call DaxPageMapping}

theorem Issued.loop (goes : Issued branch node length issued call) {next : Call DaxPageMapping}
    (place : next.branch = call.branch ∧ next.node = call.node)
    (same : next.job = call.job ∧ next.offset = call.offset)
    (range : next.offset ≤ next.cursor ∧ next.cursor ≤ next.stop ∧
      next.stop = call.job.stop length call.offset)
    (collected : ∀ capacity, call.job = .read capacity →
      next.collected.length = next.cursor - next.offset) :
    Issued.Outcome branch node length issued call next.loop := by
  unfold Call.loop
  split
  next more =>
    refine ⟨⟨place.1.trans goes.place.1, place.2.trans goes.place.2⟩, ?_, ?_, ?_⟩
    · change issued next.job next.offset
      rw [same.1, same.2]
      exact goes.job
    · exact ⟨range.1, by rw [same.1, same.2]; exact range.2.2⟩
    · intro capacity job
      exact collected capacity (same.1.symm.trans job)
  next last =>
    have whole : next.cursor - next.offset = call.job.stop length call.offset - call.offset := by
      rw [← range.2.2, same.2]
      omega
    change (next.job.result next.collected).size = _
    rw [same.1]
    cases job : call.job with
    | read capacity =>
      rw [← job, ← whole, ← collected capacity job, job]
      rfl
    | write data => simp [Job.result, Reply.size, Job.stop]

theorem Issued.next (goes : Issued branch node length issued call) (loops : call.phase ≠ .measure)
    (inside : call.cursor < call.stop) {progress : Progress DaxPageMapping}
    (leads : call.Next progress) : Issued.Outcome branch node length issued call progress := by
  obtain ⟨place, job, range, collected⟩ := goes
  unfold Call.Next at leads
  cases phase : call.phase with
  | measure => exact absurd phase loops
  | map =>
    simp only [phase, Call.stored] at leads range collected
    obtain ⟨mapping, rfl⟩ := leads
    exact ⟨place, job, range, collected⟩
  | copy mapping =>
    simp only [phase, Call.stored] at leads range collected
    obtain ⟨filled, rfl, longer⟩ := leads
    refine ⟨place, job, range, fun capacity reads => ?_⟩
    rw [longer capacity reads, collected capacity reads]
    rfl
  | unmap mapping =>
    simp only [phase, Call.stored] at leads range collected
    subst leads
    have chunk : call.chunkLen ≤ call.stop - call.cursor := Nat.min_le_right _ _
    refine Issued.loop ⟨place, job, by simp only [phase]; exact range, by
      simpa only [Call.stored, phase] using collected⟩ ⟨rfl, rfl⟩ ⟨rfl, rfl⟩ ?_ ?_
    · refine ⟨?_, ?_, range.2⟩
      · exact Nat.le_add_right_of_le range.1
      · change call.cursor + call.chunkLen ≤ call.stop
        omega
    · intro capacity reads
      rw [collected capacity reads]
      change _ = call.cursor + call.chunkLen - call.offset
      omega

end Calls

namespace System

theorem pageOf_mono {left right : Nat} (ordered : left ≤ right) : pageOf left ≤ pageOf right :=
  Nat.mul_le_mul_right _ (Nat.div_le_div_right ordered)

theorem mem_of_mem_passOn {thread : Thread} {held : List (Holder × DaxPageMapping)}
    {old new : Option DaxPageMapping}
    {entry : Holder × DaxPageMapping} (member : entry ∈ passOn thread held old new) :
    entry ∈ held ∨ new = some entry.2 := by
  cases old with
  | none =>
    cases new with
    | none => exact .inl member
    | some gained =>
      cases List.mem_cons.mp member with
      | inl same => exact .inr (by rw [same])
      | inr older => exact .inl older
  | some lost =>
    cases new with
    | none => exact .inl (List.mem_of_mem_erase member)
    | some kept => exact .inl member

def InRange (length : Nat) (issued : Job → Nat → Prop) : Prop :=
  ∀ data offset, issued (.write data) offset → offset + data.length ≤ length

variable {World Store Identity : Type} [Ord Identity] [Std.TransOrd Identity]
  [ForkableNodeStore World Store Identity] [FileView Store] [IdentityLedger World Identity]
  [StoreLedger World Store] {branch : CacheBranchId} {node length : Nat}
  {issued : Job → Nat → Prop} {first system : System World Store Identity} {thread : Thread}
  {call : Call DaxPageMapping}

structure Opened (branch : CacheBranchId) (node length : Nat)
    (system : System World Store Identity) : Prop where
  consistent : Consistent system
  opened : system.cache.opened branch node ≠ 0
  file : ∃ files bytes, system.cache.copies branch = some files ∧ files node = some bytes ∧
    bytes.length = length

theorem ends_measure_stop [LawfulForkableStore World Store Identity]
    (opened : Opened branch node length system) (place : call.branch = branch ∧ call.node = node) :
    Ends call.measure system.cache fun result _ => ∀ progress, result = .ok progress →
      progress = { call with stop := call.job.stop length call.offset }.loop ∨
        call.job.stop length call.offset = call.offset ∧ progress = .finished (.read []) := by
  obtain ⟨files, bytes, live, present, rfl⟩ := opened.file
  have same : ∀ {state : CacheBranch Store} {known : Nat},
      system.cache.branches[call.branch]? = some state →
      NodeStore.len World state.store call.node = .ok known → known = bytes.length := by
    intro state known found measured
    rw [place.1] at found
    rw [place.2] at measured
    have answered := fileLen_of_copies found live present
    exact Option.some.inj ((LawfulNodeStore.len_ok measured).symm.trans answered)
  refine ends_measure call system.cache (fun _ _ _ => not_ok) ?_ ?_ ?_
  · intro capacity state known job found measured nothing progress went
    obtain rfl := same found measured
    refine .inr ⟨?_, (Except.ok.inj went).symm⟩
    rw [job, Job.stop]
    omega
  · intro capacity state known job found measured _ progress went
    obtain rfl := same found measured
    refine .inl ((Except.ok.inj went).symm.trans ?_)
    rw [job]
    rfl
  · intro data state known job found measured _ progress went
    refine .inl ((Except.ok.inj went).symm.trans ?_)
    rw [job]
    rfl

theorem ends_measure_io [LawfulForkableStore World Store Identity]
    (opened : Opened branch node length system) (small : length < Word64.bound)
    (inRange : InRange length issued)
    (goes : Issued branch node length issued call) :
    Ends call.measure system.cache fun result _ => FailsOnlyByIo result := by
  obtain ⟨files, bytes, live, present, rfl⟩ := opened.file
  obtain ⟨state, found⟩ := found_of_live live
  have file := fileLen_of_copies found live present
  rw [← goes.place.1] at found
  rw [← goes.place.2] at file
  have answered : ∀ {other : CacheBranch Store} {known : Nat},
      system.cache.branches[call.branch]? = some other →
      NodeStore.len World other.store call.node = .ok known → known = bytes.length := by
    intro other known foundOther measured
    cases found.symm.trans foundOther
    exact Option.some.inj ((LawfulNodeStore.len_ok measured).symm.trans file)
  have absent : system.cache.branches[call.branch]? ≠ none := by rw [found]; rintro ⟨⟩
  unfold Call.measure
  cases job : call.job with
  | read capacity =>
    simp only [ends_bind]
    refine ends_askStore (fun other known foundOther measured => ?_) failsOnlyByIo_io
      fun missing => absurd missing absent
    obtain rfl := answered foundOther measured
    simp only [ends_ite]
    refine ⟨fun _ => failsOnlyByIo_ok _, fun something => ?_⟩
    have reachable : call.offset + min (bytes.length - call.offset) capacity < Word64.bound := by
      omega
    rw [ends_bind]
    exact ends_orInvalid_some (if_pos reachable) (failsOnlyByIo_ok _)
  | write data =>
    have inside := inRange data call.offset (job ▸ goes.job)
    simp only [ends_bind]
    refine ends_orInvalid_some (if_pos (by omega)) ?_
    refine ends_askStore (fun other known foundOther measured => ?_) failsOnlyByIo_io
      fun missing => absurd missing absent
    obtain rfl := answered foundOther measured
    exact ends_require.mpr ⟨fun _ => failsOnlyByIo_ok _, fun outside => absurd inside outside⟩

theorem ends_advance_outcome [DecidableEq Identity] [LawfulForkableStore World Store Identity]
    (opened : Opened branch node length system) (active : system.calls[thread]? = some call)
    (goes : Issued branch node length issued call) :
    Ends call.advance system.cache fun result _ => ∀ progress, result = .ok progress →
      Issued.Outcome branch node length issued call progress := by
  by_cases loops : call.phase = .measure
  · have start : call.cursor = call.offset := by simpa only [loops] using goes.range
    have empty : ∀ capacity, call.job = .read capacity → call.collected.length = 0 := by
      intro capacity reads
      rw [goes.collected capacity reads]
      simp only [Call.stored, loops]
      omega
    simp only [Call.advance, loops]
    refine (ends_measure_stop opened goes.place).mono fun result after ended progress went => ?_
    rcases ended progress went with looped | ⟨nothing, finished⟩
    · rw [looped]
      refine goes.loop ⟨rfl, rfl⟩ ⟨rfl, rfl⟩ ⟨Nat.le_of_eq start.symm, ?_, rfl⟩ ?_
      · change call.cursor ≤ call.job.stop length call.offset
        rw [start]
        cases call.job with
        | read capacity => exact Nat.le_add_right _ _
        | write data => exact Nat.le_add_right _ _
      · intro capacity reads
        rw [empty capacity reads]
        change 0 = call.cursor - call.offset
        omega
    · rw [finished]
      simp [Issued.Outcome, Reply.size, nothing]
  · have inside := ((opened.consistent.calls thread call active).started loops).2.1
    unfold Ends
    cases executed : call.advance.exec system.cache with
    | mk result cache =>
      rintro progress rfl
      exact goes.next loops inside (Call.next_of_ok executed)

structure Underway (first : System World Store Identity) (branch : CacheBranchId)
    (node length : Nat) (issued : Job → Nat → Prop) (system : System World Store Identity) :
    Prop extends Opened branch node length system where
  owns : ∀ key, first.cache.Owns branch key → system.cache.Owns branch key
  held : ∀ entry ∈ system.held, entry ∈ first.held ∨ entry.2.flags.write ∨
    ∃ capacity place, issued (.read capacity) place ∧
      (Job.read capacity).Touches length place entry.2.key.2
  calls : ∀ (thread : Thread) (call : Call DaxPageMapping), system.calls[thread]? = some call →
    Issued branch node length issued call

theorem touches_cursor (consistent : Consistent system) (active : system.calls[thread]? = some call)
    (goes : Issued branch node length issued call) (loops : call.phase ≠ .measure) :
    call.job.Touches length call.offset (pageOf call.cursor) := by
  have inside := ((consistent.calls thread call active).started loops).2.1
  have range : call.offset ≤ call.cursor ∧ call.stop = call.job.stop length call.offset := by
    have known := goes.range
    split at known
    next phase => exact absurd phase loops
    next => exact known
  have below := pageOf_le call.cursor
  refine ⟨pageOf_mod _, ?_, pageOf_mono range.1, ?_⟩
  · omega
  · omega

theorem owns_of_writable {held : List DaxPageMapping} {cache : SharedPageCache World Store Identity}
    (good : Good held cache) {mapping : DaxPageMapping} (member : mapping ∈ held)
    (writable : mapping.flags.write) : cache.Owns mapping.branch mapping.key := by
  obtain ⟨origin, sound⟩ := good.sound
  obtain ⟨-, -, view, identity, found, -, -, owned⟩ := sound.held_backed mapping member
  obtain ⟨state, present, rfl⟩ := Option.map_eq_some_iff.mp found
  exact ⟨state, present, owned writable⟩

theorem Underway.not_clashes (underway : Underway first branch node length issued system)
    (compatible : first.Compatible branch node length issued)
    (active : system.calls[thread]? = some call) :
    ¬ call.Clashes system.mappings system.cache := by
  rintro ⟨phase, writes, unowned, mapping, member, owner, key⟩
  have goes := underway.calls thread call active
  have touches := touches_cursor underway.consistent active goes (by rw [phase]; rintro ⟨⟩)
  cases job : call.job with
  | read capacity =>
    rw [job] at writes
    cases writes
  | write data =>
    have requested := goes.job
    rw [job] at touches requested
    rw [goes.place.1] at unowned owner
    rw [Call.key, goes.place.2] at unowned key
    obtain ⟨unmapped, unread⟩ := compatible data call.offset _ requested touches
      fun owned => unowned (underway.owns _ owned)
    obtain ⟨entry, present, rfl⟩ := List.mem_map.mp member
    cases underway.held entry present with
    | inl early => exact unmapped entry.2 (List.mem_map.mpr ⟨entry, early, rfl⟩) owner key
    | inr later =>
      cases later with
      | inl writable =>
        have owned := owns_of_writable underway.consistent.good member writable
        rw [owner, key] at owned
        exact unowned owned
      | inr reader =>
        obtain ⟨capacity, place, requestedRead, touchesRead⟩ := reader
        rw [key] at touchesRead
        exact unread capacity place requestedRead touchesRead

theorem mapped_issued (consistent : Consistent system) (active : system.calls[thread]? = some call)
    (goes : Issued branch node length issued call) {mapping : DaxPageMapping}
    (holding : call.mapping? = some mapping) :
    mapping.flags.write ∨ ∃ capacity place, issued (.read capacity) place ∧
      (Job.read capacity).Touches length place mapping.key.2 := by
  obtain ⟨-, -, key, flags⟩ := (consistent.calls thread call active).holds mapping holding
  have loops : call.phase ≠ .measure := by
    intro phase
    simp [Call.mapping?, phase] at holding
  have touches := touches_cursor consistent active goes loops
  have requested := goes.job
  rw [flags, key]
  cases job : call.job with
  | read capacity =>
    rw [job] at touches requested
    exact .inr ⟨capacity, call.offset, requested, touches⟩
  | write data => exact .inl rfl

variable [Std.LawfulEqOrd Identity] [DecidableEq Identity]
  [LawfulForkableStore World Store Identity]

theorem ends_advance_issued (opened : Opened branch node length system)
    (small : length < Word64.bound) (inRange : InRange length issued)
    (active : system.calls[thread]? = some call) (goes : Issued branch node length issued call)
    (free : ¬ call.Clashes system.mappings system.cache) :
    Ends call.advance system.cache fun result _ => FailsOnlyByIo result := by
  by_cases loops : call.phase = .measure
  · simp only [Call.advance, loops]
    exact ends_measure_io opened small inRange goes
  · have open' : system.cache.opened call.branch call.node ≠ 0 := by
      rw [goes.place.1, goes.place.2]
      exact opened.opened
    exact (ends_advance_clash opened.consistent active loops open').mono fun _ _ ends => ends.2 free

variable [FileMaker World Store]

theorem AlwaysReturns.not_clashes
    (always : AlwaysReturns issued branch node length system)
    (opened : Opened branch node length system)
    (active : system.calls[thread]? = some call) (place : call.branch = branch ∧ call.node = node) :
    ¬ call.Clashes system.mappings system.cache := by
  intro clash
  have open' : system.cache.opened call.branch call.node ≠ 0 := by
    rw [place.1, place.2]
    exact opened.opened
  obtain ⟨progress, cache, executed⟩ := always.exec active
  exact ((ends_advance_clash opened.consistent active (by rw [clash.1]; rintro ⟨⟩)
    open').of_exec executed).1 clash progress rfl

variable [LawfulFileMaker World Store Identity]

theorem Opened.of_frame {claim : CacheBranchId → PageKey → Prop} {action : Action}
    (opened : Opened branch node length system)
    (frame : Frame claim system.cache (system.step action).1.cache)
    (stays : ∀ branch, action ≠ .removeBranch branch) :
    Opened branch node length (system.step action).1 := by
  obtain ⟨consistent, step⟩ := simulated system opened.consistent action
  obtain ⟨files, bytes, live, present, size⟩ := opened.file
  obtain ⟨later, liveLater, kept⟩ := step.outlived stays branch files live
  obtain ⟨bytesLater, presentLater, same⟩ := kept node bytes present
  exact ⟨consistent, by rw [frame.opened]; exact opened.opened,
    later, bytesLater, liveLater, presentLater, same.trans size⟩

theorem Opened.begin (opened : Opened branch node length system) (thread : Thread)
    (job : Job) (owner : CacheBranchId) (file offset : Nat) :
    Opened branch node length (system.step (.begin thread job owner file offset)).1 := by
  refine opened.of_frame (?_ : Frame unclaimed _ _) fun _ => by rintro ⟨⟩
  rw [cache_begin]
  exact Std.Refl.refl _

theorem Opened.advance (opened : Opened branch node length system) (thread : Thread) :
    Opened branch node length (system.step (.advance thread)).1 := by
  cases active : system.calls[thread]? with
  | none =>
    rw [step_advance_idle active]
    exact opened
  | some call => exact opened.of_frame (frame_advance active) fun _ => by rintro ⟨⟩

theorem Underway.advance (underway : Underway first branch node length issued system)
    (compatible : first.Compatible branch node length issued) (small : length < Word64.bound)
    (inRange : InRange length issued) (served : system.cache.serves branch node = true) :
    Underway first branch node length issued (system.step (.advance thread)).1 ∧
      system.Returns length (.advance thread) := by
  have opened := underway.toOpened.advance thread
  cases active : system.calls[thread]? with
  | none =>
    refine ⟨?_, fun call found => by rw [active] at found; cases found⟩
    rw [step_advance_idle active]
    exact underway
  | some call =>
    have goes := underway.calls thread call active
    have ended := (ends_advance_issued underway.toOpened small inRange active goes
      (underway.not_clashes compatible active)).and
      (ends_advance_outcome underway.toOpened active goes)
    have frame := frame_advance active
    cases executed : call.advance.exec system.cache with
    | mk result cache =>
      obtain ⟨fails, outcome⟩ := ended.of_exec executed
      cases result with
      | error error =>
        obtain ⟨io, rfl⟩ := fails error rfl
        rw [← goes.place.1, ← goes.place.2] at served
        exact absurd rfl ((ends_advance_calm underway.consistent served active).of_exec executed io)
      | ok progress =>
        have outcome := outcome progress rfl
        cases progress with
        | running next =>
          have stepped := step_running active executed
          rw [stepped] at opened frame
          refine ⟨?_, fun _ _ => .inl (by rw [stepped])⟩
          rw [stepped]
          refine ⟨opened, fun key owned => frame.owns _ key (underway.owns key owned), ?_, ?_⟩
          · intro entry member
            cases mem_of_mem_passOn member with
            | inl older => exact underway.held entry older
            | inr new =>
              exact .inr (mapped_issued opened.consistent ExtTreeMap.getElem?_insert_self
                outcome new)
          · intro other otherCall found
            rw [ExtTreeMap.getElem?_insert] at found
            split at found
            next =>
              cases found
              exact outcome
            next => exact underway.calls other otherCall found
        | finished reply =>
          have stepped := step_finished active executed
          rw [stepped] at opened frame
          refine ⟨?_, fun other found => .inr ?_⟩
          · rw [stepped]
            refine ⟨opened, fun key owned => frame.owns _ key (underway.owns key owned), ?_, ?_⟩
            · intro entry member
              exact underway.held entry ((mem_of_mem_passOn member).resolve_right (by rintro ⟨⟩))
            · intro other otherCall found
              rw [TreeMap.getElem?_erase_ite] at found
              split at found
              next => cases found
              next => exact underway.calls other otherCall found
          · cases active.symm.trans found
            rw [stepped]
            exact outcome

theorem Underway.begin (underway : Underway first branch node length issued system)
    (thread : Thread) {job : Job} {offset : Nat} (requested : issued job offset) :
    Underway first branch node length issued
      (system.step (.begin thread job branch node offset)).1 := by
  have opened := underway.toOpened.begin thread job branch node offset
  cases active : system.calls[thread]? with
  | some call =>
    have stepped : system.step (.begin thread job branch node offset) = (system, .refused) := by
      simp only [System.step, System.begin, active]
    rw [stepped]
    exact underway
  | none =>
    have stepped : system.step (.begin thread job branch node offset) =
        ({ system with calls := system.calls.insert thread (Call.new job branch node offset) },
          .running) := by
      simp only [System.step, System.begin, active]
    rw [stepped] at opened ⊢
    refine ⟨opened, underway.owns, underway.held, fun other otherCall found => ?_⟩
    rw [ExtTreeMap.getElem?_insert] at found
    split at found
    next =>
      cases found
      refine ⟨⟨rfl, rfl⟩, requested, rfl, fun capacity _ => ?_⟩
      simp [Call.new, Call.stored]
    next => exact underway.calls other otherCall found

/-- Compatible calls return with full counts in every run in which the host and the stores serve
them. -/
theorem Underway.returns (underway : Underway first branch node length issued system)
    (compatible : first.Compatible branch node length issued) (small : length < Word64.bound)
    (inRange : InRange length issued) {actions : List Action}
    (issues : ∀ action ∈ actions, Issues issued branch node action)
    (served : Admitted (fun system action => (system.step action).1) (Serves branch node) system
      actions) :
    Admitted (fun system action => (system.step action).1) (Returns length) system actions := by
  induction actions generalizing system with
  | nil => trivial
  | cons action rest ih =>
    have requested := issues action List.mem_cons_self
    have later := fun other member => issues other (List.mem_cons_of_mem action member)
    cases action with
    | begin thread job owner file offset =>
      obtain ⟨rfl, rfl, known⟩ := requested
      exact ⟨trivial, ih (underway.begin thread known) later served.2⟩
    | advance thread =>
      obtain ⟨next, returns⟩ := underway.advance compatible small inRange served.1
      exact ⟨returns, ih next later served.2⟩
    | _ => cases requested

/-!
## Calls that meet
-/

/-- A thread has come to a page that it is about to map, and has taken nothing on its way that
matters to the page. -/
structure ComesTo (issued : Job → Nat → Prop) (branch : CacheBranchId) (node length page : Nat)
    (thread : Thread) (job : Job) (others : List DaxPageMapping)
    (before after : System World Store Identity) : Prop where
  always : AlwaysReturns issued branch node length after
  opened : Opened branch node length after
  call : ∃ next, after.calls[thread]? = some next ∧ next.phase = .map ∧ next.job = job ∧
    (next.branch = branch ∧ next.node = node) ∧ pageOf next.cursor = page
  calls : ∀ other : Thread, other ≠ thread → after.calls[other]? = before.calls[other]?
  owns : after.cache.Owns branch (node, page) → before.cache.Owns branch (node, page)
  mappings : after.mappings.Perm others

/-- A call comes to every page that is ahead of it. -/
theorem comesTo_ahead (always : AlwaysReturns issued branch node length system)
    (opened : Opened branch node length system) (active : system.calls[thread]? = some call)
    (loops : call.phase ≠ .measure) (place : call.branch = branch ∧ call.node = node)
    {others : List DaxPageMapping} (counted : system.mappings.Perm (call.mapping?.toList ++ others))
    {page : Nat} (ahead : call.Ahead page) :
    ∃ after, ComesTo issued branch node length page thread call.job others system after := by
  induction left : call.stepsLeft using Nat.strong_induction_on generalizing system call with
  | _ left ih =>
    subst left
    by_cases here : call.phase = .map ∧ page = pageOf call.cursor
    · obtain ⟨phase, rfl⟩ := here
      refine ⟨system, always, opened, ⟨call, active, phase, rfl, place, rfl⟩,
        fun _ _ => rfl, id, ?_⟩
      simpa [Call.mapping?, phase] using counted
    have inside := ((opened.consistent.calls thread call active).started loops).2.1
    have placed : call.Placed := by
      unfold Call.Placed
      split
      next phase => exact absurd phase loops
      next => exact inside
    have shortens := Call.ends_advance_shortens placed system.cache
    have frame := frame_advance active
    have owned := fun mapping named =>
      ((opened.consistent.calls thread call active).holds mapping named).1
    obtain ⟨progress, cache, executed⟩ := always.exec active
    have leads := Call.next_of_ok executed
    cases progress with
    | finished reply => exact absurd ahead (leads.not_ahead loops page)
    | running next =>
      obtain ⟨loopsNext, sameJob, sameBranch, sameNode, -, aheadNext⟩ := leads.ahead loops
      have stepped := congrArg Prod.fst (step_running active executed)
      have activeNext : (system.step (.advance thread)).1.calls[thread]? = some next := by
        rw [stepped]
        exact ExtTreeMap.getElem?_insert_self
      have countedNext : (system.step (.advance thread)).1.mappings.Perm
          (next.mapping?.toList ++ others) := by
        rw [stepped]
        exact mappings_passOn owned (fun _ _ => mapping_of_running executed) counted
      obtain ⟨after, comes⟩ := ih next.stepsLeft (shortens.of_exec executed _ rfl).2
        (always.step (.advance thread) trivial) (opened.advance thread) activeNext loopsNext
        ⟨sameBranch.trans place.1, sameNode.trans place.2⟩ countedNext
        ((aheadNext page).mpr ⟨ahead, fun phase same => here ⟨phase, same⟩⟩) rfl
      rw [sameJob] at comes
      refine ⟨after, comes.always, comes.opened, comes.call, fun other different => ?_,
        fun ownedAfter => ?_, comes.mappings⟩
      · rw [comes.calls other different, stepped, ExtTreeMap.getElem?_insert]
        simp [different.symm]
      · -- the step makes no other page exclusive than the one that it is at
        refine (frame.claimed branch _ (comes.owns ownedAfter)).resolve_right ?_
        rintro ⟨phase, -, -, key⟩
        exact here ⟨phase, congrArg Prod.snd key⟩

theorem comesTo_new (always : AlwaysReturns issued branch node length system)
    (opened : Opened branch node length system) (idle : system.calls[thread]? = none) {job : Job}
    {offset page : Nat} (requested : issued job offset) (touches : job.Touches length offset page) :
    ∃ after, ComesTo issued branch node length page thread job system.mappings system after := by
  let call : Call DaxPageMapping := Call.new job branch node offset
  let begun := (system.step (.begin thread job branch node offset)).1
  have started : begun = { system with calls := system.calls.insert thread call } := by
    simp only [begun, call, System.step, System.begin, idle]
  have active : begun.calls[thread]? = some call := by
    rw [started]
    exact ExtTreeMap.getElem?_insert_self
  have openedBegun := opened.begin thread job branch node offset
  have alwaysBegun := always.step (.begin thread job branch node offset) ⟨rfl, rfl, requested⟩
  obtain ⟨progress, cache, executed⟩ := alwaysBegun.exec active
  let next : Call DaxPageMapping := { call with stop := job.stop length offset, phase := .map }
  have looped : { call with stop := job.stop length offset }.loop = .running next :=
    if_pos touches.2.1
  obtain rfl : progress = .running next := by
    have measured := (ends_measure_stop openedBegun ⟨rfl, rfl⟩).of_exec executed progress rfl
    rcases measured with went | ⟨nothing, -⟩
    · exact went.trans looped
    · exact absurd touches.2.1 (by rw [show job.stop length offset = offset from nothing]; omega)
  have stepped := congrArg Prod.fst (step_running active executed)
  have activeNext : (begun.step (.advance thread)).1.calls[thread]? = some next := by
    rw [stepped]
    exact ExtTreeMap.getElem?_insert_self
  have counted : (begun.step (.advance thread)).1.mappings.Perm
      (next.mapping?.toList ++ system.mappings) := by
    rw [stepped, started]
    exact List.Perm.refl _
  have frame := frame_advance active
  obtain ⟨after, comes⟩ := comesTo_ahead (alwaysBegun.step (.advance thread) trivial)
    (openedBegun.advance thread) activeNext ((by rintro ⟨⟩) : next.phase ≠ .measure) ⟨rfl, rfl⟩
    counted ⟨touches.1, touches.2.2.2, touches.2.2.1⟩
  refine ⟨after, comes.always, comes.opened, comes.call, fun other different => ?_, fun owned => ?_,
    comes.mappings⟩
  · rw [comes.calls other different, stepped, started]
    simp [ExtTreeMap.getElem?_insert, different.symm]
  · refine (frame.claimed branch _ (comes.owns owned)).elim (fun before => ?_) ?_
    · rwa [started] at before
    · rintro ⟨⟨⟩, -⟩

/-- No page that a `write` of the set touches is busy. -/
theorem AlwaysReturns.not_busy (always : AlwaysReturns issued branch node length system)
    (opened : Opened branch node length system) (idle : system.calls[thread]? = none)
    {data : List UInt8} {offset page : Nat} (requested : issued (.write data) offset)
    (touches : (Job.write data).Touches length offset page) :
    ¬ Busy system.mappings system.cache branch (node, page) := by
  rintro ⟨unowned, mapping, member, owner, key⟩
  obtain ⟨after, comes⟩ := comesTo_new always opened idle requested touches
  obtain ⟨next, active, phase, job, place, rfl⟩ := comes.call
  refine comes.always.not_clashes comes.opened active place ⟨phase, by rw [job]; rfl, ?_, mapping,
    comes.mappings.mem_iff.mpr member, owner.trans place.1.symm, key.trans ?_⟩
  · rw [Call.key, place.1, place.2]
    exact fun owned => unowned (comes.owns owned)
  · rw [Call.key, place.2]

theorem compatible_of_returns (always : AlwaysReturns issued branch node length system)
    (opened : Opened branch node length system) (idle : system.calls = ∅) :
    system.Compatible branch node length issued := by
  have unused : ∀ thread : Thread, system.calls[thread]? = none := by
    intro thread
    rw [idle]
    exact ExtTreeMap.getElem?_empty
  intro data offset page requested touches unowned
  constructor
  · intro mapping member owner key
    exact always.not_busy opened (unused 0) requested touches ⟨unowned, mapping, member, owner, key⟩
  · intro capacity place requestedRead touchesRead
    -- the `read` comes to the page and maps it, and then the `write` finds it busy
    obtain ⟨after, comes⟩ := comesTo_new always opened (unused 0) requestedRead touchesRead
    obtain ⟨call, active, phase, job, located, rfl⟩ := comes.call
    obtain ⟨progress, cache, executed⟩ := comes.always.exec active
    have leads := Call.next_of_ok executed
    simp only [Call.Next, phase] at leads
    obtain ⟨mapping, rfl⟩ := leads
    have stepped := congrArg Prod.fst (step_running active executed)
    have openedNext := comes.opened.advance 0
    have alwaysNext := comes.always.step (.advance 0) trivial
    have frame := frame_advance active
    have activeNext : (after.step (.advance 0)).1.calls[(0 : Thread)]? =
        some { call with phase := .copy mapping } := by
      rw [stepped]
      exact ExtTreeMap.getElem?_insert_self
    obtain ⟨member, owner, key, -⟩ :=
      (openedNext.consistent.calls 0 _ activeNext).holds mapping rfl
    have free : (after.step (.advance 0)).1.calls[(1 : Thread)]? = none := by
      rw [stepped, ExtTreeMap.getElem?_insert, if_neg (by decide), comes.calls 1 (by decide),
        unused 1]
    refine alwaysNext.not_busy openedNext free requested touches ⟨fun owned => ?_, mapping,
      mem_mappings member, owner.trans located.1, key.trans ?_⟩
    · cases frame.claimed _ _ owned with
      | inl before => exact unowned (comes.owns before)
      | inr claimed =>
        have writes := claimed.2.1
        rw [job] at writes
        cases writes
    · rw [located.2]

end System

variable {World Store Identity : Type} [Ord Identity] [Std.TransOrd Identity]
  [Std.LawfulEqOrd Identity] [DecidableEq Identity] [ForkableNodeStore World Store Identity]
  [FileView Store] [IdentityLedger World Identity] [StoreLedger World Store]
  [LawfulForkableStore World Store Identity] [FileMaker World Store]
  [LawfulFileMaker World Store Identity]

namespace TwoPages

open Redox

def owned : List Action :=
  actions ++ .begin 0 (.write [1]) 1 2 0 :: List.replicate 4 (.advance 0)

def meeting (job : Job) (offset : Nat) : Prop :=
  (job = .read 1 ∨ job = .write [2]) ∧ offset = 0

def turns : List Action :=
  [.begin 0 (.read 1) 1 2 0, .begin 1 (.write [2]) 1 2 0] ++
    (List.replicate 4 [.advance 0, .advance 1]).flatten

/-- A thread has mapped a page to read it, and another one is about to map it for writing. -/
def beside : List Action :=
  [.begin 0 (.read 1) 1 2 0, .advance 0, .advance 0, .begin 1 (.write [1]) 1 2 0, .advance 1]

end TwoPages

end Minidox.Cache
