import Minidox.Ram.Durable
import Minidox.Ram.Mappings

/-!
# Copies of sparse files

A generation is persisted by copying the data of its file and skipping the holes. Before every round
of the loop the copy agrees with the source up to the offset and is zero behind it, and the holes
that a round skips are zero in the source as well.
-/

set_option autoImplicit false

namespace Minidox.Ram

open Foundation Attempt

/-- Holes read as zeroes. What is data need not be different from zero. -/
def HostFile.Sparse (file : HostFile) : Prop :=
  ∀ position < file.len, file.isData position = false → file.bytes position = 0

namespace HostFile

variable {file : HostFile} {offset data errno position : Nat}

theorem zero_before_data (sparse : file.Sparse) (found : file.dataFrom offset = .ok data)
    (behind : offset ≤ position) (before : position < data) : file.bytes position = 0 := by
  unfold dataFrom at found
  split at found
  next start seek =>
    cases found
    obtain ⟨-, inside, holes⟩ := List.find?_range'_eq_some.mp seek
    have below := List.mem_range'_1.mp inside
    refine sparse position (by omega) ?_
    rw [← Bool.not_eq_true']
    exact holes position behind before
  next => cases found

theorem le_of_dataFrom (found : file.dataFrom offset = .ok data) : offset ≤ data := by
  unfold dataFrom at found
  split at found
  next start seek =>
    cases found
    exact (List.mem_range'_1.mp (List.find?_range'_eq_some.mp seek).2.1).1
  next => cases found

theorem zero_without_data (sparse : file.Sparse) (none : file.dataFrom offset = .error errno)
    (behind : offset ≤ position) (inside : position < file.len) : file.bytes position = 0 := by
  unfold dataFrom at none
  split at none
  next => cases none
  next seek =>
    refine sparse position inside ?_
    rw [← Bool.not_eq_true']
    exact List.find?_range'_eq_none.mp seek position behind (by omega)

end HostFile

section Copies

variable {source destination : Inode} {len : Nat}

/-!
## Ranges
-/

structure Copied (source destination : Inode) (start stop : Nat) (before after : RamHost) :
    Prop where
  kept : after.files source = before.files source
  size : (after.files destination).len = (before.files destination).len
  bytes : ∀ position, after.contents destination position =
    if start ≤ position ∧ position < stop then before.contents source position
    else before.contents destination position

theorem copied_refl (start : Nat) {stop : Nat} (empty : stop ≤ start) {before after : RamHost}
    (files : after.files = before.files) : Copied source destination start stop before after where
  kept := congrFun files source
  size := by rw [files]
  bytes position := by
    rw [if_neg (by omega), RamHost.contents, files]
    rfl

theorem Copied.step (apart : source ≠ destination) {start count stop : Nat}
    {before middle after : RamHost} (files : middle.files = before.files)
    (inside : start + count ≤ stop) (within : stop ≤ (before.files destination).len)
    (rest : Copied source destination (start + count) stop
      (middle.modifyFile destination (·.write start ((before.contents source).read start count)))
      after) : Copied source destination start stop before after := by
  generalize data : (before.contents source).read start count = bytes at rest
  have length : bytes.length = count := by rw [← data, ByteMap.length_read]
  have kept := RamHost.files_modifyFile_of_ne middle apart (·.write start bytes)
  have written := RamHost.files_modifyFile middle destination (·.write start bytes)
  rw [files] at kept written
  refine ⟨rest.kept.trans kept, ?_, fun position => ?_⟩
  · rw [rest.size, written, HostFile.write, length]
    exact Nat.max_eq_left (by omega)
  · have patched : ((before.files destination).write start bytes).bytes =
        (before.contents destination).write start bytes := rfl
    rw [rest.bytes, RamHost.contents, RamHost.contents, kept, written, patched]
    by_cases later : start + count ≤ position ∧ position < stop
    · rw [if_pos later, if_pos ⟨by omega, later.2⟩]
      rfl
    · rw [if_neg later]
      by_cases now : start ≤ position ∧ position < start + count
      · have place : start + (position - start) = position := by omega
        rw [if_pos ⟨now.1, by omega⟩, ByteMap.write_inside now.1 (by omega), ← data,
          ByteMap.getD_read _ (by omega), place]
      · rw [if_neg (by omega), ByteMap.write_outside (by omega)]

theorem copyGenerationRange_fuel {fuel other offset limit : Nat} (enough : limit - offset ≤ fuel)
    (others : limit - offset ≤ other) : copyGenerationRange source destination fuel offset limit =
      copyGenerationRange source destination other offset limit := by
  have positive : 0 < copyBufferSize := by decide
  induction fuel generalizing other offset with
  | zero =>
    cases other with
    | zero => rfl
    | succ other => rw [copyGenerationRange, copyGenerationRange, if_neg (by omega)]
  | succ fuel ih =>
    cases other with
    | zero => rw [copyGenerationRange, copyGenerationRange, if_neg (by omega)]
    | succ other =>
      rw [copyGenerationRange, copyGenerationRange]
      by_cases more : offset < limit
      · have rest := @ih other (offset + min (limit - offset) copyBufferSize) (by omega) (by omega)
        rw [if_pos more, if_pos more]
        dsimp only
        rw [rest]
      · rw [if_neg more, if_neg more]

theorem files_of_answered {before after : RamHost} (answered : Answered before after) :
    after.files = before.files := by
  rw [answered]

theorem ends_copyGenerationRange (apart : source ≠ destination) {fuel offset limit : Nat}
    (enough : limit - offset ≤ fuel) {host : RamHost}
    (within : limit ≤ (host.files destination).len) :
    Ends (copyGenerationRange source destination fuel offset limit) host fun result after =>
      result = .ok () → Copied source destination offset limit host after := by
  induction fuel generalizing offset host with
  | zero => exact fun _ => copied_refl offset (by omega) rfl
  | succ fuel ih =>
    rw [copyGenerationRange, ends_ite]
    refine ⟨fun more => ?_, fun last _ => copied_refl offset (by omega) rfl⟩
    simp only [ends_bind]
    refine (moves_call _ host).mono fun result first answered => ?_
    cases result with
    | error error => exact fun failed => by cases failed
    | ok value =>
      simp only [ends_get, ends_require]
      refine ⟨fun whole => ?_, fun _ failed => by cases failed⟩
      refine (moves_call _ first).mono fun result second replied => ?_
      cases result with
      | error error => exact fun failed => by cases failed
      | ok value =>
        have files := (files_of_answered replied).trans (files_of_answered answered)
        have same : first.contents source = host.contents source := by
          rw [RamHost.contents, files_of_answered answered]
          rfl
        have some : 0 < min (limit - offset) copyBufferSize := by
          unfold copyBufferSize
          omega
        simp only [ends_modify, same]
        refine (ih (by omega) ?_).mono fun _ _ copied returned =>
          (copied returned).step apart files (by omega) within
        rw [RamHost.files_modifyFile, HostFile.write, files]
        exact Nat.le_trans within (Nat.le_max_left ..)

/-!
## Extents
-/

structure Synced (source destination : Inode) (len offset : Nat) (original : HostFile)
    (host : RamHost) : Prop where
  kept : host.files source = original
  size : (host.files destination).len = len
  done : ∀ position < offset, position < len → host.contents destination position =
    original.bytes position
  rest : ∀ position, offset ≤ position → host.contents destination position = 0

def Complete (destination : Inode) (original : HostFile) (host : RamHost) : Prop :=
  (host.files destination).len = original.len ∧
    ∀ position < original.len, host.contents destination position = original.bytes position

variable {offset : Nat} {original : HostFile} {host : RamHost}

theorem Synced.answered (synced : Synced source destination len offset original host)
    {after : RamHost} (answered : Answered host after) :
    Synced source destination len offset original after := by
  have files := files_of_answered answered
  refine ⟨?_, ?_, ?_, ?_⟩
  · rw [files, synced.kept]
  · rw [files, synced.size]
  all_goals
    unfold RamHost.contents
    rw [files]
  · exact synced.done
  · exact synced.rest

theorem Synced.complete (synced : Synced source destination original.len offset original host)
    (holes : ∀ position, offset ≤ position → position < original.len →
      original.bytes position = 0) : Complete destination original host := by
  refine ⟨synced.size, fun position inside => ?_⟩
  cases Nat.lt_or_ge position offset with
  | inl before => exact synced.done position before inside
  | inr behind => rw [synced.rest position behind, holes position behind inside]

theorem Synced.copied {start stop : Nat} {after : RamHost}
    (synced : Synced source destination len offset original host)
    (holes : ∀ {position}, offset ≤ position → position < start → original.bytes position = 0)
    (behind : offset ≤ start) (ordered : start ≤ stop)
    (copied : Copied source destination start stop host after) :
    Synced source destination len stop original after := by
  refine ⟨copied.kept.trans synced.kept, copied.size.trans synced.size,
      fun position before inside => ?_,
    fun position later => ?_⟩
  · rw [copied.bytes]
    by_cases extent : start ≤ position
    · rw [if_pos ⟨extent, before⟩, RamHost.contents, synced.kept]
    · rw [if_neg (by omega)]
      cases Nat.lt_or_ge position offset with
      | inl earlier => exact synced.done position earlier inside
      | inr hole => rw [synced.rest position hole, holes hole (by omega)]
  · rw [copied.bytes, if_neg (by omega)]
    exact synced.rest position (by omega)

def Advanced (source destination : Inode) (original : HostFile) (next : Option Nat)
    (host : RamHost) : Prop :=
  match next with
  | some next => Synced source destination original.len next original host
  | none => Complete destination original host

theorem ends_lseekData :
    Ends (lseekData source offset) host fun result after => Answered host after ∧
      ∃ answer, result = .ok answer ∧ (answer = (host.files source).dataFrom offset ∨
        ∃ errno, answer = .error errno ∧ errno ≠ enxio) := by
  simp only [lseekData, ends_bind]
  refine (ends_nextReply host).mono fun result after ended => ?_
  obtain ⟨answered, reply, rfl⟩ := ended
  simp only [ends_get]
  rw [files_of_answered answered]
  cases reply with
  | done => exact ⟨answered, _, rfl, .inl rfl⟩
  | short count => exact ⟨answered, _, rfl, .inl rfl⟩
  | failed errno =>
    refine ⟨answered, _, rfl, ?_⟩
    split
    next => exact .inl rfl
    next other => exact .inr ⟨errno, rfl, other⟩

/-- What a round reaches from a copy that is in order up to an offset. -/
theorem ends_copyExtent (apart : source ≠ destination) (sparse : original.Sparse)
    (synced : Synced source destination original.len offset original host) :
    Ends (copyExtent source destination original.len offset) host fun result after =>
      ∀ next, result = .ok next → Advanced source destination original next after := by
  simp only [copyExtent, ends_bind]
  refine ends_lseekData.mono fun result first ended => ?_
  obtain ⟨answered, answer, rfl, known⟩ := ended
  have syncedFirst := synced.answered answered
  rw [synced.kept] at known
  cases answer with
  | error errno =>
    simp only [ends_ite]
    refine ⟨fun missing => ?_, fun other => ⟨fun _ => ?_, fun _ => not_ok⟩⟩
    · obtain found | ⟨errno, same, other⟩ := known
      · intro next returned
        cases returned
        exact syncedFirst.complete fun _ behind inside =>
          HostFile.zero_without_data sparse found.symm behind inside
      · cases same
        exact absurd missing other
    · rw [ends_bind]
      refine (ends_copyGenerationRange apart (by omega) (Nat.le_of_eq syncedFirst.size.symm)).mono
        fun result after copied => ?_
      cases result with
      | error error => exact not_ok
      | ok value =>
        intro next returned
        cases returned
        refine ⟨(copied rfl).size.trans syncedFirst.size, fun position inside => ?_⟩
        change after.contents destination position = _
        rw [(copied rfl).bytes, if_pos ⟨Nat.zero_le _, inside⟩, RamHost.contents, syncedFirst.kept]
  | ok data =>
    have found : original.dataFrom offset = .ok data := by
      obtain found | ⟨errno, other, -⟩ := known
      · exact found.symm
      · cases other
    have holes {position : Nat} (behind : offset ≤ position) (before : position < data) :=
      HostFile.zero_before_data sparse found behind before
    simp only [ends_ite]
    refine ⟨fun past => ?_, fun inside => ?_⟩
    · intro next returned
      cases returned
      exact syncedFirst.complete fun _ behind inside => holes behind (by omega)
    · simp only [ends_bind]
      refine (moves_call _ first).mono fun result second replied => ?_
      cases result with
      | error error => exact not_ok
      | ok value =>
        have syncedSecond := syncedFirst.answered replied
        simp only [ends_get, ends_require]
        refine ⟨fun extent => ?_, fun _ => not_ok⟩
        refine (ends_copyGenerationRange apart (Nat.le_refl _) ?_).mono
          fun result after copied => ?_
        · rw [syncedSecond.size]
          exact Nat.min_le_right ..
        cases result with
        | error error => exact not_ok
        | ok value =>
          intro next returned
          cases returned
          have start := HostFile.le_of_dataFrom found
          exact syncedSecond.copied holes start (by omega) (copied rfl)

theorem returns_copyExtent (source destination : Inode) (len offset : Nat) :
    Returns (fun next => ∀ further, next = some further → offset < further)
      (copyExtent source destination len offset) := by
  have last : Returns (fun next => ∀ further, next = some further → offset < further)
      (pure none : HostM (Option Nat)) := returns_pure fun _ none => by cases none
  have answers : Returns (fun answer => ∀ data, answer = .ok data → offset ≤ data)
      (lseekData source offset) := by
    intro host
    refine ends_lseekData.mono fun result _ ended value returned data same => ?_
    obtain ⟨-, answer, rfl, known⟩ := ended
    cases returned
    cases same
    obtain found | ⟨errno, other, -⟩ := known
    · exact HostFile.le_of_dataFrom found.symm
    · cases other
  refine returns_bind_of answers fun answer known => ?_
  cases answer with
  | error errno =>
    dsimp only
    split
    next => exact last
    next =>
      split
      next => exact returns_bind fun _ => last
      next => exact returns_throw _
  | ok data =>
    have behind := known data rfl
    dsimp only
    split
    next => exact last
    next =>
      refine returns_bind fun _ => returns_bind fun host => ?_
      refine returns_bind_of (returns_require _ _) fun _ extent => returns_bind fun _ => ?_
      refine returns_pure fun further same => ?_
      cases same
      omega

theorem copyExtents_fuel {fuel other offset : Nat} (enough : len - offset ≤ fuel)
    (others : len - offset ≤ other) : copyExtents source destination len fuel offset =
      copyExtents source destination len other offset := by
  induction fuel generalizing other offset with
  | zero =>
    cases other with
    | zero => rfl
    | succ other => rw [copyExtents, copyExtents, if_neg (by omega)]
  | succ fuel ih =>
    cases other with
    | zero => rw [copyExtents, copyExtents, if_neg (by omega)]
    | succ other =>
      rw [copyExtents, copyExtents]
      by_cases more : offset < len
      · rw [if_pos more, if_pos more]
        refine bind_congr_of_returns (returns_copyExtent _ _ _ _) fun next further => ?_
        cases next with
        | none => rfl
        | some next =>
          have behind := further next rfl
          exact ih (by omega) (by omega)
      · rw [if_neg more, if_neg more]

theorem ends_copyExtents (apart : source ≠ destination) (sparse : original.Sparse) {fuel : Nat}
    (enough : original.len - offset ≤ fuel)
    (synced : Synced source destination original.len offset original host) :
    Ends (copyExtents source destination original.len fuel offset) host fun result after =>
      result = .ok () → Complete destination original after := by
  induction fuel generalizing offset host with
  | zero => exact fun _ => synced.complete fun _ behind inside => by omega
  | succ fuel ih =>
    rw [copyExtents, ends_ite]
    refine ⟨fun more => ?_, fun last _ => synced.complete fun _ behind inside => by omega⟩
    rw [ends_bind]
    refine ((ends_copyExtent apart sparse synced).and (returns_copyExtent _ _ _ _ _)).mono
      fun result after ended => ?_
    cases result with
    | error error => exact fun failed => by cases failed
    | ok next =>
      have round := ended.1 next rfl
      cases next with
      | none => exact fun _ => round
      | some next =>
        have further := ended.2 _ rfl next rfl
        exact ih (by omega) round

/-- A generation is persisted as a whole, whatever parts of its file are data and whichever host
calls fail: both loops end, since each of their rounds moves on, and a copy that is reported has the
length and the bytes of the source. -/
theorem generation_is_copied (apart : source ≠ destination) (host : RamHost)
    (sparse : (host.files source).Sparse) (fresh : host.files destination = .empty) :
    (∀ fuel offset limit, limit - offset ≤ fuel →
      copyGenerationRange source destination fuel offset limit =
        copyGenerationRange source destination (limit - offset) offset limit) ∧
    (∀ fuel, (host.files source).len ≤ fuel →
      copyExtents source destination (host.files source).len fuel 0 =
        copyExtents source destination (host.files source).len (host.files source).len 0) ∧
    (∀ len offset, Returns (fun next => ∀ further, next = some further → offset < further)
      (copyExtent source destination len offset)) ∧
    Ends (cloneOrCopyGeneration source destination (host.files source).len) host
      fun result after => result = .ok () → Complete destination (host.files source) after := by
  refine ⟨fun _ _ _ enough => copyGenerationRange_fuel enough (Nat.le_refl _),
    fun _ enough => copyExtents_fuel (by omega) (by omega), returns_copyExtent _ _, ?_⟩
  simp only [cloneOrCopyGeneration, ends_bind]
  refine (ends_nextReply host).mono fun result first ended => ?_
  obtain ⟨answered, reply, rfl⟩ := ended
  have files := files_of_answered answered
  have cloned : Complete destination (host.files source)
      (first.modifyFile destination fun _ => first.files source) := by
    rw [Complete, RamHost.contents, RamHost.files_modifyFile, files]
    exact ⟨rfl, fun _ _ => rfl⟩
  cases reply with
  | done => exact fun _ => cloned
  | short count => exact fun _ => cloned
  | failed errno =>
    simp only [setLen, ends_bind]
    refine (moves_call _ first).mono fun result second replied => ?_
    cases result with
    | error error => exact fun failed => by cases failed
    | ok value =>
      have same := (files_of_answered replied).trans files
      simp only [ends_modify]
      refine ends_copyExtents apart sparse (by omega) ⟨?_, ?_, fun _ before => by omega, ?_⟩
      · rw [RamHost.files_modifyFile_of_ne _ apart, same]
      · rw [RamHost.files_modifyFile]
        rfl
      · intro position _
        rw [RamHost.contents, RamHost.files_modifyFile, same, fresh]
        simp [HostFile.setLen, HostFile.empty]

end Copies

/-- A file of three bytes with a hole on both sides of its only byte of data, on a host that
cannot clone. -/
def holedHost : RamHost :=
  { RamHost.initial with
    files := Function.update (fun _ => .empty) 0
      { len := 3, bytes := ByteMap.zero.write 1 [7], isData := fun position => position == 1 }
    replies := [.failed 95] }

theorem holed_generation_is_copied :
    ((cloneOrCopyGeneration 0 1 3).exec holedHost).1.isOk ∧
    (((cloneOrCopyGeneration 0 1 3).exec holedHost).2.files 1).len = 3 ∧
    ((cloneOrCopyGeneration 0 1 3).exec holedHost).2.contents 1 1 = 7 := by
  have sparse : (holedHost.files 0).Sparse := by
    intro position inside hole
    have elsewhere : position ≠ 1 := fun same => by
      rw [same] at hole
      cases hole
    exact ByteMap.write_outside (by simp; omega)
  have returned : ((cloneOrCopyGeneration 0 1 3).exec holedHost).1.isOk = true := by decide +kernel
  have copied := (generation_is_copied (Nat.zero_ne_one) holedHost sparse rfl).2.2.2
  have complete := copied (by
    generalize ((cloneOrCopyGeneration 0 1 3).exec holedHost).1 = result at returned
    cases result with
    | ok value => rfl
    | error error => cases returned)
  exact ⟨returned, complete.1, complete.2 1 (by decide)⟩

end Minidox.Ram
