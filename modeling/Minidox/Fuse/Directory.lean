import Minidox.Foundation.Records

/-!
# Directory listings

`directory_reply` of `virtio-devices/src/in_process_fs.rs`. A reply holds as many records as
fit into the size of the request. Every record carries the offset at which the next request
goes on.
-/

set_option autoImplicit false

namespace Minidox.Fuse

open Foundation

/-- `ROOT_ID`. -/
def rootId : UInt64 := 1

/-- `DT_DIR`. -/
def dtDir : Nat := 4

/-- `DT_REG`. -/
def dtReg : Nat := 8

/-- A name is the bytes of a string. -/
structure FsDirEntry where
  inode : UInt64
  name : List UInt8
  directory : Bool
  deriving DecidableEq, Repr

structure Dirent where
  inode : Nat
  offset : Nat
  nameLen : Nat
  kind : Nat
  deriving DecidableEq, Repr

namespace Dirent

/-- `size_of::<Dirent>()`. -/
def size : Nat := 24

def bytes (dirent : Dirent) : List UInt8 :=
  Records.encode [(8, dirent.inode), (8, dirent.offset), (4, dirent.nameLen), (4, dirent.kind)]

end Dirent

/-- The length of a record with a name, rounded up to a multiple of eight. -/
def recordLen (nameLen : Nat) : Nat := (Dirent.size + nameLen + 7) / 8 * 8

def FsDirEntry.dirent (index : Nat) (entry : FsDirEntry) : Dirent where
  inode := entry.inode.toNat
  offset := index + 1
  nameLen := entry.name.length
  kind := if entry.directory then dtDir else dtReg

/-- A dirent, its name, and zeros up to the length of the record. -/
def FsDirEntry.record (index : Nat) (entry : FsDirEntry) : List UInt8 :=
  (entry.dirent index).bytes ++ entry.name ++
    List.replicate (recordLen entry.name.length - Dirent.size - entry.name.length) 0

/-- The loop of `directory_reply`, which ends at the first record that does not fit. -/
def appendRecords (size : Nat) : Nat → List FsDirEntry → List UInt8 → List UInt8
  | _, [], output => output
  | index, entry :: rest, output =>
    if output.length + recordLen entry.name.length > size then output
    else appendRecords size (index + 1) rest (output ++ entry.record index)

/-- The entries of a directory with the two that every directory has. -/
def allEntries (parent : UInt64) (entries : List FsDirEntry) : List FsDirEntry :=
  { inode := parent, name := [46], directory := true } ::
    { inode := rootId, name := [46, 46], directory := true } :: entries

def directoryReply (parent : UInt64) (offset size : Nat) (entries : List FsDirEntry) : List UInt8 :=
  appendRecords size offset ((allEntries parent entries).drop offset) []

/-!
## Reading a listing
-/

/-- A record that a reader finds: its dirent and its name. -/
structure Found where
  dirent : Dirent
  name : List UInt8
  deriving DecidableEq, Repr

/-- The whole records that a reply is made of. A record has at least one byte. -/
def decodeRecords : Nat → List UInt8 → Option (List Found)
  | _, [] => some []
  | 0, _ :: _ => none
  | fuel + 1, byte :: rest =>
    match Records.decode [8, 8, 4, 4] (byte :: rest) with
    | [inode, offset, nameLen, kind] =>
      if recordLen nameLen ≤ (byte :: rest).length then
        (decodeRecords fuel ((byte :: rest).drop (recordLen nameLen))).map
          ({ dirent := { inode, offset, nameLen, kind }
             name := ((byte :: rest).drop Dirent.size).take nameLen } :: ·)
      else none
    | _ => none

def decodeReply (reply : List UInt8) : Option (List Found) := decodeRecords reply.length reply

def Found.entry (found : Found) : FsDirEntry where
  inode := UInt64.ofNat found.dirent.inode
  name := found.name
  directory := decide (found.dirent.kind = dtDir)

/-- Requests from an offset on, each of which goes on where the last record of the reply before
says, until a reply is empty. -/
def readDirectory (reply : Nat → List UInt8) : Nat → Nat → Option (List Found)
  | 0, _ => none
  | requests + 1, offset => do
    let records ← decodeReply (reply offset)
    match records.getLast? with
    | none => some []
    | some last => do
      let others ← readDirectory reply requests last.dirent.offset
      some (records ++ others)

/-!
## Records
-/

def FsDirEntry.found (index : Nat) (entry : FsDirEntry) : Found where
  dirent := entry.dirent index
  name := entry.name

theorem entry_found (index : Nat) (entry : FsDirEntry) : (entry.found index).entry = entry := by
  obtain ⟨inode, name, directory⟩ := entry
  cases directory with
  | true => simp [FsDirEntry.found, FsDirEntry.dirent, Found.entry]
  | false => simp [FsDirEntry.found, FsDirEntry.dirent, Found.entry, dtReg, dtDir]

theorem recordLen_bounds (nameLen : Nat) :
    Dirent.size + nameLen ≤ recordLen nameLen ∧ recordLen nameLen % 8 = 0 := by
  unfold recordLen Dirent.size
  omega

@[simp] theorem length_bytes (dirent : Dirent) : dirent.bytes.length = Dirent.size := by
  simp [Dirent.bytes, Dirent.size]

@[simp] theorem length_record (index : Nat) (entry : FsDirEntry) :
    (entry.record index).length = recordLen entry.name.length := by
  have bounds := recordLen_bounds entry.name.length
  simp only [FsDirEntry.record, List.length_append, length_bytes, List.length_replicate]
  omega

structure FsDirEntry.Fits (index : Nat) (entry : FsDirEntry) : Prop where
  offset : index + 1 < 2 ^ 64
  name : entry.name.length < 2 ^ 32

theorem decode_bytes {dirent : Dirent} (inode : dirent.inode < 2 ^ 64)
    (offset : dirent.offset < 2 ^ 64) (nameLen : dirent.nameLen < 2 ^ 32)
    (kind : dirent.kind < 2 ^ 32) (rest : List UInt8) :
    Records.decode [8, 8, 4, 4] (dirent.bytes ++ rest) =
      [dirent.inode, dirent.offset, dirent.nameLen, dirent.kind] := by
  have fits : ∀ field ∈ [(8, dirent.inode), (8, dirent.offset), (4, dirent.nameLen),
      (4, dirent.kind)], field.2 < 256 ^ field.1 := by
    simp only [List.forall_mem_cons]
    exact ⟨inode, offset, nameLen, kind, fun _ member => (by cases member)⟩
  exact Records.decode_encode_append fits rest

theorem decodeRecords_nonempty {fuel : Nat} {bytes : List UInt8} (nonempty : bytes ≠ []) :
    decodeRecords (fuel + 1) bytes = match Records.decode [8, 8, 4, 4] bytes with
      | [inode, offset, nameLen, kind] =>
        if recordLen nameLen ≤ bytes.length then
          (decodeRecords fuel (bytes.drop (recordLen nameLen))).map
            ({ dirent := { inode, offset, nameLen, kind }
               name := (bytes.drop Dirent.size).take nameLen } :: ·)
        else none
      | _ => none := by
  cases bytes with
  | nil => exact absurd rfl nonempty
  | cons byte rest => rfl

theorem decodeRecords_record {index fuel : Nat} {entry : FsDirEntry} (fits : entry.Fits index)
    (rest : List UInt8) :
    decodeRecords (fuel + 1) (entry.record index ++ rest) =
      (decodeRecords fuel rest).map (entry.found index :: ·) := by
  have bounds := recordLen_bounds entry.name.length
  have length := length_record index entry
  have kind : (entry.dirent index).kind < 2 ^ 32 := by
    unfold FsDirEntry.dirent
    dsimp only
    split
    next => decide
    next => decide
  have fields : Records.decode [8, 8, 4, 4] (entry.record index ++ rest) =
      [(entry.dirent index).inode, (entry.dirent index).offset, (entry.dirent index).nameLen,
        (entry.dirent index).kind] := by
    unfold FsDirEntry.record
    rw [List.append_assoc, List.append_assoc]
    exact decode_bytes entry.inode.toNat_lt fits.offset fits.name kind _
  have nonempty : entry.record index ++ rest ≠ [] := by
    refine List.append_ne_nil_of_left_ne_nil (List.ne_nil_of_length_pos ?_) _
    unfold Dirent.size at bounds
    omega
  have name : ((entry.record index ++ rest).drop Dirent.size).take entry.name.length =
      entry.name := by
    unfold FsDirEntry.record
    rw [List.append_assoc, List.append_assoc, List.drop_left' (length_bytes _), List.take_left' rfl]
  rw [decodeRecords_nonempty nonempty, fields]
  dsimp only [FsDirEntry.dirent]
  rw [if_pos (by rw [List.length_append]; omega), List.drop_left' length, name]
  rfl

def foundFrom : Nat → List FsDirEntry → List Found
  | _, [] => []
  | index, entry :: rest => entry.found index :: foundFrom (index + 1) rest

def recordsFrom : Nat → List FsDirEntry → List UInt8
  | _, [] => []
  | index, entry :: rest => entry.record index ++ recordsFrom (index + 1) rest

def FitFrom (index : Nat) (entries : List FsDirEntry) : Prop :=
  index + entries.length < 2 ^ 64 ∧ ∀ entry ∈ entries, entry.name.length < 2 ^ 32

theorem decodeRecords_recordsFrom {index fuel : Nat} {entries : List FsDirEntry}
    (fit : FitFrom index entries) (enough : entries.length ≤ fuel) :
    decodeRecords fuel (recordsFrom index entries) = some (foundFrom index entries) := by
  induction entries generalizing index fuel with
  | nil =>
    cases fuel with
    | zero => rfl
    | succ fuel => rfl
  | cons entry rest ih =>
    obtain ⟨short, names⟩ := fit
    rw [List.length_cons] at short enough
    cases fuel with
    | zero => omega
    | succ fuel =>
      obtain ⟨here, others⟩ := List.forall_mem_cons.mp names
      rw [recordsFrom, decodeRecords_record ⟨by omega, here⟩, ih ⟨by omega, others⟩ (by omega)]
      rfl

theorem length_recordsFrom_ge (index : Nat) (entries : List FsDirEntry) :
    entries.length ≤ (recordsFrom index entries).length := by
  induction entries generalizing index with
  | nil => exact Nat.le_refl 0
  | cons entry rest ih =>
    have others := ih (index + 1)
    have bounds := recordLen_bounds entry.name.length
    rw [recordsFrom, List.length_append, length_record, List.length_cons]
    unfold Dirent.size at bounds
    omega

/-!
## Replies
-/

/-- A reply has the records of some entries, as many as fit. -/
theorem appendRecords_eq (size index : Nat) (entries : List FsDirEntry) (output : List UInt8)
    (short : output.length ≤ size) :
    ∃ count ≤ entries.length, appendRecords size index entries output =
        output ++ recordsFrom index (entries.take count) ∧
      (appendRecords size index entries output).length ≤ size ∧
      ∀ entry, entries.head? = some entry →
        output.length + recordLen entry.name.length ≤ size → 0 < count := by
  induction entries generalizing index output with
  | nil =>
    refine ⟨0, Nat.le_refl 0, ?_, short, fun _ first => (by cases first)⟩
    rw [appendRecords, List.take_nil, recordsFrom, List.append_nil]
  | cons entry rest ih =>
    rw [appendRecords]
    by_cases full : output.length + recordLen entry.name.length > size
    · rw [if_pos full]
      refine ⟨0, Nat.zero_le _, ?_, short, fun first head fits => ?_⟩
      · rw [List.take_zero, recordsFrom, List.append_nil]
      · cases head
        omega
    · rw [if_neg full]
      have more : (output ++ entry.record index).length ≤ size := by
        rw [List.length_append, length_record]
        omega
      obtain ⟨count, bounded, same, limited, _⟩ := ih (index + 1) _ more
      refine ⟨count + 1, Nat.succ_le_succ bounded, ?_, limited, fun _ _ _ => Nat.succ_pos count⟩
      rw [same, List.take_succ_cons, recordsFrom, List.append_assoc]

theorem length_recordsFrom_mod (index : Nat) (entries : List FsDirEntry) :
    (recordsFrom index entries).length % 8 = 0 := by
  induction entries generalizing index with
  | nil => rfl
  | cons entry rest ih =>
    have others := ih (index + 1)
    have bounds := recordLen_bounds entry.name.length
    rw [recordsFrom, List.length_append, length_record]
    omega

theorem foundFrom_append (index : Nat) (first second : List FsDirEntry) :
    foundFrom index (first ++ second) =
      foundFrom index first ++ foundFrom (index + first.length) second := by
  induction first generalizing index with
  | nil => rfl
  | cons entry rest ih =>
    rw [List.cons_append, foundFrom, foundFrom, ih, List.cons_append, List.length_cons,
      Nat.add_assoc, Nat.add_comm 1]

theorem map_entry_foundFrom (index : Nat) (entries : List FsDirEntry) :
    (foundFrom index entries).map Found.entry = entries := by
  induction entries generalizing index with
  | nil => rfl
  | cons entry rest ih => rw [foundFrom, List.map_cons, entry_found, ih]

theorem getLast?_foundFrom {index : Nat} {entries : List FsDirEntry} (nonempty : entries ≠ []) :
    ∃ last, (foundFrom index entries).getLast? = some last ∧
      last.dirent.offset = index + entries.length := by
  obtain ⟨front, entry, rfl⟩ := List.eq_nil_or_concat entries |>.resolve_left nonempty
  refine ⟨entry.found (index + front.length), ?_, ?_⟩
  · rw [List.concat_eq_append, foundFrom_append]
    exact List.getLast?_concat
  · simp [FsDirEntry.found, FsDirEntry.dirent, Nat.add_assoc]

section Listing

variable {parent : UInt64} {size : Nat} {entries : List FsDirEntry}

theorem fitFrom_drop (listed : entries.length + 2 < 2 ^ 64) (word : size < 2 ^ 32)
    (roomy : ∀ entry ∈ allEntries parent entries, recordLen entry.name.length ≤ size)
    (offset count : Nat) :
    FitFrom (min offset (entries.length + 2))
      (((allEntries parent entries).drop offset).take count) := by
  refine ⟨?_, fun entry member => ?_⟩
  · have length : (allEntries parent entries).length = entries.length + 2 := rfl
    rw [List.length_take, List.length_drop, length]
    omega
  · have bounds := recordLen_bounds entry.name.length
    have room := roomy entry (List.mem_of_mem_drop (List.mem_of_mem_take member))
    omega

/-- A reply is made of the records of the next entries, and of at least one while there are
entries left. -/
theorem directoryReply_eq (listed : entries.length + 2 < 2 ^ 64) (word : size < 2 ^ 32)
    (roomy : ∀ entry ∈ allEntries parent entries, recordLen entry.name.length ≤ size)
    (offset : Nat) :
    ∃ count ≤ entries.length + 2 - offset,
      (directoryReply parent offset size entries).length ≤ size ∧
      (directoryReply parent offset size entries).length % 8 = 0 ∧
      decodeReply (directoryReply parent offset size entries) =
        some (foundFrom offset (((allEntries parent entries).drop offset).take count)) ∧
      (offset < entries.length + 2 → 0 < count) := by
  have length : (allEntries parent entries).length = entries.length + 2 := rfl
  obtain ⟨count, bounded, same, limited, more⟩ := appendRecords_eq size offset
    ((allEntries parent entries).drop offset) [] (Nat.zero_le size)
  rw [List.nil_append] at same
  rw [List.length_drop, length] at bounded
  refine ⟨count, bounded, limited, ?_, ?_, fun left => ?_⟩
  · rw [directoryReply, same]
    exact length_recordsFrom_mod ..
  · rw [directoryReply, same, decodeReply]
    by_cases left : offset < entries.length + 2
    · have fit := fitFrom_drop listed word roomy offset count
      rw [Nat.min_eq_left (Nat.le_of_lt left)] at fit
      exact decodeRecords_recordsFrom fit (length_recordsFrom_ge ..)
    · rw [List.drop_eq_nil_of_le (by omega), List.take_nil]
      rfl
  · have inside : offset < (allEntries parent entries).length := left
    refine more (allEntries parent entries)[offset] ?_ ?_
    · rw [List.head?_drop]
      exact List.getElem?_eq_getElem inside
    · have room := roomy _ (List.getElem_mem inside)
      rw [List.length_nil]
      omega

theorem readDirectory_eq (listed : entries.length + 2 < 2 ^ 64) (word : size < 2 ^ 32)
    (roomy : ∀ entry ∈ allEntries parent entries, recordLen entry.name.length ≤ size)
    {requests offset : Nat} (enough : entries.length + 2 - offset < requests) :
    readDirectory (fun offset => directoryReply parent offset size entries) requests offset =
      some (foundFrom offset ((allEntries parent entries).drop offset)) := by
  have length : (allEntries parent entries).length = entries.length + 2 := rfl
  induction requests generalizing offset with
  | zero => omega
  | succ requests ih =>
    obtain ⟨count, bounded, _, _, decoded, more⟩ := directoryReply_eq listed word roomy offset
    rw [readDirectory, decoded]
    by_cases left : offset < entries.length + 2
    · have positive := more left
      have taken : (((allEntries parent entries).drop offset).take count).length = count := by
        rw [List.length_take, List.length_drop, length]
        omega
      have nonempty : ((allEntries parent entries).drop offset).take count ≠ [] :=
        List.ne_nil_of_length_pos (by omega)
      obtain ⟨last, final, next⟩ := @getLast?_foundFrom offset _ nonempty
      rw [taken] at next
      have joined := foundFrom_append offset (((allEntries parent entries).drop offset).take count)
        (((allEntries parent entries).drop offset).drop count)
      rw [List.take_append_drop, taken, List.drop_drop] at joined
      simp only [Option.bind_eq_bind, Option.bind_some, final]
      rw [next, ih (by omega), joined]
      rfl
    · rw [List.drop_eq_nil_of_le (by omega), List.take_nil]
      rfl

/-- Reading a directory page by page ends, and gives every entry once and in order. -/
theorem directory_is_read_once (listed : entries.length + 2 < 2 ^ 64) (word : size < 2 ^ 32)
    (roomy : ∀ entry ∈ allEntries parent entries, recordLen entry.name.length ≤ size) :
    (∀ offset, (directoryReply parent offset size entries).length ≤ size ∧
      (directoryReply parent offset size entries).length % 8 = 0 ∧
      (decodeReply (directoryReply parent offset size entries)).isSome) ∧
    ∃ records, records.map Found.entry = allEntries parent entries ∧
      ∀ requests, entries.length + 2 < requests →
        readDirectory (fun offset => directoryReply parent offset size entries) requests 0 =
          some records := by
  refine ⟨fun offset => ?_, foundFrom 0 (allEntries parent entries), ?_, fun requests enough => ?_⟩
  · obtain ⟨_, _, limited, aligned, decoded, _⟩ := directoryReply_eq listed word roomy offset
    exact ⟨limited, aligned, by rw [decoded]; rfl⟩
  · exact map_entry_foundFrom 0 _
  · exact readDirectory_eq listed word roomy enough

end Listing

/-- Two names of different lengths, in replies that have room for one record each. -/
theorem directory_is_read_in_small_replies :
    ∃ records, records.map Found.entry = allEntries 1 [⟨7, [97], false⟩,
        ⟨8, [98, 99, 100, 101, 102, 103, 104, 105, 106], true⟩] ∧
      ∀ requests, 4 < requests → readDirectory (fun offset => directoryReply 1 offset 40
        [⟨7, [97], false⟩, ⟨8, [98, 99, 100, 101, 102, 103, 104, 105, 106], true⟩]) requests 0 =
          some records :=
  (directory_is_read_once (by decide) (by decide) (by decide)).2

end Minidox.Fuse
