import Minidox.Fuse.Requests

/-!
# Requests stay in their frames

A request is read up to its declared length only, whatever its operation makes of its body, and
every reply starts with a header that describes it.
-/

set_option autoImplicit false

namespace Minidox.Fuse

open Foundation Attempt

/-!
## The declared length
-/

section Declared

variable {State α : Type}

/-- The part of a request that its header declares, without the header. -/
def bodyOf (request : List UInt8) : List UInt8 :=
  (request.take (headerOf request).len).drop InHeader.size

theorem exec_handleRequest (backend : Backend State) (request : List UInt8)
    (state : State × List Call) :
    (handleRequest backend request).exec state =
      if request.length < InHeader.size then (.ok [], state)
      else if Declared request (headerOf request) then
        (replyOr (headerOf request).unique
          (dispatch backend (headerOf request) (bodyOf request))).exec state
      else (.ok (replyError (headerOf request).unique EINVAL), state) := by
  have sum : InHeader.widths.sum = InHeader.size := rfl
  have header : InHeader.ofFields (Records.decode InHeader.widths request) = headerOf request := rfl
  simp only [handleRequest, exec_bind, exec_settle, readStruct, sum, require]
  by_cases short : request.length < InHeader.size
  · rw [if_pos short, if_neg (Nat.not_le.mpr short)]
    rfl
  · have enough : InHeader.size ≤ request.length := Nat.not_lt.mp short
    rw [if_neg short, if_pos enough]
    simp only [exec_pure, slice, require, exec_bind]
    rw [if_pos ⟨enough, Nat.le_refl _⟩]
    simp only [exec_pure, header]
    by_cases declared : Declared request (headerOf request)
    · have inside : InHeader.size ≤ (headerOf request).len ∧
          (headerOf request).len ≤ request.length := ⟨declared.2, declared.1⟩
      rw [if_pos declared, if_pos declared, exec_bind, exec_bind, if_pos inside]
      rfl
    · rw [if_neg declared, if_neg declared]
      rfl

theorem headerOf_congr {first second : List UInt8}
    (same : first.take InHeader.size = second.take InHeader.size) :
    headerOf first = headerOf second := by
  have enough : InHeader.widths.sum ≤ InHeader.size := Nat.le_refl _
  rw [headerOf, headerOf, ← Records.decode_take enough first, same, Records.decode_take enough]

/-- Two requests with one header that agree as far as it declares. -/
structure Agree (first second : List UInt8) : Prop where
  whole : InHeader.size ≤ first.length ∧ InHeader.size ≤ second.length
  header : first.take InHeader.size = second.take InHeader.size
  within : (headerOf first).len ≤ first.length ∧ (headerOf first).len ≤ second.length
  declared : first.take (headerOf first).len = second.take (headerOf first).len

theorem exec_agree {first second : List UInt8} (agree : Agree first second)
    (backend : Backend State) (state : State × List Call) :
    (handleRequest backend first).exec state = (handleRequest backend second).exec state := by
  have header := headerOf_congr agree.header
  have body : bodyOf first = bodyOf second := by
    rw [bodyOf, bodyOf, ← header, agree.declared]
  have declared : Declared first (headerOf first) ↔ Declared second (headerOf second) := by
    rw [← header]
    exact ⟨fun valid => ⟨agree.within.2, valid.2⟩, fun valid => ⟨agree.within.1, valid.2⟩⟩
  rw [exec_handleRequest, exec_handleRequest, if_neg (Nat.not_lt.mpr agree.whole.1),
    if_neg (Nat.not_lt.mpr agree.whole.2), header, body]
  refine if_congr ?_ rfl rfl
  rw [← header] at declared ⊢
  exact declared

end Declared

/-!
## Replies describe themselves
-/

def replyFields (reply : List UInt8) : List Nat := Records.decode [4, 4, 8] reply

def replyLen (reply : List UInt8) : Nat := (replyFields reply).getD 0 0

def replyErrno (reply : List UInt8) : BitVec 32 := BitVec.ofNat 32 ((replyFields reply).getD 1 0)

def replyUnique (reply : List UInt8) : Nat := (replyFields reply).getD 2 0

variable {unique : Nat}

theorem replyFields_outHeader (len : Nat) (error : BitVec 32) (word : unique < 2 ^ 64)
    (rest : List UInt8) :
    replyFields (outHeader len error unique ++ rest) = [len % 2 ^ 32, error.toNat, unique] := by
  have fields := Records.decode_encode_append_mod [(4, len), (4, error.toNat), (8, unique)] rest
  have number : error.toNat % 256 ^ 4 = error.toNat := Nat.mod_eq_of_lt error.isLt
  have echoed : unique % 256 ^ 8 = unique := Nat.mod_eq_of_lt word
  simp only [List.map_cons, List.map_nil, number, echoed] at fields
  exact fields

@[simp] theorem length_outHeader (len : Nat) (error : BitVec 32) (unique : Nat) :
    (outHeader len error unique).length = outHeaderSize := by
  simp [outHeader, outHeaderSize]

/-- The header of the reply has its number and, unless it is too long for it, its length. -/
structure Frame (unique : Nat) (reply : List UInt8) : Prop where
  whole : outHeaderSize ≤ reply.length
  unique : replyUnique reply = unique
  len : reply.length < 2 ^ 32 → replyLen reply = reply.length

theorem frame_outHeader {error : BitVec 32} (word : unique < 2 ^ 64) (rest : List UInt8) :
    Frame unique (outHeader (outHeaderSize + rest.length) error unique ++ rest) where
  whole := by
    rw [List.length_append, length_outHeader]
    omega
  unique := by
    rw [replyUnique, replyFields_outHeader _ _ word]
    rfl
  len short := by
    rw [List.length_append, length_outHeader] at short ⊢
    rw [replyLen, replyFields_outHeader _ _ word, List.getD_cons_zero, Nat.mod_eq_of_lt short]

theorem frame_dataReply (word : unique < 2 ^ 64) (data : List UInt8) :
    Frame unique (dataReply unique data) :=
  frame_outHeader word data

theorem frame_structReply (word : unique < 2 ^ 64) (fields : List (Nat × Nat)) :
    Frame unique (structReply unique fields) := by
  have framed := @frame_outHeader unique 0#32 word (Records.encode fields)
  rwa [Records.length_encode] at framed

theorem frame_replyError (word : unique < 2 ^ 64) (errno : BitVec 32) :
    Frame unique (replyError unique errno) := by
  have framed := @frame_outHeader unique (-errno.abs) word []
  rwa [List.append_nil] at framed

theorem errno_outHeader (len : Nat) (error : BitVec 32) (word : unique < 2 ^ 64)
    (rest : List UInt8) :
    replyErrno (outHeader len error unique ++ rest) = error := by
  rw [replyErrno, replyFields_outHeader _ _ word]
  exact (BitVec.ofNat_toNat 32 error).trans (BitVec.setWidth_eq error)

theorem abs_eq_zero_iff {errno : BitVec 32} : errno.abs = 0#32 ↔ errno = 0#32 := by
  unfold BitVec.abs
  split
  next => exact BitVec.neg_eq_zero_iff
  next => exact Iff.rfl

/-- A number that is not zero is reported as a negative one, the least number by itself. -/
theorem msb_neg_abs {errno : BitVec 32} (nonzero : errno ≠ 0#32) : (-errno.abs).msb = true := by
  cases Decidable.em (errno = BitVec.intMin 32) with
  | inl least =>
    subst least
    decide
  | inr other =>
    have positive : errno.abs.msb = false := by simp [BitVec.msb_abs, other]
    have inside : errno.abs ≠ BitVec.intMin 32 := by
      intro least
      rw [least] at positive
      exact absurd positive (by decide)
    simp [positive, inside, mt abs_eq_zero_iff.mp nonzero]

section Answers

variable {State : Type}

/-- What an operation answers: nothing to `FORGET` and `DESTROY`, else a reply of success whose
length fits into its header, unless it lists a directory. -/
def Answers (header : InHeader) (reply : List UInt8) : Prop :=
  (reply = [] ∧ (Opcode.ofCode header.opcode = .forget ∨ Opcode.ofCode header.opcode = .destroy)) ∨
    (Frame header.unique reply ∧ replyErrno reply = 0#32 ∧
      (Opcode.ofCode header.opcode ≠ .readdir → reply.length < 2 ^ 32))

variable {header : InHeader}

theorem answers_dataReply (word : header.unique < 2 ^ 64) {data : List UInt8}
    (short : Opcode.ofCode header.opcode ≠ .readdir → data.length ≤ maxBufferSize) :
    Answers header (dataReply header.unique data) := by
  refine .inr ⟨frame_dataReply word data, errno_outHeader _ _ word _, fun other => ?_⟩
  have bounded := short other
  rw [dataReply, List.length_append, length_outHeader]
  unfold outHeaderSize maxBufferSize at *
  omega

theorem width_entryOut (attr : FsNodeAttr) :
    ((entryOut attr).map Prod.fst).sum ≤ maxBufferSize := by
  simp [entryOut, attrFields, maxBufferSize]

theorem width_attrOut (attr : FsNodeAttr) :
    ((attrOut attr).map Prod.fst).sum ≤ maxBufferSize := by
  simp [attrOut, attrFields, maxBufferSize]

theorem width_openOut (fh : Nat) : ((openOut fh).map Prod.fst).sum ≤ maxBufferSize := by
  simp [openOut, maxBufferSize]

theorem width_writeOut (written : Nat) :
    ((writeOut written).map Prod.fst).sum ≤ maxBufferSize := by
  simp [writeOut, maxBufferSize]

theorem width_statfsOut : (statfsOut.map Prod.fst).sum ≤ maxBufferSize := by
  simp [statfsOut, maxBufferSize]

theorem width_initOut (maxReadahead flags maxBackground congestionThreshold maxWrite timeGran
    maxPages flags2 : Nat) :
    ((initOut maxReadahead flags maxBackground congestionThreshold maxWrite timeGran maxPages
      flags2).map Prod.fst).sum ≤ maxBufferSize := by
  simp [initOut, maxBufferSize]

theorem answers_structReply (word : header.unique < 2 ^ 64) {fields : List (Nat × Nat)}
    (short : (fields.map Prod.fst).sum ≤ maxBufferSize) :
    Answers header (structReply header.unique fields) := by
  refine .inr ⟨frame_structReply word fields, errno_outHeader _ _ word _, fun _ => ?_⟩
  rw [structReply, List.length_append, length_outHeader, Records.length_encode]
  unfold outHeaderSize maxBufferSize at *
  omega

theorem answers_emptyReply (word : header.unique < 2 ^ 64) :
    Answers header (emptyReply header.unique) :=
  answers_structReply word (Nat.zero_le _)

end Answers

/-!
## What a request asks for
-/

/-- A call of the backend that a request asks for, or the number with which it is refused. -/
abbrev Demand := Except (BitVec 32) Call

/-- What is asked for by a body that starts with a structure. -/
def demandStruct (widths : List Nat) (body : List UInt8)
    (demand : List Nat → List UInt8 → List Demand) : List Demand :=
  if widths.sum ≤ body.length then demand (Records.decode widths body) (body.drop widths.sum)
  else [.error EINVAL]

def demandRemovals : Nat → List UInt8 → List Demand
  | 0, _ => []
  | count + 1, body => demandStruct [8, 8] body fun mapping rest =>
    .ok (.removeMapping (mapping.getD 0 0) (mapping.getD 1 0)) :: demandRemovals count rest

/-- The name at the head of the body of `LOOKUP`, if it is one. -/
def nameOf (body : List UInt8) : Option String :=
  ((body.findIdx? fun byte => byte = 0).filter fun length => 0 < length).bind fun length =>
    String.fromUTF8? ⟨(body.take length).toArray⟩

/-- What a request asks for in turn. It fails with the first that is refused. -/
def demands (header : InHeader) (body : List UInt8) : List Demand :=
  match Opcode.ofCode header.opcode with
  | .lookup => (nameOf body).elim [.error EINVAL] fun name => [.ok (.lookup header.nodeid name)]
  | .getattr => [.ok (.getattr header.nodeid)]
  | .openFile | .opendir => [.ok (.openNode header.nodeid)]
  | .read => demandStruct readInWidths body fun input _ =>
    [.ok (.read header.nodeid (input.getD 1 0) (min (input.getD 2 0) maxBufferSize))]
  | .write => demandStruct readInWidths body fun input rest =>
    [.ok (.write header.nodeid (input.getD 1 0) (rest.take (input.getD 2 0)))]
  | .release | .releasedir => [.ok (.sync header.nodeid), .ok (.close header.nodeid)]
  | .fsync | .fsyncdir | .flush => [.ok (.sync header.nodeid)]
  | .init => demandStruct [4, 4, 4, 4] body fun input rest =>
    if input.getD 0 0 = 7 ∧ input.getD 3 0 &&& 2 ^ 30 ≠ 0 then
      demandStruct (4 :: List.replicate 11 4) rest fun _ _ => []
    else []
  | .readdir => demandStruct readInWidths body fun _ _ => [.ok (.entries header.nodeid)]
  | .setupmapping => demandStruct [8, 8, 8, 8, 8] body fun input _ =>
    [.ok (.setupMapping header.nodeid (input.getD 1 0) (input.getD 2 0)
      (decide (input.getD 3 0 &&& 1 ≠ 0)) (input.getD 4 0))]
  | .removemapping => demandStruct [4] body fun input rest =>
    demandRemovals (input.getD 0 0) rest
  | .statfs | .access | .forget | .destroy => []
  | .unknown => [.error ENOSYS]

section Demands

variable {State α β : Type}

/-- Whether the backend serves a call. -/
def Backend.answer (backend : Backend State) : Call → Attempt State FsError Unit
  | .lookup parent name => discard (backend.lookup parent name)
  | .getattr inode => discard (backend.getattr inode)
  | .openNode inode => discard (backend.openNode inode)
  | .close inode => discard (backend.close inode)
  | .read inode offset capacity => discard (backend.read inode offset capacity)
  | .write inode offset data => discard (backend.write inode offset data)
  | .sync inode => discard (backend.sync inode)
  | .entries inode => discard (backend.entries inode)
  | .setupMapping inode fileOffset len writable windowOffset =>
    discard (backend.setupMapping inode fileOffset len writable windowOffset)
  | .removeMapping windowOffset len => discard (backend.removeMapping windowOffset len)

/-- The number of the first demand that is not met. -/
def firstFailure (backend : Backend State) : List Demand → State → Option (BitVec 32)
  | [], _ => none
  | .error errno :: _, _ => some errno
  | .ok call :: rest, state =>
    match (backend.answer call).exec state with
    | (.ok (), after) => firstFailure backend rest after
    | (.error error, _) => some (error.rawOsError.getD EIO)

/-- `read` never claims to have filled more than its buffer. -/
def Backend.Bounded (backend : Backend State) : Prop :=
  ∀ inode offset capacity, Returns (fun result => result.2 ≤ capacity)
    (backend.read inode offset capacity)

/-- No index is out of range. The operation fails exactly when one of the demands is not met, and
with its number, and else returns a value with the property. -/
def Reports (backend : Backend State) (claim : α → Prop) (operation : FsM State α)
    (asked : List Demand) : Prop :=
  ∀ state calls, Ends operation (state, calls) fun result _ =>
    match result with
    | .ok value => firstFailure backend asked state = none ∧ claim value
    | .error (.failed error) =>
      firstFailure backend asked state = some (error.rawOsError.getD EIO)
    | .error .outOfRange => False

variable {backend : Backend State} {claim : β → Prop}

theorem reports_pure {value : β} (holds : claim value) :
    Reports backend claim (pure value : FsM State β) [] :=
  fun _ _ => ⟨rfl, holds⟩

theorem reports_throw (errno : BitVec 32) :
    Reports backend claim (throw (osError errno) : FsM State β) [.error errno] :=
  fun _ _ => rfl

theorem firstFailure_cons {call : Call} {operation : Attempt State FsError α}
    (answers : backend.answer call = discard operation) (asked : List Demand) (state : State) :
    Ends operation state fun result after => firstFailure backend (.ok call :: asked) state =
      match result with
      | .ok _ => firstFailure backend asked after
      | .error error => some (error.rawOsError.getD EIO) := by
  have answered : (discard operation).exec state =
      (operation >>= fun _ => pure ()).exec state := rfl
  rw [Ends, firstFailure, answers, answered, exec_bind]
  cases operation.exec state with
  | mk result after => cases result <;> rfl

theorem reports_perform_of {call : Call} {operation : Attempt State FsError α}
    {next : α → FsM State β} {asked : List Demand} {known : α → Prop}
    (answers : backend.answer call = discard operation) (returns : Returns known operation)
    (later : ∀ value, known value → Reports backend claim (next value) asked) :
    Reports backend claim (perform call operation >>= next) (.ok call :: asked) := by
  intro state calls
  simp only [perform, ends_bind, ends_modify, ends_within]
  refine ((firstFailure_cons answers asked state).and (returns state)).mono ?_
  rintro result after ⟨failure, returned⟩
  rw [failure]
  cases result with
  | ok value => exact later value (returned value rfl) after _
  | error error => rfl

theorem reports_perform {call : Call} {operation : Attempt State FsError α}
    {next : α → FsM State β} {asked : List Demand}
    (answers : backend.answer call = discard operation)
    (later : ∀ value, Reports backend claim (next value) asked) :
    Reports backend claim (perform call operation >>= next) (.ok call :: asked) :=
  reports_perform_of answers (fun _ => ends_of_forall fun _ _ _ _ => trivial) fun value _ =>
    later value

theorem reports_slice {start stop : Nat} {bytes : List UInt8} {next : List UInt8 → FsM State β}
    {asked : List Demand} (inside : start ≤ stop ∧ stop ≤ bytes.length)
    (later : Reports backend claim (next ((bytes.take stop).drop start)) asked) :
    Reports backend claim (slice start stop bytes >>= next) asked := by
  intro state calls
  simp only [slice, ends_bind, ends_require, ends_pure]
  exact ⟨fun _ => later state calls, fun outside => absurd inside outside⟩

theorem reports_readStruct {widths : List Nat} {body : List UInt8}
    {next : List Nat × List UInt8 → FsM State β} {demand : List Nat → List UInt8 → List Demand}
    (later : ∀ fields rest, Reports backend claim (next (fields, rest)) (demand fields rest)) :
    Reports backend claim (readStruct widths body >>= next) (demandStruct widths body demand) := by
  intro state calls
  simp only [readStruct, slice, ends_bind, ends_require, ends_pure]
  refine ⟨fun enough => ⟨fun _ => ?_, fun outside => absurd ⟨enough, le_rfl⟩ outside⟩,
    fun short => ?_⟩
  · rw [List.take_length, demandStruct, if_pos enough]
    exact later _ _ state calls
  · rw [demandStruct, if_neg short]
    rfl

theorem reports_orThrow {value : Option α} {next : α → FsM State β} {demand : α → List Demand}
    (later : ∀ found, value = some found → Reports backend claim (next found) (demand found)) :
    Reports backend claim (orThrow (osError EINVAL) value >>= next)
      (value.elim [.error EINVAL] demand) := by
  cases value with
  | none => exact fun _ _ => rfl
  | some found => exact later found rfl

theorem reports_lookupName {body : List UInt8} {next : String → FsM State β}
    {demand : String → List Demand}
    (later : ∀ name, Reports backend claim (next name) (demand name)) :
    Reports backend claim (lookupName body >>= next)
      ((nameOf body).elim [.error EINVAL] demand) := by
  have parts : (nameOf body).elim [.error EINVAL] demand =
      ((body.findIdx? fun byte => byte = 0).filter fun length => 0 < length).elim [.error EINVAL]
        fun length =>
          (String.fromUTF8? ⟨(body.take length).toArray⟩).elim [.error EINVAL] demand := by
    unfold nameOf
    cases (body.findIdx? fun byte => byte = 0).filter fun length => 0 < length <;> rfl
  rw [lookupName, bind_assoc, parts]
  refine reports_orThrow fun length found => ?_
  obtain ⟨first, _⟩ := Option.filter_eq_some_iff.mp found
  rw [bind_assoc]
  exact reports_slice ⟨Nat.zero_le _, Nat.le_of_lt (List.findIdx?_eq_some_iff_getElem.mp first).1⟩
    (reports_orThrow fun name _ => later name)

theorem reports_removeMappings {reply : β} (holds : claim reply) (count : Nat)
    (body : List UInt8) :
    Reports backend claim (removeMappings backend count body >>= fun _ => pure reply)
      (demandRemovals count body) := by
  induction count generalizing body with
  | zero => exact reports_pure holds
  | succ count ih =>
    rw [removeMappings, bind_assoc]
    refine reports_readStruct fun mapping rest => ?_
    dsimp only
    rw [bind_assoc]
    exact reports_perform rfl fun _ => ih rest

section Dispatch

variable {header : InHeader} (word : header.unique < 2 ^ 64)

include word

theorem reports_releaseFile : Reports backend (Answers header) (releaseFile backend header)
    [.ok (.sync header.nodeid), .ok (.close header.nodeid)] := by
  intro state calls
  have sync : backend.answer (.sync header.nodeid) = discard (backend.sync header.nodeid) := rfl
  have close : backend.answer (.close header.nodeid) = discard (backend.close header.nodeid) := rfl
  simp only [releaseFile, perform, ends_bind, ends_settle, ends_modify, ends_within, ends_ofExcept]
  refine (firstFailure_cons sync [.ok (.close header.nodeid)] state).mono
    fun first synced failed => ?_
  rw [failed]
  refine (firstFailure_cons close [] synced).mono fun second closed failedLater => ?_
  rw [failedLater]
  cases first with
  | error error => rfl
  | ok value =>
    cases second with
    | error error => rfl
    | ok value => exact ⟨rfl, answers_emptyReply word⟩

theorem reports_dispatch (bounded : backend.Bounded) (body : List UInt8) :
    Reports backend (Answers header) (dispatch backend header body) (demands header body) := by
  have empty : Reports backend (Answers header) (pure (emptyReply header.unique)) [] :=
    reports_pure (answers_emptyReply word)
  have struct {fields : List (Nat × Nat)} (short : (fields.map Prod.fst).sum ≤ maxBufferSize) :
      Reports backend (Answers header) (pure (structReply header.unique fields)) [] :=
    reports_pure (answers_structReply word short)
  unfold dispatch demands
  cases code : Opcode.ofCode header.opcode with
  | lookup =>
    exact reports_lookupName fun _ => reports_perform rfl fun attr => struct (width_entryOut attr)
  | getattr => exact reports_perform rfl fun attr => struct (width_attrOut attr)
  | openFile => exact reports_perform rfl fun _ => struct (width_openOut _)
  | opendir => exact reports_perform rfl fun _ => struct (width_openOut _)
  | read =>
    refine reports_readStruct fun input rest => reports_perform_of rfl (bounded _ _ _) ?_
    intro result below
    refine reports_slice ⟨Nat.zero_le _, ?_⟩ ?_
    · rw [ByteMap.length_read]
      exact below
    refine reports_pure (answers_dataReply word fun _ => ?_)
    rw [List.drop_zero, List.length_take, ByteMap.length_read]
    omega
  | write =>
    refine reports_readStruct fun input rest =>
      reports_slice ⟨Nat.zero_le _, Nat.min_le_right _ _⟩ ?_
    rw [List.drop_zero, ← List.take_take, List.take_length]
    exact reports_perform rfl fun written => struct (width_writeOut written)
  | release => exact reports_releaseFile word
  | releasedir => exact reports_releaseFile word
  | fsync => exact reports_perform rfl fun _ => empty
  | fsyncdir => exact reports_perform rfl fun _ => empty
  | flush => exact reports_perform rfl fun _ => empty
  | statfs => exact struct width_statfsOut
  | init =>
    refine reports_readStruct fun input rest => ?_
    simp only [initFlags2]
    split
    next other =>
      rw [if_neg fun both => other both.1]
      exact struct (width_initOut ..)
    next version =>
      rw [not_not] at version
      by_cases extended : input.getD 3 0 &&& 2 ^ 30 ≠ 0
      · rw [if_pos extended, if_pos ⟨version, extended⟩, bind_assoc]
        exact reports_readStruct fun _ _ => struct (width_initOut ..)
      · rw [if_neg extended, if_neg fun both => extended both.2]
        exact struct (width_initOut ..)
  | readdir =>
    exact reports_readStruct fun _ _ => reports_perform rfl fun _ =>
      reports_pure (answers_dataReply word fun other => absurd code other)
  | access => exact empty
  | setupmapping => exact reports_readStruct fun _ _ => reports_perform rfl fun _ => empty
  | removemapping =>
    exact reports_readStruct fun _ _ => reports_removeMappings (answers_emptyReply word) _ _
  | forget => exact reports_pure (.inl ⟨rfl, .inl code⟩)
  | destroy => exact reports_pure (.inl ⟨rfl, .inr code⟩)
  | unknown => exact reports_throw ENOSYS

end Dispatch

end Demands

/-!
## Every request
-/

section Every

variable {State : Type}

theorem unique_headerOf (request : List UInt8) : (headerOf request).unique < 2 ^ 64 := by
  have bound := Words.ofLittleEndian_lt (((request.drop 4).drop 4).take 8)
  have width : (((request.drop 4).drop 4).take 8).length ≤ 8 := List.length_take_le ..
  exact Nat.lt_of_lt_of_le bound (Nat.pow_le_pow_right (by decide) width)

/-- The error number with which a request fails, by itself or in the backend. -/
def failure (backend : Backend State) (request : List UInt8) (state : State) :
    Option (BitVec 32) :=
  if request.length < InHeader.size then none
  else if Declared request (headerOf request) then
    firstFailure backend (demands (headerOf request) (bodyOf request)) state
  else some EINVAL

/-- What a request is answered, if it fails with some number or does not. -/
structure Handled (request : List UInt8) (failed : Option (BitVec 32)) (reply : List UInt8) :
    Prop where
  silent : reply = [] → request.length < InHeader.size ∨
    Opcode.ofCode (headerOf request).opcode = .forget ∨
    Opcode.ofCode (headerOf request).opcode = .destroy
  echoed : reply ≠ [] → replyUnique reply = (headerOf request).unique
  measured : reply ≠ [] →
    (Opcode.ofCode (headerOf request).opcode = .readdir → reply.length < 2 ^ 32) →
    replyLen reply = reply.length
  succeeds : failed = none → reply ≠ [] → replyErrno reply = 0#32
  fails : ∀ errno, failed = some errno →
    reply.length = outHeaderSize ∧ (errno ≠ 0#32 → (replyErrno reply).toInt < 0) ∧
      (errno = 0#32 → replyErrno reply = 0#32)

theorem ne_nil_of_frame {reply : List UInt8} (frame : Frame unique reply) :
    reply ≠ [] := by
  intro empty
  have whole := frame.whole
  rw [empty] at whole
  exact absurd whole (by decide)

theorem handled_short {request : List UInt8} (short : request.length < InHeader.size) :
    Handled request none [] where
  silent _ := .inl short
  echoed filled := absurd rfl filled
  measured filled := absurd rfl filled
  succeeds _ filled := absurd rfl filled
  fails _ failed := by cases failed

theorem handled_answer {request reply : List UInt8} (answers : Answers (headerOf request) reply) :
    Handled request none reply := by
  cases answers with
  | inl silent =>
    obtain ⟨rfl, code⟩ := silent
    exact ⟨fun _ => .inr code, fun filled => absurd rfl filled, fun filled => absurd rfl filled,
      fun _ filled => absurd rfl filled, (by rintro _ ⟨⟩)⟩
  | inr answered =>
    obtain ⟨frame, success, short⟩ := answered
    refine ⟨fun empty => absurd empty (ne_nil_of_frame frame), fun _ => frame.unique,
      fun _ listed => frame.len ?_, fun _ _ => success, (by rintro _ ⟨⟩)⟩
    cases Decidable.em (Opcode.ofCode (headerOf request).opcode = .readdir) with
    | inl directory => exact listed directory
    | inr other => exact short other

/-- The number is made positive once more before it is negated. -/
theorem handled_failure (request : List UInt8) {errno number : BitVec 32}
    (zero : errno = 0#32 ↔ number = 0#32) :
    Handled request (some number) (replyError (headerOf request).unique errno) := by
  have word := unique_headerOf request
  have frame := frame_replyError word errno
  have size : (replyError (headerOf request).unique errno).length = outHeaderSize :=
    length_outHeader ..
  have error := errno_outHeader outHeaderSize (-errno.abs) word []
  rw [List.append_nil] at error
  refine ⟨fun empty => absurd empty (ne_nil_of_frame frame), fun _ => frame.unique,
    fun _ _ => frame.len (by rw [size]; decide), (by rintro ⟨⟩),
    fun given same => ⟨size, fun other => ?_, fun none => ?_⟩⟩
  · cases same
    have negative := msb_neg_abs (mt zero.mp other)
    rw [BitVec.msb_eq_toInt] at negative
    rw [replyError, error]
    exact of_decide_eq_true negative
  · cases same
    rw [replyError, error, zero.mpr none]
    decide

theorem ends_replyOr {backend : Backend State} (bounded : backend.Bounded) {request : List UInt8}
    (whole : ¬ request.length < InHeader.size) (declared : Declared request (headerOf request))
    (state : State) (calls : List Call) :
    Ends (replyOr (headerOf request).unique
        (dispatch backend (headerOf request) (bodyOf request))) (state, calls) fun result _ =>
      ∃ reply, result = .ok reply ∧ Handled request (failure backend request state) reply := by
  simp only [replyOr, ends_bind, ends_settle]
  refine (reports_dispatch (unique_headerOf request) bounded (bodyOf request) state calls).mono ?_
  intro result after reports
  rw [failure, if_neg whole, if_pos declared]
  cases result with
  | ok reply =>
    rw [reports.1]
    exact ⟨reply, rfl, handled_answer reports.2⟩
  | error stop =>
    cases stop with
    | failed error =>
      rw [show firstFailure backend _ state = _ from reports]
      exact ⟨_, rfl, handled_failure request abs_eq_zero_iff⟩
    | outOfRange => exact absurd reports id

/-- Whatever a guest sends, no index is out of range and a reply is returned. What stands behind
the declared length changes neither the calls of the backend nor the reply, and a reply says how
long it is, what it answers and, by a negative number, that the request has failed. A backend that
fails with the number zero is reported as a success without a body. -/
theorem requests_are_framed (backend : Backend State) (bounded : backend.Bounded) :
    (∀ request state calls, Ends (handleRequest backend request) (state, calls) fun result _ =>
      ∃ reply, result = .ok reply ∧ Handled request (failure backend request state) reply) ∧
    ∀ first second, Agree first second → ∀ state,
      (handleRequest backend first).exec state = (handleRequest backend second).exec state := by
  refine ⟨fun request state calls => ?_, fun _ _ agree => exec_agree agree backend⟩
  rw [Ends, exec_handleRequest]
  by_cases short : request.length < InHeader.size
  · rw [if_pos short, failure, if_pos short]
    exact ⟨[], rfl, handled_short short⟩
  · rw [if_neg short]
    by_cases declared : Declared request (headerOf request)
    · rw [if_pos declared]
      exact ends_replyOr bounded short declared state calls
    · rw [if_neg declared, failure, if_neg short, if_neg declared]
      exact ⟨_, rfl, handled_failure request Iff.rfl⟩

end Every

/-- A backend without any file, whose errors all have one number. -/
def failing (errno : BitVec 32) : Backend Unit where
  lookup _ _ := throw { rawOsError := some errno }
  getattr _ := throw { rawOsError := some errno }
  openNode _ := throw { rawOsError := some errno }
  close _ := throw { rawOsError := some errno }
  read _ _ _ := throw { rawOsError := some errno }
  write _ _ _ := throw { rawOsError := some errno }
  sync _ := throw { rawOsError := some errno }
  entries _ := throw { rawOsError := some errno }
  setupMapping _ _ _ _ _ := throw { rawOsError := some errno }
  removeMapping _ _ := throw { rawOsError := some errno }

/-- `GETATTR` of node 1, with some bytes behind its declared length. -/
def getattrRequest (behind : List UInt8) : List UInt8 :=
  Records.encode [(4, 40), (4, 3), (8, 7), (8, 1), (4, 0), (4, 0), (4, 0), (4, 0)] ++ behind

theorem bounded_failing (errno : BitVec 32) : (failing errno).Bounded :=
  fun _ _ _ _ => not_ok

/-- A node that cannot be read fails with a negative number, which bytes behind the declared length
do not change. -/
theorem missing_node_is_reported :
    (Ends (handleRequest (failing EIO) (getattrRequest [1, 2])) ((), []) fun result _ =>
      ∃ reply, result = .ok reply ∧ reply.length = 16 ∧ replyUnique reply = 7 ∧
        (replyErrno reply).toInt < 0) ∧
    (handleRequest (failing EIO) (getattrRequest [])).exec ((), []) =
      (handleRequest (failing EIO) (getattrRequest [1, 2])).exec ((), []) := by
  have framed := requests_are_framed (failing EIO) (bounded_failing EIO)
  refine ⟨(framed.1 (getattrRequest [1, 2]) () []).mono fun _ _ handled => ?_,
    framed.2 _ _ ⟨by decide, by decide, by decide, by decide⟩ _⟩
  obtain ⟨reply, returned, handled⟩ := handled
  have fails := handled.fails EIO (by decide)
  have filled : reply ≠ [] := fun empty => by
    have size := fails.1
    rw [empty] at size
    exact absurd size (by decide)
  exact ⟨reply, returned, fails.1, handled.echoed filled, fails.2.1 (by decide)⟩

/-- An error with the number zero is a failure whose reply does not have a negative number. -/
theorem zero_error_is_no_failure :
    (failing 0#32).Bounded ∧
    ((failing 0#32).getattr 1).exec () = (.error { rawOsError := some 0#32 }, ()) ∧
    (Ends (handleRequest (failing 0#32) (getattrRequest [])) ((), []) fun result _ =>
      ∃ reply, result = .ok reply ∧ reply.length = 16 ∧ (replyErrno reply).toInt = 0) :=
  ⟨bounded_failing 0#32, rfl, _, rfl, by decide, by decide⟩

end Minidox.Fuse
