import Minidox.Cache.Basic
import Minidox.Foundation.PrivateMapping
import Minidox.Foundation.TreeMap

/-!
# Generation files

The host side of `minidox-vmm/src/ram.rs`: the counters of the module, the unlinked files
that hold RAM generations, and the directory of the generations that were made durable.
Every host call takes the next of the replies that the host still has to give.
-/

set_option autoImplicit false

namespace Minidox.Ram

open Foundation Attempt
open Cache (IoError)
open Std (ExtTreeMap)

/-- `RAM_PAGE_SIZE`. -/
def ramPageSize : Nat := 4096

/-- The errors of the module. `outOfRange` is not one of them: it stands for the panic of an
index behind the end of a vector. -/
inductive RamError where
  | outOfRange (index len : Nat)
  | backend (operation : String) (error : IoError)
  | invalidRamSize (len : Nat)
  | ramRange (offset len : Nat)
  | invalidDirtyPage (page pages : Nat)
  deriving DecidableEq, Repr

abbrev Inode := Nat

/-- A sparse file. Bytes outside of its data are holes. -/
structure HostFile where
  len : Nat
  bytes : ByteMap
  isData : Nat → Bool

namespace HostFile

def empty : HostFile where
  len := 0
  bytes := ByteMap.zero
  isData _ := false

def setLen (file : HostFile) (len : Nat) : HostFile where
  len
  bytes position := if position < min file.len len then file.bytes position else 0
  isData position := decide (position < min file.len len) && file.isData position

def write (file : HostFile) (offset : Nat) (data : List UInt8) : HostFile where
  len := max file.len (offset + data.length)
  bytes := file.bytes.write offset data
  isData position :=
    decide (offset ≤ position ∧ position < offset + data.length) || file.isData position

/-- `lseek` with `SEEK_DATA`. -/
def seekData (file : HostFile) (offset : Nat) : Option Nat :=
  (List.range' offset (file.len - offset)).find? file.isData

/-- `lseek` with `SEEK_HOLE`. There is a hole at the end of every file. -/
def seekHole (file : HostFile) (offset : Nat) : Nat :=
  ((List.range' offset (file.len - offset)).find? fun position => !file.isData position).getD
    file.len

end HostFile

/-- What the host answers to a call. Only writes can be short. -/
inductive HostReply where
  | done
  | short (count : Nat)
  | failed (errno : Nat)
  deriving DecidableEq, Repr

/-- The process and its host. The files `generation-N` are in `generations`. -/
structure RamHost where
  nextPageId : Nat
  nextGenerationId : Nat
  files : Inode → HostFile
  nextInode : Inode
  generations : ExtTreeMap Nat Inode
  replies : List HostReply

namespace RamHost

def initial : RamHost where
  nextPageId := 1
  nextGenerationId := 1
  files _ := .empty
  nextInode := 0
  generations := ∅
  replies := []

def contents (host : RamHost) (inode : Inode) : ByteMap := (host.files inode).bytes

def modifyFile (host : RamHost) (inode : Inode) (change : HostFile → HostFile) : RamHost :=
  { host with files := Function.update host.files inode (change (host.files inode)) }

@[simp] theorem files_modifyFile (host : RamHost) (inode : Inode) (change : HostFile → HostFile) :
    (host.modifyFile inode change).files inode = change (host.files inode) :=
  Function.update_self ..

theorem files_modifyFile_of_ne (host : RamHost) {inode other : Inode} (different : other ≠ inode)
    (change : HostFile → HostFile) :
    (host.modifyFile inode change).files other = host.files other :=
  Function.update_of_ne different ..

end RamHost

abbrev HostM := Attempt RamHost RamError

def nextReply : HostM HostReply := do
  let host ← get
  match host.replies with
  | [] => pure .done
  | reply :: rest =>
    set { host with replies := rest }
    pure reply

def call (operation : String) : HostM Unit := do
  match ← nextReply with
  | .failed errno => throw (.backend operation (.os errno))
  | _ => pure ()

/-- A new file without a name. -/
def createFile : HostM Inode := do
  let host ← get
  set { host with
    files := Function.update host.files host.nextInode .empty
    nextInode := host.nextInode + 1 }
  pure host.nextInode

def setLen (operation : String) (inode : Inode) (len : Nat) : HostM Unit := do
  call operation
  modify fun host => host.modifyFile inode (·.setLen len)

/-- `pwrite`, which returns how many bytes it wrote. -/
def pwrite (operation : String) (inode : Inode) (offset : Nat) (data : List UInt8) : HostM Nat := do
  match ← nextReply with
  | .failed errno => throw (.backend operation (.os errno))
  | .short count =>
    modify fun host => host.modifyFile inode (·.write offset (data.take count))
    pure (min count data.length)
  | .done =>
    modify fun host => host.modifyFile inode (·.write offset data)
    pure data.length

structure RamGeneration where
  id : Nat
  file : Inode
  deriving DecidableEq, Repr, Inhabited

def RamGeneration.zeroed (len : Nat) : HostM RamGeneration := do
  call "create RAM generation"
  let file ← createFile
  setLen "size RAM generation" file len
  let host ← get
  set { host with nextGenerationId := Word64.wrappingAdd host.nextGenerationId 1 }
  pure { id := host.nextGenerationId, file }

structure RamPage where
  id : Nat
  generation : RamGeneration
  offset : Nat
  deriving DecidableEq, Repr, Inhabited

namespace RamPage

def new (generation : RamGeneration) (offset : Nat) : HostM RamPage := do
  let host ← get
  set { host with nextPageId := Word64.wrappingAdd host.nextPageId 1 }
  pure { id := host.nextPageId, generation, offset }

def place (page : RamPage) : FilePlace Inode where
  file := page.generation.file
  offset := page.offset

end RamPage

end Minidox.Ram
