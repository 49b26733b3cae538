import Minidox.Ram.Model

/-!
# Durable generations

How RAM is saved. A generation is copied to a file named after its id, once: a file that
is there already is taken to hold the generation.
-/

set_option autoImplicit false

namespace Minidox.Ram

open Foundation Attempt

/-!
## Copies of generations
-/

def enxio : Nat := 6

/-- Where the data from an offset on starts, or the error of `lseek`. -/
def HostFile.dataFrom (file : HostFile) (offset : Nat) : Except Nat Nat :=
  match file.seekData offset with
  | some data => .ok data
  | none => .error enxio

def copyBufferSize : Nat := 1024 * 1024

/-- The loop of `copy_generation_range`. -/
def copyGenerationRange (source destination : Inode) : Nat → Nat → Nat → HostM Unit
  | 0, _, _ => pure ()
  | fuel + 1, offset, limit =>
    if offset < limit then do
      let count := min (limit - offset) copyBufferSize
      call "read RAM generation for persistence"
      let host ← get
      require (offset + count ≤ (host.files source).len)
        (.backend "read RAM generation for persistence"
          (.unexpectedEof "failed to fill whole buffer"))
      let buffer := (host.contents source).read offset count
      call "write durable RAM generation"
      modify fun host => host.modifyFile destination (·.write offset buffer)
      copyGenerationRange source destination fuel (offset + count) limit
    else pure ()

def einval : Nat := 22

/-- `lseek` with `SEEK_DATA`. By its documentation `ENXIO` means that there is no data behind the
offset, and nothing else. -/
def lseekData (source : Inode) (offset : Nat) : HostM (Except Nat Nat) := do
  let reply ← nextReply
  let host ← get
  let answer := (host.files source).dataFrom offset
  match reply with
  | .failed errno => pure (if errno = enxio then answer else .error errno)
  | _ => pure answer

/-- A round of the loop of `clone_or_copy_generation`: where the next one starts, unless it was the
last one. -/
def copyExtent (source destination : Inode) (len offset : Nat) : HostM (Option Nat) := do
  match ← lseekData source offset with
  | .error errno =>
    if errno = enxio then pure none
    else if errno = einval then do
      copyGenerationRange source destination len 0 len
      pure none
    else throw (.backend "find RAM generation data extent" (.os errno))
  | .ok data =>
    if len ≤ data then pure none
    else do
      call "find RAM generation hole"
      let host ← get
      let hole := min ((host.files source).seekHole data) len
      require (data < hole) (.backend "copy RAM generation extent"
        (.invalidData "invalid sparse-file extent"))
      copyGenerationRange source destination (hole - data) data hole
      pure (some hole)

def copyExtents (source destination : Inode) (len : Nat) : Nat → Nat → HostM Unit
  | 0, _ => pure ()
  | fuel + 1, offset =>
    if offset < len then do
      match ← copyExtent source destination len offset with
      | none => pure ()
      | some next => copyExtents source destination len fuel next
    else pure ()

/-- `FICLONE`, or else a copy. -/
def cloneOrCopyGeneration (source destination : Inode) (len : Nat) : HostM Unit := do
  match ← nextReply with
  | .failed _ =>
    setLen "size durable RAM generation" destination len
    copyExtents source destination len len 0
  | _ => modify fun host => host.modifyFile destination fun _ => host.files source

def persistGeneration (generation : RamGeneration) : HostM Unit := do
  let host ← get
  if generation.id ∈ host.generations then pure ()
  else do
    call "create durable RAM generation temporary file"
    let temporary ← createFile
    call "inspect RAM generation"
    let host ← get
    cloneOrCopyGeneration generation.file temporary (host.files generation.file).len
    call "sync durable RAM generation"
    call "publish durable RAM generation"
    modify fun host => { host with generations := host.generations.insert generation.id temporary }

end Minidox.Ram
