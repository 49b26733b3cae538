import Minidox.Foundation.Pages

/-!
# Private mappings

An address range whose pages are mapped privately from files. A page that was not written
since it was mapped shows the bytes of its file. The first write gives the page a copy of
its own, and what happens to the file later does not reach it.
-/

set_option autoImplicit false

namespace Minidox.Foundation

/-- The first byte of a page in a file. -/
structure FilePlace (File : Type) where
  file : File
  offset : Nat
  deriving DecidableEq, Repr

/-- Where the pages of a range are mapped from, and the copies of those that were written. -/
structure PrivateMapping (File : Type) where
  place : Nat → Option (FilePlace File)
  own : Nat → Option ByteMap

variable {File : Type}

def FilePlace.bytes (place : FilePlace File) (contents : File → ByteMap) : ByteMap :=
  fun index => contents place.file (place.offset + index)

namespace PrivateMapping

def page (mapping : PrivateMapping File) (contents : File → ByteMap) (number : Nat) : ByteMap :=
  match mapping.own number with
  | some bytes => bytes
  | none =>
    match mapping.place number with
    | some place => place.bytes contents
    | none => ByteMap.zero

def bytes (unit : Nat) (mapping : PrivateMapping File) (contents : File → ByteMap) : ByteMap :=
  Pages.joined unit (mapping.page contents)

/-- Replace pages by a run of pages of a file. -/
def map (unit : Nat) (mapping : PrivateMapping File) (start count : Nat) (file : File)
    (offset : Nat) : PrivateMapping File where
  place number :=
    if start ≤ number ∧ number < start + count then some ⟨file, offset + (number - start) * unit⟩
    else mapping.place number
  own number := if start ≤ number ∧ number < start + count then none else mapping.own number

def discard (mapping : PrivateMapping File) : PrivateMapping File :=
  { mapping with own := fun _ => none }

def Touches (unit position length number : Nat) : Prop :=
  0 < length ∧ position / unit ≤ number ∧ number ≤ (position + length - 1) / unit

instance (unit position length number : Nat) : Decidable (Touches unit position length number) :=
  inferInstanceAs (Decidable (_ ∧ _ ∧ _))

def store (unit : Nat) (mapping : PrivateMapping File) (contents : File → ByteMap) (position : Nat)
    (data : List UInt8) : PrivateMapping File :=
  { mapping with
    own := fun number =>
      if Touches unit position data.length number then
        some fun index => (mapping.bytes unit contents).write position data (number * unit + index)
      else mapping.own number }

section Lemmas

variable {unit : Nat} {mapping : PrivateMapping File} {number : Nat}

theorem place_map {start count offset : Nat} {file : File}
    (inside : start ≤ number ∧ number < start + count) :
    (mapping.map unit start count file offset).place number =
      some ⟨file, offset + (number - start) * unit⟩ :=
  if_pos inside

theorem place_map_outside {start count offset : Nat} {file : File}
    (outside : ¬ (start ≤ number ∧ number < start + count)) :
    (mapping.map unit start count file offset).place number = mapping.place number :=
  if_neg outside

end Lemmas

end PrivateMapping

end Minidox.Foundation
