import Mathlib.Algebra.Order.Ring.Int
import Mathlib.Data.List.Basic

/-!
# Shared types and limits

The limits of {lit}`sm_limits.h`, the enumerations and records of
{lit}`sm_types.h` that several components share, and the error numbers the
modelled functions report.

A C string is modelled as the list of its bytes before the terminator, each byte
written as the character of the same code.  Statements over all {lit}`Text`
therefore cover every byte string; the length of the list is {lit}`strlen`.
-/

namespace ShadowMount

/-- The bytes of a C string before its terminator. -/
abbrev Text := List Char

instance : LawfulBEq Text := inferInstance

instance neZero_two : NeZero (2 : Nat) := ⟨by decide⟩

/-- Size of a path buffer, its terminator included. -/
def maxPath : Nat := 1024

/-- Size of a title id buffer, its terminator included. -/
def maxTitleId : Nat := 32

/-- Size of a title name buffer, its terminator included. -/
def maxTitleName : Nat := 256

/-- Number of slots of the game cache. -/
def maxPending : Nat := 512

/-- Number of slots of the image cache and of the image index. -/
def maxImageMounts : Nat := 2048

/-- Number of title records of the image index. -/
def maxImageTitles : Nat := 8192

/-- `strlcpy` into a buffer of the given size. -/
def strlcpy (size : Nat) (t : Text) : Text :=
  t.take (size - 1)

/-- A text that fits is copied whole. -/
theorem strlcpy_of_lt {size : Nat} {t : Text} (h : t.length < size) : strlcpy size t = t := by
  unfold strlcpy
  exact List.take_of_length_le (by omega)

/-- `is_supported_game_title_id`: four capitals and five digits, system
titles excluded. -/
def isSupportedGameTitleId (t : Text) : Bool :=
  t.length = 9 && (t.take 4).all (fun ch => 'A' ≤ ch && ch ≤ 'Z') &&
    (t.drop 4).all (fun ch => '0' ≤ ch && ch ≤ '9') && t.take 4 ≠ "NPXS".toList

/-- The values of `errno` that the modelled functions set. -/
inductive Errno where
  | EAGAIN | EBUSY | ECANCELED | ECONNRESET | EEXIST | EFBIG | EINPROGRESS | EINVAL | EIO
  | ENAMETOOLONG | ENOENT | ENOMEM | ENOSPC | ENOTDIR | ENOTEMPTY | EPROTO | EPROTONOSUPPORT
  | ESTALE | ETIMEDOUT | EXDEV
deriving DecidableEq

/-- Outcome of a function that returns `bool`.  The error `none` is a
`false` that leaves `errno` as it was. -/
abbrev Outcome (α : Type) := Except (Option Errno) α

/-- The kernel driver a unit is attached through. -/
inductive AttachBackend where
  | none | lvd | md
deriving DecidableEq

/-- Life cycle of an attached device in the image cache. -/
inductive AttachedDeviceState where
  | released | attaching | mounted | detachRequested
deriving DecidableEq

/-- What is known about the device node of an attached unit, and whether the
kernel accepted a detach request for that very instance. -/
structure AttachedUnitDetachState where
  requested : Bool
  nodeIdentityValid : Bool
  nodeDevice : Nat
  nodeInode : Nat
  nodeRdev : Nat
deriving DecidableEq

/-- The record `memset` leaves behind. -/
def AttachedUnitDetachState.zero : AttachedUnitDetachState where
  requested := false
  nodeIdentityValid := false
  nodeDevice := 0
  nodeInode := 0
  nodeRdev := 0

/-- The fields of `struct stat` that identify a device node. -/
structure NodeIdentity where
  device : Nat
  inode : Nat
  rdev : Nat
deriving DecidableEq

/-- What `stat` reports for the node of each unit at one moment. -/
abbrev NodeView := AttachBackend → Int → Option NodeIdentity

end ShadowMount
