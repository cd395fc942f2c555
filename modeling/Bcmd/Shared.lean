import Mathlib.Data.List.DropRight
import Mathlib.Data.Option.Basic

/-!
# `shared/`: ids, errors and strings

A C++ string is a list of bytes. A UUID is a number, `0` being the nil one; its text form belongs to
the uuid library, of which only the parser is used (`UuidLib`).
-/

namespace Bcmd

abbrev Bytes := List UInt8

/-- The bytes of an ASCII literal. -/
def ascii (s : String) : Bytes := s.toList.map fun c => UInt8.ofNat c.toNat

/-! ### `ids.hpp` -/

/-- What the server uses of the uuid library: `uuids::uuid::from_string`. -/
structure UuidLib where
  fromString : Bytes → Option Nat

/-- The value of a string of hexadecimal digits, after what is already read. -/
def readHex (acc : Nat) : Bytes → Option Nat
  | [] => some acc
  | c :: cs =>
    if 48 ≤ c ∧ c ≤ 57 then readHex (16 * acc + (c.toNat - 48)) cs
    else if 97 ≤ c ∧ c ≤ 102 then readHex (16 * acc + (c.toNat - 87)) cs
    else if 65 ≤ c ∧ c ≤ 70 then readHex (16 * acc + (c.toNat - 55)) cs
    else none

/-- A library that knows the canonical text form only: hexadecimal digits in groups of 8, 4, 4, 4 and 12. -/
def UuidLib.canonical : UuidLib where
  fromString s :=
    if s.length = 36 ∧ [8, 13, 18, 23].all (fun i => s[i]? = some 45) then
      readHex 0 (s.take 8 ++ (s.drop 9).take 4 ++ (s.drop 14).take 4 ++ (s.drop 19).take 4 ++ s.drop 24)
    else none

/-- A UUID with a phantom `Tag` that keeps ids of different kinds apart. -/
structure StrongId (Tag : Type) where
  value : Nat

namespace StrongId
variable {Tag : Type}

theorem value_injective : Function.Injective (value : StrongId Tag → Nat) := fun ⟨_⟩ ⟨_⟩ h => congrArg mk h

instance : DecidableEq (StrongId Tag) := fun a b => decidable_of_iff
    (a.value = b.value) value_injective.eq_iff

/-- `none` for what is no UUID and for the nil UUID. -/
def parse (uuid : UuidLib) (str : Bytes) : Option (StrongId Tag) :=
  match uuid.fromString str with
  | none => none
  | some u => if u = 0 then none else some ⟨u⟩

end StrongId

inductive ChannelIdTag
inductive ClientIdTag
inductive MessageIdTag

abbrev ChannelId := StrongId ChannelIdTag
abbrev ClientId := StrongId ClientIdTag
abbrev MessageId := StrongId MessageIdTag

/-! ### `result.hpp` -/

inductive Error
  | channelNotFound
  | channelAlreadyExists
  | clientNotFound
  | clientAlreadyExists
  | alreadyMember
  | notAMember
  | messageEmpty
  | messageInvalidPrefix
  | messageTooLong
  | invalidUsername
  | invalidChannelName
  | invalidArgument
  | storageError
  | networkError
  | notImplemented
deriving DecidableEq

abbrev Result (α : Type) := Except Error α
abbrev VoidResult := Result Unit

def errorMessage : Error → String
  | .channelNotFound => "channel not found"
  | .channelAlreadyExists => "channel already exists"
  | .clientNotFound => "client not found"
  | .clientAlreadyExists => "client already exists"
  | .alreadyMember => "already a member"
  | .notAMember => "not a member"
  | .messageEmpty => "message is empty"
  | .messageInvalidPrefix => "message must not start with '/'"
  | .messageTooLong => "message too long"
  | .invalidUsername => "invalid username"
  | .invalidChannelName => "invalid channel name (allowed: 1-64 chars of [a-zA-Z0-9-])"
  | .invalidArgument => "invalid argument"
  | .storageError => "storage error"
  | .networkError => "network error"
  | .notImplemented => "not implemented"

/-! ### `string_utils.cpp` and the C character classes -/

/-- `std::isspace` in the C locale. -/
def isspace (c : UInt8) : Bool := c == 32 || (9 ≤ c && c ≤ 13)

/-- `std::isalnum` in the C locale. -/
def isalnum (c : UInt8) : Bool := (48 ≤ c && c ≤ 57) || (65 ≤ c && c ≤ 90) || (97 ≤ c && c ≤ 122)

/-- `remove_prefix(1)` while the front is a space, then `remove_suffix(1)` while the back is one. -/
def trim (input : Bytes) : Bytes := (input.dropWhile isspace).rdropWhile isspace

example : trim (ascii " \t/join  a ") = ascii "/join  a" := by decide

end Bcmd
