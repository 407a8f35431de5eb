import Mathlib.Algebra.Group.Nat.Defs

/-!
The errors of the wire codecs (`error.rs`), and how a decode can halt: with an
error it reports, or with a panic of an operation used outside its domain.
-/

namespace Odradek

abbrev Bytes := List UInt8

namespace Protocol

def i16Max : Nat := 2 ^ 15 - 1
def i32Max : Nat := 2 ^ 31 - 1
def i64Max : Nat := 2 ^ 63 - 1
def usizeMax : Nat := 2 ^ 64 - 1

inductive EncodeError
  | tooLong (len max : Nat)
  | nullField (field : String)
  deriving DecidableEq

inductive DecodeError
  | truncated (needed : Nat)
  | varintOverflow
  | invalidLength (length : Int)
  | invalidUtf8
  | unknownDiscriminant (kind : String) (value : Int)
  | crcMismatch (stored computed : UInt32)
  | allocationLimit (limit wanted : Nat)
  | noProgress
  | taggedFieldOrder (previous tag : Nat)
  deriving DecidableEq

inductive Halt
  | error (error : DecodeError)
  | panic
  deriving DecidableEq

end Protocol
end Odradek
