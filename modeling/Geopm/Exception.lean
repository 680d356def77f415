import Mathlib

/-!
# Exceptions

The exceptions that the C++ libraries raise.
-/

namespace Geopm

/-- The error codes of `geopm_error.h` that the modelled code raises, and those of system calls. -/
inductive ErrorCode where
  | runtime
  | logic
  | invalid
  | levelRange
  | notImplemented
  | msrRead
  | msrWrite
  | errno (value : ℤ)
deriving DecidableEq, Repr

/-- `geopm::Exception`: the text, with `%` where a number is formatted into it, these numbers, and
the error code. -/
structure Exception where
  what : String
  values : List ℤ := []
  err : ErrorCode
deriving DecidableEq, Repr

end Geopm
