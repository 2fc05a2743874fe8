/-
**Failures of the cache.**

Main definitions:

* `CacheError` — why an operation on the store or on locks failed;
* `CacheError.message` — the text of a failure.
-/

import KernelCache.Duration
import KernelCache.Files.Failure
import KernelCache.Path
import KernelCache.Text.Decimal

set_option relaxedAutoImplicit false
set_option autoImplicit false

namespace KernelCache

/-- What is wrong with a cache file that cannot be used. -/
inductive Corruption where
  | unreadable
  | noManifest
  deriving DecidableEq, Repr

/-- Why an operation on the cache failed.  A failure of the file system is never taken for a missing
entry. -/
inductive CacheError where
  | io (path : Path) (cause : Failure)
  | checksumMismatch (path : Path) (expected actual : String)
  | corrupt (path : Path) (what : Corruption)
  | missingChecksum (path : Path)
  | lockDepth (depth : Nat)
  | lockTimeout (lock : Path) (waited : Nat)
  deriving DecidableEq, Repr

/-- The greatest depth of a lock. -/
def maxLockDepth : Nat := 9

/-- The text of a failure. -/
def CacheError.message : CacheError → String
  | .io path cause => "cache I/O error at " ++ path.display ++ ": " ++ cause.message
  | .checksumMismatch path expected actual =>
    "checksum mismatch in " ++ path.display ++ ": expected " ++ expected ++ ", got " ++ actual
  | .corrupt path .unreadable => "corrupt cache file " ++ path.display
  | .corrupt path .noManifest =>
    "corrupt cache file " ++ path.display ++ ": entry has translated source but no manifest"
  | .missingChecksum path => "missing checksum for " ++ path.display
  | .lockDepth depth =>
    "lock depth " ++ Decimal.text depth ++ " out of range (max " ++ Decimal.text maxLockDepth ++ ")"
  | .lockTimeout lock waited =>
    "timed out after " ++ Duration.text waited ++ " waiting for lock " ++ lock.display

end KernelCache
