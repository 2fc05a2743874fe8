/-
**Failures of file operations.**

Main definitions:

* `Failure` — why an operation on files failed;
* `Failure.message` — the text of a failure.
-/

set_option relaxedAutoImplicit false
set_option autoImplicit false

namespace KernelCache

/-- Why an operation on files failed. -/
inductive Failure where
  | notFound
  | permissionDenied
  | alreadyExists
  | notADirectory
  | isADirectory
  | notEmpty
  | notText
  | noAncestor
  deriving DecidableEq, Repr

/-- The text of a failure. -/
def Failure.message : Failure → String
  | .notFound => "No such file or directory (os error 2)"
  | .permissionDenied => "Permission denied (os error 13)"
  | .alreadyExists => "File exists (os error 17)"
  | .notADirectory => "Not a directory (os error 20)"
  | .isADirectory => "Is a directory (os error 21)"
  | .notEmpty => "Directory not empty (os error 39)"
  | .notText => "stream did not contain valid UTF-8"
  | .noAncestor => "failed to create whole tree"

end KernelCache
