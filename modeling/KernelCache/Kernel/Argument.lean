/-
**Arguments of kernels.**

A parameter is declared by a type, a name and perhaps an array suffix, which makes it a pointer.
The name is what follows the last character that no name can contain.

Main definitions:

* `Argument` — a parameter of a kernel and how it is passed;
* `Argument.parse`, `Argument.parseList` — the parameters that a declaration lists;
* `isIdentifier` — the names that may be declared.
-/

import KernelCache.Text.Blank

set_option relaxedAutoImplicit false
set_option autoImplicit false

namespace KernelCache

/-- How an argument is passed at a launch: as the pointer itself, or through a pointer to it. -/
inductive ArgumentKind where
  | pointer
  | scalar
  deriving DecidableEq, Repr

/-- A parameter of a kernel.  Arrays have the type of a pointer. -/
structure Argument where
  name : String
  type : String
  kind : ArgumentKind
  deriving DecidableEq, Repr

/-! ### Names -/

/-- Whether a character is one of the letters a to z and A to Z. -/
def isLetter (c : Char) : Bool :=
  (97 ≤ c.toNat && c.toNat ≤ 122) || (65 ≤ c.toNat && c.toNat ≤ 90)

/-- Whether a name may contain a character. -/
def isNameChar (c : Char) : Bool := isLetter c || (48 ≤ c.toNat && c.toNat ≤ 57) || c == '_'

/-- Whether a text is a name that may be declared. -/
def isIdentifier : List Char → Bool
  | [] => false
  | c :: rest => (isLetter c || c == '_') && rest.all isNameChar

namespace Argument

/-! ### Declarations -/

/-- Why a declaration gives no argument.  The type of a parameter is meant to end one byte after the
last character that is not part of the name; after a character of several bytes there is no such
end. -/
inductive Fault where
  | unclear (declaration : String)
  | insideCharacter
  deriving DecidableEq, Repr

/-- The argument of a name and a type, with a star for an array. -/
def make (name type : List Char) (isArray : Bool) : Argument where
  name := String.ofList name
  type := String.ofList (if isArray then type ++ [' ', '*'] else type)
  kind := if isArray || type.contains '*' then .pointer else .scalar

/-- The argument that a text declares. -/
def parse (text : List Char) : Except Fault Argument :=
  let whole := Text.trim text
  let declaration := Text.trimEnd (whole.takeWhile (· ≠ '['))
  let reversed := declaration.reverse
  let name := (reversed.takeWhile isNameChar).reverse
  let before := reversed.dropWhile isNameChar
  match before.head? with
  | some c =>
    if 1 < c.utf8Size then .error .insideCharacter
    else
      let type := Text.trim before.reverse
      if isIdentifier name && !type.isEmpty then .ok (make name type (whole.contains '['))
      else .error (.unclear (String.ofList whole))
  | none => .error (.unclear (String.ofList whole))

/-- The arguments that a parameter list declares. -/
def parseList (text : List Char) : Except Fault (List Argument) :=
  let list := Text.trim text
  if list.isEmpty || list == "void".toList then .ok []
  else (list.splitOn ',').mapM parse

end Argument

end KernelCache
