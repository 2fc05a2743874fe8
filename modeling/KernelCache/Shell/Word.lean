/-
**Words of a shell.**

A word is made of pieces: text, which stands for itself, and parameters, whose values are filled in.
The value of a parameter outside quotation marks is split at blanks, so that a word may become
several fields, or none.

Main definitions:

* `Shell.Piece`, `Shell.word` — words and how they are read;
* `Shell.Scope` — the values of parameters;
* `Shell.expand` — the fields that a word becomes.
-/

import KernelCache.SortedMap
import KernelCache.Text.Decimal
import KernelCache.Text.Scan

set_option relaxedAutoImplicit false
set_option autoImplicit false

namespace KernelCache.Shell

open Scan

/-! ### Reading words -/

/-- A piece of a word. -/
inductive Piece where
  | text (s : List Char) (quoted : Bool)
  | value (name : List Char) (quoted : Bool)
  deriving DecidableEq, Repr

/-- A character at which fields are split. -/
def isBlank (c : Char) : Bool := c == ' ' || c == '\t' || c == '\n'

/-- A character that stands for itself outside quotes. -/
def isBare (c : Char) : Bool := !isBlank c && !";&|<>()'\"\\$".toList.contains c

/-- A character that a parameter's name may contain. -/
def isNameChar (c : Char) : Bool := c.isAlphanum || c == '_'

/-- The name of a parameter after a dollar sign. -/
def parameterName : Scan (List Char) :=
  (do
    word "\x7b"
    let name ← some1 (· != '\x7d')
    word "\x7d"
    return name) <|>
  (do
    let c ← one fun c => c.isAlpha || c == '_'
    return c :: (← take isNameChar)) <|>
  (do return [← one fun c => c.isDigit || "@*#?$".toList.contains c])

/-- A parameter, or a dollar sign that stands for itself. -/
def parameter (quoted : Bool) : Scan Piece := do
  word "$"
  match ← optional parameterName with
  | some name => return .value name quoted
  | none => return .text ['$'] quoted

/-- A backslash within quotation marks, which takes the meaning from a few characters only. -/
def innerEscape : Scan Piece := do
  word "\\"
  match ← one fun _ => true with
  | '\n' => return .text [] true
  | c => return .text (if "$`\"\\".toList.contains c then [c] else ['\\', c]) true

/-- The pieces between quotation marks. -/
def doubleQuoted : Scan (List Piece) := do
  word "\""
  let pieces ← many <|
    (.text · true) <$> some1 (fun c => c != '"' && c != '\\' && c != '$') <|>
    parameter true <|> innerEscape
  word "\""
  return if pieces.isEmpty then [.text [] true] else pieces

/-- The text between apostrophes. -/
def singleQuoted : Scan (List Piece) := do
  word "'"
  let s ← take (· != '\'')
  word "'"
  return [.text s true]

/-- A backslash outside quotes, which takes the meaning from any character. -/
def outerEscape : Scan (List Piece) := do
  word "\\"
  match ← one fun _ => true with
  | '\n' => return []
  | c => return [.text [c] true]

/-- A word. -/
def shellWord : Scan (List Piece) := do
  let groups ← many <|
    singleQuoted <|> doubleQuoted <|> outerEscape <|>
    (do return [← parameter false]) <|> (do return [.text (← some1 isBare) false])
  check (if groups.isEmpty then none else some groups.flatten)

/-! ### Filling in -/

/-- The values of parameters: named ones, of which some are handed to programs, numbered ones, and
the status of the last command. -/
structure Scope where
  name : String
  named : SortedMap String (List Char)
  exported : List String
  numbered : List (List Char)
  status : Nat

namespace Scope

/-- The value of a parameter other than the lists of all numbered ones. -/
def value (s : Scope) (name : List Char) : List Char :=
  match name with
  | ['#'] => (Decimal.text s.numbered.length).toList
  | ['?'] => (Decimal.text s.status).toList
  | ['$'] => ['1']
  | ['0'] => s.name.toList
  | _ =>
    match Decimal.number? name with
    | some n => (s.numbered[n - 1]?).getD []
    | none => (s.named.get? (String.ofList name)).getD []

/-- The values that are handed to programs. -/
def environment (s : Scope) : SortedMap String (List Char) :=
  s.exported.foldl
    (fun m name => match s.named.get? name with
      | some v => m.insert name v
      | none => m) .empty

end Scope

/-- The fields that are complete, latest first, and the one that has begun. -/
structure Fields where
  done : List (List Char)
  current : Option (List Char)

namespace Fields

/-- Adds text to the current field. -/
def add (f : Fields) (s : List Char) : Fields := { f with current := some (f.current.getD [] ++ s) }

/-- Ends the current field. -/
def cut (f : Fields) : Fields :=
  match f.current with
  | some s => ⟨s :: f.done, none⟩
  | none => f

/-- Adds text that is split at blanks. -/
def addSplit (f : Fields) (s : List Char) : Fields :=
  s.foldl (fun f c => if isBlank c then f.cut else f.add [c]) f

/-- Adds several values, each of which starts a field. -/
def addAll (add : Fields → List Char → Fields) (f : Fields) : List (List Char) → Fields
  | [] => f
  | [s] => add f s
  | s :: rest => addAll add (add f s).cut rest

/-- Adds a piece of a word. -/
def addPiece (scope : Scope) (f : Fields) : Piece → Fields
  | .text s _ => f.add s
  | .value ['@'] true => f.addAll add scope.numbered
  | .value ['*'] true => f.add ([' '].intercalate scope.numbered)
  | .value ['@'] false | .value ['*'] false => f.addAll addSplit scope.numbered
  | .value name true => f.add (scope.value name)
  | .value name false => f.addSplit (scope.value name)

end Fields

/-- The fields that a word becomes. -/
def expand (scope : Scope) (w : List Piece) : List String :=
  ((w.foldl (Fields.addPiece scope) ⟨[], none⟩).cut.done.reverse).map String.ofList

/-- The text that a word becomes where it is not split. -/
def expandWhole (scope : Scope) (w : List Piece) : List Char :=
  w.flatMap fun
    | .text s _ => s
    | .value ['@'] _ | .value ['*'] _ => [' '].intercalate scope.numbered
    | .value name _ => scope.value name

end KernelCache.Shell
