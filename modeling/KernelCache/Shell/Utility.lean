/-
**Programs that work on files and text.**

The programs that are known are the few that stand in for a compiler: `true`, `false`, `echo`,
`printf`, `cat`, `cp`, `mv`, `rm`, `mkdir`, `touch`, `test`, `sleep` and `kill`.

Main definitions:

* `Shell.Site` — where a program runs;
* `Shell.Outcome` — what a program has done;
* `Shell.holds` — the conditions of `test`;
* `Shell.utility?` — the programs by their names.
-/

import KernelCache.Files.Tree
import KernelCache.Text.Decimal

set_option relaxedAutoImplicit false
set_option autoImplicit false

namespace KernelCache.Shell

/-- Where a program runs: the files, its directory, and the values that it is handed. -/
structure Site where
  files : FileSystem
  directory : Path
  environment : SortedMap String (List Char)

namespace Site

/-- The files, at the directory where everything starts. -/
def ofFiles (files : FileSystem) : Site := ⟨files, ⟨[]⟩, .empty⟩

/-- The path that a name leads to. -/
def path (s : Site) (name : String) : Path :=
  if name.isEmpty then ⟨[]⟩ else s.directory.join (Path.ofString name)

/-- What a name leads to. -/
def node (s : Site) (name : String) : Except Failure Node := (s.files.lookup (s.path name)).map (·.2)

/-- Whether a name leads to a directory. -/
def isDirectory (s : Site) (name : String) : Bool := s.node name matches .ok .directory

/-- Whether a name leads to a file. -/
def isFile (s : Site) (name : String) : Bool := s.node name matches .ok (.file _)

end Site

/-- What a program has done: the files, its two outputs, its status, and whether it ends the shell
that runs it. -/
structure Outcome where
  files : FileSystem
  out : Bytes
  err : Bytes
  status : Nat
  ends : Bool

/-- A program that changes nothing. -/
def Outcome.quiet (files : FileSystem) (status : Nat) : Outcome := ⟨files, [], [], status, false⟩

/-- A program that complains. -/
def Outcome.complaint (files : FileSystem) (status : Nat) (message : String) : Outcome :=
  ⟨files, [], Utf8.encode (message ++ "\n"), status, false⟩

/-! ### Text with escapes -/

/-- The value of an octal digit. -/
def octal? (c : Char) : Option Nat := if '0' ≤ c ∧ c ≤ '7' then some (c.toNat - 48) else none

/-- The byte of up to three octal digits at the start of a text, and their number. -/
def octalByte? (s : List Char) : Option (UInt8 × Nat) :=
  let digits := ((s.take 3).takeWhile fun c => (octal? c).isSome).filterMap octal?
  if digits.isEmpty then none
  else some (UInt8.ofNat (digits.foldl (fun n d => n * 8 + d) 0), digits.length)

/-- The byte that a character stands for after a backslash. -/
def escaped? : Char → Option UInt8
  | 'a' => some 7
  | 'b' => some 8
  | 't' => some 9
  | 'n' => some 10
  | 'v' => some 11
  | 'f' => some 12
  | 'r' => some 13
  | '\\' => some 92
  | _ => none

/-- Prints a format once, with the arguments that are left, and tells whether it has used one. -/
def printOnce : (fuel : Nat) → List Char → List String → Bool → Bytes × List String × Bool
  | 0, _, args, used => ([], args, used)
  | _, [], args, used => ([], args, used)
  | fuel + 1, '%' :: '%' :: rest, args, used =>
    let (b, r) := printOnce fuel rest args used
    (0x25 :: b, r)
  | fuel + 1, '%' :: 's' :: rest, args, _ =>
    let (b, r) := printOnce fuel rest args.tail true
    (Utf8.encode (args.headD "") ++ b, r)
  | fuel + 1, '%' :: 'd' :: rest, args, _ =>
    let (b, r) := printOnce fuel rest args.tail true
    (Utf8.encode (args.headD "0") ++ b, r)
  | fuel + 1, '\\' :: c :: rest, args, used =>
    match octalByte? (c :: rest), escaped? c with
    | some (byte, n), _ =>
      let (b, r) := printOnce fuel ((c :: rest).drop n) args used
      (byte :: b, r)
    | none, some byte =>
      let (b, r) := printOnce fuel rest args used
      (byte :: b, r)
    | none, none =>
      let (b, r) := printOnce fuel rest args used
      (0x5C :: String.utf8EncodeChar c ++ b, r)
  | fuel + 1, c :: rest, args, used =>
    let (b, r) := printOnce fuel rest args used
    (String.utf8EncodeChar c ++ b, r)

/-- Prints a format until no arguments are left. -/
def printAll (format : List Char) : (rounds : Nat) → List String → Bytes
  | 0, _ => []
  | rounds + 1, args =>
    let (b, left, used) := printOnce (format.length + 1) format args false
    if used && !left.isEmpty then b ++ printAll format rounds left else b

/-- Prints its arguments. -/
def echo (files : FileSystem) (args : List String) : Outcome :=
  let (args, ending) := match args with
    | "-n" :: rest => (rest, "")
    | _ => (args, "\n")
  let text := (" ".intercalate args).toList
  ⟨files, (printOnce (text.length + 1) (text.flatMap fun c => if c = '%' then ['%', '%'] else [c])
    [] false).1 ++ Utf8.encode ending, [], 0, false⟩

/-! ### Files -/

/-- The text after a program's name that names a failure. -/
def failureText : Failure → String
  | .notFound => "No such file or directory"
  | .permissionDenied => "Permission denied"
  | .alreadyExists => "File exists"
  | .notADirectory => "Not a directory"
  | .isADirectory => "Is a directory"
  | .notEmpty => "Directory not empty"
  | .notText | .noAncestor => "Invalid argument"

/-- Does something with each of several names, going on after a failure, about which a program
complains as `about` says. -/
def forEach (act : FileSystem → String → Except Failure FileSystem) (about : String → String) :
    FileSystem → List String → Outcome
  | files, [] => .quiet files 0
  | files, name :: rest =>
    match act files name with
    | .ok files => forEach act about files rest
    | .error e =>
      let after := forEach act about files rest
      { after with
        err := Utf8.encode (about name ++ ": " ++ failureText e ++ "\n") ++ after.err
        status := 1 }

/-- Prints files one after another. -/
def cat (s : Site) : List String → Outcome
  | [] => .quiet s.files 0
  | name :: rest =>
    let after := cat s rest
    match s.files.readFile (s.path name) with
    | .ok bytes => { after with out := bytes ++ after.out }
    | .error e =>
      { after with
        err := Utf8.encode ("cat: " ++ name ++ ": " ++ failureText e ++ "\n") ++ after.err
        status := 1 }

/-- The name under which a source lands at a target: within it, if that is a directory. -/
def landing (s : Site) (source target : String) : String :=
  if s.isDirectory target then
    ((Path.ofString target).join ⟨((Path.ofString source).fileName?).getD []⟩).display
  else target

/-- Copies a file. -/
def cp (s : Site) : List String → Outcome
  | [source, target] =>
    match s.node source with
    | .error e =>
      .complaint s.files 1 ("cp: cannot stat '" ++ source ++ "': " ++ failureText e)
    | .ok .directory =>
      .complaint s.files 1 ("cp: -r not specified; omitting directory '" ++ source ++ "'")
    | .ok (.file bytes) =>
      let place := landing s source target
      match s.files.writeFile (s.path place) bytes with
      | .ok files => .quiet files 0
      | .error e =>
        .complaint s.files 1 ("cp: cannot create regular file '" ++ place ++ "': " ++ failureText e)
  | _ => .complaint s.files 1 "cp: missing file operand"

/-- Moves a file. -/
def mv (s : Site) : List String → Outcome
  | [source, target] =>
    match s.node source with
    | .error e =>
      .complaint s.files 1 ("mv: cannot stat '" ++ source ++ "': " ++ failureText e)
    | .ok _ =>
      let place := landing s source target
      match s.files.moveFile (s.path source) (s.path place) with
      | .ok files => .quiet files 0
      | .error e =>
        .complaint s.files 1
          ("mv: cannot move '" ++ source ++ "' to '" ++ place ++ "': " ++ failureText e)
  | _ => .complaint s.files 1 "mv: missing file operand"

/-- The letters of the options of a program, and its operands. -/
def splitOptions (args : List String) : List Char × List String :=
  let isOption := fun arg : String => arg.length > 1 && arg.startsWith "-"
  ((args.takeWhile isOption).flatMap fun arg => arg.toList.drop 1, args.dropWhile isOption)

/-- Removes files, and directories with what they hold if asked to. -/
def rm (s : Site) (args : List String) : Outcome :=
  let (letters, names) := splitOptions args
  forEach
    (fun files name =>
      let p := s.path name
      match if letters.contains 'r' then files.removeTree p else files.removeFile p with
      | .error .notFound => if letters.contains 'f' then .ok files else .error .notFound
      | r => r)
    (fun name => "rm: cannot remove '" ++ name ++ "'") s.files names

/-- Makes directories, with those above them if asked to. -/
def mkdir (s : Site) (args : List String) : Outcome :=
  let (letters, names) := splitOptions args
  forEach
    (fun files name =>
      if letters.contains 'p' then .ok (files.provideDirectory (s.path name))
      else files.makeDirectory (s.path name))
    (fun name => "mkdir: cannot create directory '" ++ name ++ "'") s.files names

/-- Creates files that are not there. -/
def touch (s : Site) (names : List String) : Outcome :=
  forEach
    (fun files name =>
      match files.lookup (s.path name) with
      | .ok _ => .ok files
      | .error _ => files.writeFile (s.path name) [])
    (fun name => "touch: cannot touch '" ++ name ++ "'") s.files names

/-! ### Conditions -/

/-- A whole number in decimal digits. -/
def wholeNumber? (s : String) : Option Int :=
  match s.toList with
  | '-' :: digits => (Decimal.number? digits).map fun n => -(n : Int)
  | digits => (Decimal.number? digits).map fun n => (n : Int)

/-- A comparison of numbers by its name. -/
def comparison? : String → Option (Int → Int → Bool)
  | "-eq" => some (· == ·)
  | "-ne" => some (· != ·)
  | "-lt" => some (· < ·)
  | "-le" => some (· ≤ ·)
  | "-gt" => some (· > ·)
  | "-ge" => some (· ≥ ·)
  | _ => none

/-- Whether a condition on two texts holds, or what is wrong with it. -/
def holdsBetween (first operator second : String) : Except String Bool :=
  match operator with
  | "=" => .ok (first == second)
  | "!=" => .ok (first != second)
  | _ =>
    match comparison? operator, wholeNumber? first, wholeNumber? second with
    | some compare, some a, some b => .ok (compare a b)
    | some _, none, _ => .error ("Illegal number: " ++ first)
    | some _, _, none => .error ("Illegal number: " ++ second)
    | none, _, _ => .error (first ++ ": unexpected operator")

/-- Whether a condition on one text holds, or what is wrong with it. -/
def holdsOf (s : Site) (operator operand : String) : Except String Bool :=
  match operator with
  | "-n" => .ok (operand != "")
  | "-z" => .ok (operand == "")
  | "-e" | "-r" | "-w" => .ok (s.isFile operand || s.isDirectory operand)
  | "-f" => .ok (s.isFile operand)
  | "-d" | "-x" => .ok (s.isDirectory operand)
  | "-s" =>
    .ok (match s.node operand with
      | .ok (.file bytes) => !bytes.isEmpty
      | .ok .directory => true
      | .error _ => false)
  | _ => .error (operator ++ ": unexpected operator")

/-- Whether a condition holds, or what is wrong with it. -/
def holds (s : Site) : List String → Except String Bool
  | [] => .ok false
  | [a] => .ok (a != "")
  | ["!", a] => .ok (a == "")
  | [operator, a] => holdsOf s operator a
  | [a, operator, b] =>
    if a = "!" ∧ operator ≠ "=" ∧ operator ≠ "!=" then (holdsOf s operator b).map (!·)
    else holdsBetween a operator b
  | ["!", a, operator, b] => (holdsBetween a operator b).map (!·)
  | a :: _ => .error (a ++ ": unexpected operator")

/-- A condition under a name: `[` has a counterpart at its end. -/
def condition (s : Site) (name : String) (args : List String) : Except String Bool :=
  if name = "[" then
    if args.getLast? = some "]" then holds s args.dropLast else .error "missing ]"
  else holds s args

/-! ### By name -/

/-- The letters that a program knows as options, if it knows any. -/
def optionLetters? : String → Option (List Char)
  | "cat" => some "benstuvAET".toList
  | "cp" => some "abdfHilLnPprstuvxRSTZ".toList
  | "mv" => some "bfintuvSTZ".toList
  | "rm" => some "dfiIrRv".toList
  | "mkdir" => some "mpvZ".toList
  | "touch" => some "acdfhmrt".toList
  | _ => none

/-- What a program says of the first option that it does not know. -/
def optionFault? (name : String) (letters : List Char) (args : List String) : Option String :=
  let options := (args.takeWhile (· ≠ "--")).filter fun arg => arg.length > 1 && arg.startsWith "-"
  let faults := options.flatMap fun arg =>
    if arg.startsWith "--" then [name ++ ": unrecognized option '" ++ arg ++ "'"]
    else ((arg.toList.drop 1).filter (!letters.contains ·)).map fun c =>
      name ++ ": invalid option -- '" ++ String.ofList [c] ++ "'"
  faults.head?.map (· ++ "\nTry '" ++ name ++ " --help' for more information.")

/-- A program by its name, given options that it knows, where `shell` runs the shell. -/
def program? (shell : Site → List String → Outcome) (s : Site) (name : String)
    (args : List String) : Option Outcome :=
  match name with
  | "true" => some (.quiet s.files 0)
  | "false" => some (.quiet s.files 1)
  | "echo" => some (echo s.files args)
  | "printf" =>
    some (match args with
      | [] => .complaint s.files 2 "printf: missing operand"
      | format :: rest => ⟨s.files, printAll format.toList (rest.length + 1) rest, [], 0, false⟩)
  | "cat" => some (cat s args)
  | "cp" => some (cp s args)
  | "mv" => some (mv s args)
  | "rm" => some (rm s args)
  | "mkdir" => some (mkdir s args)
  | "touch" => some (touch s args)
  | "test" | "[" =>
    some (match condition s name args with
      | .ok true => .quiet s.files 0
      | .ok false => .quiet s.files 1
      | .error reason => .complaint s.files 2 (name ++ ": " ++ reason))
  | "sleep" => some (.quiet s.files 0)
  | "kill" => some { Outcome.quiet s.files 137 with ends := args.length = 2 }
  | "sh" => some (shell s args)
  | _ => none

/-- A program by its name, where `shell` runs the shell. -/
def utility? (shell : Site → List String → Outcome) (s : Site) (name : String)
    (args : List String) : Option Outcome :=
  match (optionLetters? name).bind (optionFault? name · args) with
  | some fault => some (.complaint s.files 1 fault)
  | none => program? shell s name args

end KernelCache.Shell
