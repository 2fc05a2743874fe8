/-
**Running a shell.**

A script runs command by command, with the parameters, the directory and the outputs that earlier
commands have left.  Shells may be nested; the levels are counted, so that running always ends.

Main definitions:

* `Shell.Session` — a shell that is running;
* `Shell.runCommand`, `Shell.runScript` — running commands;
* `Shell.sh` — the shell as a program;
* `Shell.spawn` — running a program from outside a shell.
-/

import KernelCache.Shell.Script
import KernelCache.Shell.Utility

set_option relaxedAutoImplicit false
set_option autoImplicit false

namespace KernelCache.Shell

/-! ### Sessions -/

/-- A shell that is running.  It is `strict` if it ends with the first command that fails. -/
structure Session where
  scope : Scope
  files : FileSystem
  directory : Path
  out : Bytes
  err : Bytes
  ended : Bool
  strict : Bool

namespace Session

/-- Before the first command of a script under a name, with numbered parameters. -/
def start (site : Site) (strict : Bool) (name : String) (args : List String) : Session where
  scope := ⟨name, site.environment, site.environment.keys, args.map String.toList, 0⟩
  files := site.files
  directory := site.directory
  out := []
  err := []
  ended := false
  strict := strict

/-- What the shell has done. -/
def outcome (s : Session) : Outcome := ⟨s.files, s.out, s.err, s.scope.status, false⟩

/-- Where programs run that the shell starts. -/
def site (s : Session) : Site := ⟨s.files, s.directory, s.scope.environment⟩

/-- The session with a status. -/
def withStatus (s : Session) (status : Nat) : Session :=
  { s with scope := { s.scope with status := status } }

/-- What the shell itself says of a line. -/
def remark (s : Session) (line : Nat) (text : String) : String :=
  s.scope.name ++ ": " ++ Decimal.text line ++ ": " ++ text

/-- The shell says what is wrong on a line. -/
def complain (s : Session) (line status : Nat) (text : String) : Session :=
  let s := s.withStatus status
  { s with err := s.err ++ Utf8.encode (s.remark line text ++ "\n") }

/-- The shell says what is wrong and ends. -/
def abort (s : Session) (line : Nat) (text : String) : Session :=
  { s.complain line 2 text with ended := true }

end Session

/-- What runs below the current level: other shells, and scripts in the same shell. -/
structure Level where
  shell : Site → List String → Outcome
  source : Session → List Char → Session

/-! ### Parameters -/

/-- The name and the value of a word that sets a parameter. -/
def assignment? (w : List Piece) : Option (List Char × List Piece) :=
  match w with
  | .text s false :: rest =>
    let name := s.takeWhile isNameChar
    match s.drop name.length with
    | '=' :: value =>
      if name.isEmpty || name.all Char.isDigit then none
      else some (name, .text value false :: rest)
    | _ => none
  | _ => none

/-- Sets a parameter. -/
def Scope.set (s : Scope) (name : String) (value : List Char) : Scope :=
  { s with named := s.named.insert name value }

/-- Hands a parameter to the programs that are started. -/
def Scope.hand (s : Scope) (name : String) : Scope :=
  if s.exported.contains name then s else { s with exported := name :: s.exported }

/-- Forgets a parameter. -/
def Scope.forget (s : Scope) (name : String) : Scope :=
  { s with named := s.named.erase name, exported := s.exported.filter (· ≠ name) }

/-- Sets the parameters that the words at the start of a command set, and `use`s their names. -/
def assign (use : Scope → String → Scope) (s : Scope) :
    List (List Piece) → Scope × List (List Piece)
  | [] => (s, [])
  | w :: rest =>
    match assignment? w with
    | some (name, value) =>
      let name := String.ofList name
      assign use (use (s.set name (expandWhole s value)) name) rest
    | none => (s, w :: rest)

/-- What `export` does with its words. -/
def exportWords (s : Scope) (words : List (List Piece)) : Scope :=
  words.foldl
    (fun s w => match assign .hand s [w] with
      | (s, []) => s
      | (s, rest) => (rest.flatMap (expand s)).foldl .hand s) s

/-! ### Outputs -/

/-- Where output goes: to one of the channels of the shell, or to a file. -/
inductive Sink where
  | channel (n : Nat)
  | file (p : Path)

/-- Why a redirection cannot be followed: what is wrong with a file of a name. -/
structure Obstacle where
  name : String
  failure : Failure

/-- What the shell says of an obstacle. -/
def Obstacle.text (o : Obstacle) : String :=
  "cannot create " ++ o.name ++ ": " ++ match o.failure with
    | .notFound => "Directory nonexistent"
    | e => failureText e

/-- Follows redirections from the left; files are created on the way. -/
def follow (scope : Scope) (directory : Path) : List Redirect → FileSystem → Sink × Sink →
    Except Obstacle (FileSystem × Sink × Sink)
  | [], files, sinks => .ok (files, sinks)
  | .copy n source :: rest, files, (one, two) =>
    let target := if source = 1 then one else two
    follow scope directory rest files (if n = 1 then (target, two) else (one, target))
  | .file n append w :: rest, files, (one, two) => do
    let name := String.ofList (expandWhole scope w)
    let p := (Site.mk files directory .empty).path name
    let old := if append then (files.readFile p).toOption.getD [] else []
    let files ←
      if name = "/dev/null" then pure files
      else (files.writeFile p old).mapError (Obstacle.mk name)
    follow scope directory rest files (if n = 1 then (.file p, two) else (one, .file p))

/-- Hands output over to where it goes. -/
def emit (s : Session) (bytes : Bytes) : Sink → Session
  | .channel 1 => { s with out := s.out ++ bytes }
  | .channel _ => { s with err := s.err ++ bytes }
  | .file p =>
    match s.files.writeFile p ((s.files.readFile p).toOption.getD [] ++ bytes) with
    | .ok files => { s with files := files }
    | .error _ => s

/-! ### Commands of the shell itself -/

/-- Ends the shell with a status. -/
def exit (s : Session) (line : Nat) : List String → Session
  | [] => { s with ended := true }
  | text :: _ =>
    match Decimal.number? text.toList with
    | some n => { s.withStatus (n % 256) with ended := true }
    | none => s.abort line ("exit: Illegal number: " ++ text)

/-- Runs a script in the same shell. -/
def source (level : Level) (s : Session) (line : Nat) (name : String) : Session :=
  if !(Path.ofString name).bytes.contains Path.slash then
    s.abort line (".: " ++ name ++ ": not found")
  else
    match s.files.readFile (s.site.path name) with
    | .ok bytes => level.source s (Utf8.display bytes).toList
    | .error _ => s.abort line (".: cannot open " ++ name ++ ": No such file")

/-- Goes to a directory. -/
def changeDirectory (s : Session) (line : Nat) (name : String) : Session :=
  if s.site.isDirectory name then { s.withStatus 0 with directory := s.site.path name }
  else s.complain line 2 ("cd: can't cd to " ++ name)

/-- Drops numbered parameters. -/
def shift (s : Session) (line : Nat) (args : List String) : Session :=
  match args.head?.map fun text => (text, Decimal.number? text.toList) with
  | some (text, none) => s.abort line ("shift: Illegal number: " ++ text)
  | count? =>
    let n := (count?.bind (·.2)).getD 1
    if s.scope.numbered.length < n then s.abort line "shift: can't shift that many"
    else { s with scope := { s.scope with numbered := s.scope.numbered.drop n, status := 0 } }

/-- Sets options, and numbered parameters after two dashes. -/
def setOptions (s : Session) : List String → Session
  | [] => s.withStatus 0
  | "--" :: args =>
    { s with scope := { s.scope with numbered := args.map String.toList, status := 0 } }
  | arg :: rest =>
    let letters := arg.toList.drop 1
    if arg.startsWith "-" && letters.contains 'e' then setOptions { s with strict := true } rest
    else if arg.startsWith "+" && letters.contains 'e' then
      setOptions { s with strict := false } rest
    else setOptions s rest

/-- The status of a condition. -/
def decideCondition (s : Session) (line : Nat) (name : String) (args : List String) : Session :=
  match condition s.site name args with
  | .ok b => s.withStatus (if b then 0 else 1)
  | .error reason => s.complain line 2 (name ++ ": " ++ reason)

/-! ### Running -/

/-- Runs a program with its output where it goes. -/
def runProgram (level : Level) (s : Session) (line : Nat) (one two : Sink) (name : String)
    (args : List String) : Session :=
  let r := (utility? level.shell s.site name args).getD
    (.complaint s.files 127 (s.remark line (name ++ ": not found")))
  let s := { s.withStatus r.status with files := r.files, ended := r.ends }
  emit (emit s r.out one) r.err two

/-- Commands that change nothing that can be seen here. -/
def isIdle (name : String) : Bool :=
  [":", "export", "wait", "umask", "ulimit", "trap", "alias"].contains name

/-- The effect of a command's fields. -/
def perform (level : Level) (s : Session) (line : Nat) (one two : Sink) : List String → Session
  | [] => s.withStatus 0
  | "unset" :: names => { s.withStatus 0 with scope := names.foldl .forget (s.withStatus 0).scope }
  | "exit" :: args | "return" :: args => exit s line args
  | "eval" :: args => level.source (s.withStatus 0) (" ".intercalate args).toList
  | "command" :: name :: args => runProgram level s line one two name args
  | "exec" :: name :: args => { runProgram level s line one two name args with ended := true }
  | "." :: name :: _ => source level (s.withStatus 0) line name
  | "cd" :: name :: _ => changeDirectory s line name
  | "shift" :: args => shift s line args
  | "set" :: args => setOptions s args
  | "test" :: args => decideCondition s line "test" args
  | "[" :: args => decideCondition s line "[" args
  | name :: args =>
    if isIdle name then s.withStatus 0 else runProgram level s line one two name args

/-- The commands after which the parameters that stand before them stay set. -/
def keepsAssignments : List String → Bool
  | [] => true
  | name :: _ =>
    [":", "export", "unset", "exit", "return", "exec", "eval", ".", "shift", "set"].contains name

/-- Runs a command whose output goes to the two given places. -/
def runFields (level : Level) (s : Session) (c : Command) (one two : Sink) : Session :=
  let words := (assign (fun scope _ => scope) s.scope c.words).2
  let fields := words.flatMap (expand s.scope)
  if keepsAssignments fields then
    let scope := (assign (fun scope _ => scope) s.scope c.words).1
    let scope := if fields.head? = some "export" then exportWords scope words.tail else scope
    perform level { s with scope := scope } c.line one two fields
  else
    let scope := (assign .hand s.scope c.words).1
    let after := perform level { s with scope := scope } c.line one two fields
    if words.length = c.words.length then after
    else { after with scope := { s.scope with status := after.scope.status } }

/-- Runs a command that is not negated. -/
def runPlain (level : Level) (s : Session) (c : Command) : Session :=
  match follow s.scope s.directory c.redirects s.files (.channel 1, .channel 2) with
  | .error e => s.complain c.line 2 e.text
  | .ok (files, one, two) => runFields level { s with files := files } c one two

/-- Runs a command.  An exclamation mark before it turns success into failure, and the reverse. -/
def runCommand (level : Level) (s : Session) (c : Command) : Session :=
  match c.words with
  | [.text ['!'] false] :: words =>
    let s := runPlain level s { c with words := words }
    if s.ended then s else s.withStatus (if s.scope.status = 0 then 1 else 0)
  | _ => runPlain level s c

/-- Whether a link lets a command run after a status. -/
def Link.allows (link : Link) (status : Nat) : Bool :=
  match link with
  | .always => true
  | .onSuccess => status = 0
  | .onFailure => status ≠ 0

/-- Runs commands where their links let them run.  A strict shell ends when a command has failed on
whose status no other one hangs. -/
def runCommands (level : Level) (s : Session) : List (Link × Command) → Session
  | [] => s
  | (link, c) :: rest =>
    if s.ended then s
    else if link.allows s.scope.status then
      let s := runCommand level s c
      let decides := rest.head?.all fun next => next.1 = .always
      runCommands level
        { s with ended := s.ended || (s.strict && decides && s.scope.status ≠ 0) } rest
    else runCommands level s rest

/-- Runs a script in a shell. -/
def runScript (level : Level) (s : Session) (script : List Char) : Session :=
  let p := parse script
  let s := runCommands level s p.commands
  match p.fault with
  | some f => if s.ended then s else s.abort f.line ("Syntax error: " ++ f.reason)
  | none => s

/-! ### The shell as a program -/

/-- The letters that the shell knows as options. -/
def options : List Char := "abCceEfIilmnopsuvVx".toList

/-- Runs the shell on its operands. -/
def runShell (level : Level) (site : Site) (letters : List Char) : List String → Outcome
  | [] =>
    if letters.contains 'c' then .complaint site.files 2 "sh: 0: -c requires an argument"
    else .quiet site.files 0
  | operand :: rest =>
    let strict := letters.contains 'e'
    if letters.contains 'c' then
      (runScript level (.start site strict (rest.headD "sh") rest.tail) operand.toList).outcome
    else
      match site.files.readFile (site.path operand) with
      | .ok bytes =>
        let script := (Utf8.display bytes).toList
        (runScript level (.start site strict operand rest) script).outcome
      | .error _ => .complaint site.files 2 ("sh: 0: cannot open " ++ operand ++ ": No such file")

/-- The shell with its arguments, on a level above another. -/
def shellOn (level : Level) (site : Site) (args : List String) : Outcome :=
  let (letters, operands) := splitOptions args
  match letters.find? (!options.contains ·) with
  | some c => .complaint site.files 2 ("sh: 0: Illegal option -" ++ String.ofList [c])
  | none => runShell level site letters operands

/-- The level with so many others below it. -/
def levelOf : Nat → Level
  | 0 => ⟨fun site _ => .complaint site.files 2 "sh: 0: too many levels", fun s _ => s⟩
  | n + 1 => ⟨shellOn (levelOf n), runScript (levelOf n)⟩

/-- The shell. -/
def sh (depth : Nat) : Site → List String → Outcome := (levelOf depth).shell

/-- The number of levels that scripts may be nested. -/
def nesting : Nat := 64

/-! ### From outside -/

/-- The directories in which programs are found. -/
def programDirectories : List Path := [Path.ofString "/usr/bin", Path.ofString "/bin"]

/-- The name of the program that a path or a bare name leads to. -/
def programName (files : FileSystem) (program : String) : Except Failure String :=
  let p := Path.ofString program
  if p.bytes.contains Path.slash then
    match programDirectories.filterMap p.within?, p.fileName? with
    | _ :: _, some name => .ok (Utf8.display name)
    | _, _ =>
      match files.lookup p with
      | .ok _ => .error .permissionDenied
      | .error e => .error e
  else .ok program

/-- Runs a program with arguments, if there is one. -/
def spawn (files : FileSystem) (program : String) (args : List String) :
    Except Failure Outcome := do
  let name ← programName files program
  match utility? (sh nesting) (.ofFiles files) name args with
  | some r => return r
  | none => throw .notFound

end KernelCache.Shell
