/-
**The words of the command line.**

The first word that is no option is a verb.  Options that all verbs share may stand before and after
it, and what is given after it counts.  An option's operand is the next word or is attached to it:
`--name=operand`, `-nOperand` or `-n=operand`; letters of options without operands may share a dash.
After two dashes every word is an operand of the verb.

Main definitions:

* `Switch`, `Verb` — the options and verbs, with what they accept;
* `Word` — the shapes of words;
* `Reading`, `Reading.step` — what the words so far have said;
* `Invocation`, `Invocation.ofWords` — what is to be done.
-/

import KernelCache.Backend
import KernelCache.Text.Decimal

set_option relaxedAutoImplicit false
set_option autoImplicit false

namespace KernelCache.CommandLine

/-! ### Options and verbs -/

/-- An option. -/
inductive Switch where
  | quiet
  | verbose
  | configuration
  | cacheRoot
  | help
  | version
  | backend
  | compiler
  | compilerFlags
  | define
  | timeout
  | salt
  deriving DecidableEq, Repr

/-- What an option has for an operand: none, a word that does not look like an option, or any
word. -/
inductive Operand where
  | nothing
  | plainWord
  | anyWord
  deriving DecidableEq, Repr

namespace Switch

/-- The name after two dashes. -/
def name : Switch → String
  | .quiet => "quiet"
  | .verbose => "verbose"
  | .configuration => "config"
  | .cacheRoot => "cache-dir"
  | .help => "help"
  | .version => "version"
  | .backend => "backend"
  | .compiler => "compiler"
  | .compilerFlags => "flags"
  | .define => "define"
  | .timeout => "timeout"
  | .salt => "salt"

/-- The letter after one dash. -/
def letter? : Switch → Option Char
  | .quiet => some 'q'
  | .verbose => some 'v'
  | .help => some 'h'
  | .version => some 'V'
  | .backend => some 'b'
  | .define => some 'D'
  | .configuration | .cacheRoot | .compiler | .compilerFlags | .timeout | .salt => none

/-- The operand. -/
def operand : Switch → Operand
  | .quiet | .verbose | .help | .version => .nothing
  | .compilerFlags => .anyWord
  | .configuration | .cacheRoot | .backend | .compiler | .define | .timeout | .salt => .plainWord

/-- Only definitions may be given more than once. -/
def repeats (s : Switch) : Bool := s = .define

/-- A time in seconds. -/
def seconds? (s : String) : Option Nat := Decimal.unsigned? 0xFFFFFFFFFFFFFFFF s.toList

/-- Whether an operand is one that the option can mean. -/
def accepts (s : Switch) (operand : String) : Bool :=
  match s with
  | .backend => (Backend.ofWord? operand).isSome
  | .timeout => (seconds? operand).isSome
  | _ => true

end Switch

/-- What the program can do. -/
inductive Verb where
  | build
  | hash
  | locks
  | config
  | help
  deriving DecidableEq, Repr

namespace Verb

/-- The word for a verb. -/
def word : Verb → String
  | .build => "build"
  | .hash => "hash"
  | .locks => "locks"
  | .config => "config"
  | .help => "help"

/-- The verb of a word. -/
def ofWord? (s : String) : Option Verb :=
  [build, hash, locks, config, help].find? fun v => v.word == s

/-- The options that may stand before and after a verb. -/
def shared : List Switch := [.quiet, .verbose, .configuration, .cacheRoot, .help]

/-- The options that may stand after a verb. -/
def switches : Verb → List Switch
  | .build => shared ++ [.backend, .compiler, .compilerFlags, .define, .timeout]
  | .hash => shared ++ [.salt]
  | .locks | .config | .help => shared

/-- How many operands a verb needs. -/
def arity : Verb → Nat
  | .build => 2
  | .hash => 1
  | .locks | .config | .help => 0

end Verb

/-! ### Words -/

/-- The shape of a word. -/
inductive Word where
  | plain
  | separator
  | long (name : String) (attached : Option String)
  | letters (cs : List Char)
  deriving DecidableEq, Repr

/-- The shape of a word.  A lone dash is plain. -/
def Word.ofString (s : String) : Word :=
  match s.toList with
  | ['-', '-'] => .separator
  | '-' :: '-' :: cs =>
    let name := String.ofList (cs.takeWhile (· ≠ '='))
    match cs.dropWhile (· ≠ '=') with
    | [] => .long name none
    | _ :: attached => .long name (some (String.ofList attached))
  | '-' :: c :: cs => .letters (c :: cs)
  | _ => .plain

/-- Why nothing is done: help or the version was asked for, or the words make no sense. -/
inductive Refusal where
  | help
  | version
  | misuse
  deriving DecidableEq, Repr

/-- What the words so far have said.  `waiting` is an option whose operand is the next word. -/
structure Reading where
  verb : Option Verb
  outer : List (Switch × String)
  inner : List (Switch × String)
  operands : List String
  waiting : Option Switch
  plainOnly : Bool
  deriving DecidableEq, Repr

namespace Reading

/-- Before the first word. -/
def start : Reading := ⟨none, [], [], [], none, false⟩

/-- The options that may stand here. -/
def known (r : Reading) : List Switch :=
  match r.verb with
  | none => .version :: Verb.shared
  | some v => v.switches

/-- Whether an option was given on this side of the verb. -/
def has (r : Reading) (s : Switch) : Bool :=
  (if r.verb.isSome then r.inner else r.outer).any fun g => g.1 = s

/-- Notes an option with its operand. -/
def note (r : Reading) (s : Switch) (operand : String) : Reading :=
  if r.verb.isSome then { r with inner := r.inner ++ [(s, operand)] }
  else { r with outer := r.outer ++ [(s, operand)] }

/-- Takes an option with its operand. -/
def take (r : Reading) (s : Switch) (operand : String) : Except Refusal Reading :=
  match s with
  | .help => .error .help
  | .version => .error .version
  | s =>
    if (!s.repeats && r.has s) || !s.accepts operand then .error .misuse
    else .ok (r.note s operand)

/-- Takes a word that is no option: the verb, or an operand of it. -/
def plain (r : Reading) (text : String) : Except Refusal Reading :=
  match r.verb with
  | none =>
    match Verb.ofWord? text with
    | some v => if r.plainOnly then .error .misuse else .ok { r with verb := some v }
    | none => .error .misuse
  | some v =>
    if r.operands.length < v.arity then .ok { r with operands := r.operands ++ [text] }
    else .error .misuse

/-- Takes an option by its name. -/
def long (r : Reading) (name : String) (attached : Option String) : Except Refusal Reading :=
  match r.known.find? fun s => s.name == name with
  | none => .error .misuse
  | some s =>
    match s.operand, attached with
    | .nothing, none => r.take s ""
    | .nothing, some _ => .error .misuse
    | _, some operand => r.take s operand
    | _, none => .ok { r with waiting := some s }

/-- Takes options by their letters. -/
def letters (r : Reading) : List Char → Except Refusal Reading
  | [] => .ok r
  | c :: rest =>
    match r.known.find? fun s => s.letter? == some c with
    | none => .error .misuse
    | some s =>
      match s.operand, rest with
      | .nothing, rest => do (← r.take s "").letters rest
      | _, [] => .ok { r with waiting := some s }
      | _, '=' :: operand => r.take s (String.ofList operand)
      | _, operand => r.take s (String.ofList operand)

/-- Takes the operand of an option that waits for it. -/
def answer (r : Reading) (s : Switch) (text : String) : Except Refusal Reading :=
  if s.operand = .anyWord ∨ Word.ofString text = .plain then
    { r with waiting := none }.take s text
  else .error .misuse

/-- Takes a word. -/
def step (r : Reading) (text : String) : Except Refusal Reading :=
  match r.waiting with
  | some s => r.answer s text
  | none =>
    if r.verb = some .help then .ok { r with operands := r.operands ++ [text] }
    else if r.plainOnly then r.plain text
    else
      match Word.ofString text with
      | .plain => r.plain text
      | .separator => .ok { r with plainOnly := true }
      | .long name attached => r.long name attached
      | .letters cs => r.letters cs

/-- The operand of an option; what stands after the verb counts first. -/
def value? (r : Reading) (s : Switch) : Option String := (r.inner ++ r.outer).lookup s

/-- The operands of an option that may be given more than once. -/
def values (r : Reading) (s : Switch) : List String :=
  (r.inner.filter fun g => g.1 = s).map (·.2)

end Reading

/-! ### What is to be done -/

/-- What a build is told on the command line. -/
structure BuildOptions where
  source : String
  function : String
  backend : Option Backend
  compiler : Option String
  compilerFlags : Option String
  defines : List String
  timeout : Option Nat
  deriving DecidableEq, Repr

/-- What is to be done. -/
inductive Command where
  | build (options : BuildOptions)
  | hash (file salt : String)
  | locks
  | config
  deriving DecidableEq, Repr

/-- What is to be done and how. -/
structure Invocation where
  quiet : Bool
  configuration : Option String
  cacheRoot : Option String
  command : Command
  deriving DecidableEq, Repr

/-- The command that complete words give. -/
def Reading.command (r : Reading) : Except Refusal Command :=
  match r.verb, r.operands with
  | some .build, [source, function] =>
    .ok (.build {
      source := source
      function := function
      backend := (r.value? .backend).bind Backend.ofWord?
      compiler := r.value? .compiler
      compilerFlags := r.value? .compilerFlags
      defines := r.values .define
      timeout := (r.value? .timeout).bind Switch.seconds? })
  | some .hash, [file] => .ok (.hash file ((r.value? .salt).getD ""))
  | some .locks, _ => .ok .locks
  | some .config, _ => .ok .config
  | some .help, [] => .error .help
  | some .help, [verb] => .error (if (Verb.ofWord? verb).isSome then .help else .misuse)
  | _, _ => .error .misuse

namespace Invocation

/-- What complete words say. -/
def ofReading (r : Reading) : Except Refusal Invocation := do
  if r.waiting.isSome then throw .misuse
  return ⟨(r.value? .quiet).isSome, r.value? .configuration, r.value? .cacheRoot, ← r.command⟩

/-- What the words of a command line say. -/
def ofWords (words : List String) : Except Refusal Invocation :=
  words.foldlM Reading.step Reading.start >>= ofReading

end Invocation

end KernelCache.CommandLine
