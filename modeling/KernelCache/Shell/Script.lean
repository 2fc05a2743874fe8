/-
**Scripts of a shell.**

A script is a sequence of simple commands, each of which runs always, or only if the one before it
succeeded, or only if it failed.  It is read line by line: the lines before a fault still run.

Main definitions:

* `Shell.Token`, `Shell.tokens` — the words and operators of a script;
* `Shell.Command`, `Shell.Redirect`, `Shell.Link` — simple commands;
* `Shell.Fault` — where a script stops making sense;
* `Shell.parse` — the commands of a script.
-/

import KernelCache.Shell.Word

set_option relaxedAutoImplicit false
set_option autoImplicit false

namespace KernelCache.Shell

open Scan

/-! ### Tokens -/

/-- A word or an operator. -/
inductive Token where
  | word (w : List Piece)
  | redirect (channel : Nat) (append : Bool)
  | copy (channel source : Nat)
  | also
  | instead
  | semicolon
  | lineBreak

/-- The number of an output channel, the standard one if none is given. -/
def channel : Scan Nat := do
  match ← optional (one fun c => c == '1' || c == '2') with
  | some '2' => return 2
  | _ => return 1

/-- A redirection of an output channel. -/
def redirection : Scan Token := do
  let n ← channel
  (do
    word ">&"
    return .copy n (← (do word "1"; return 1) <|> (do word "2"; return 2))) <|>
  (do word ">>"; return .redirect n true) <|>
  (do word ">"; return .redirect n false)

/-- A token, with the blanks before it. -/
def token : Scan Token := do
  let _ ← take fun c => c == ' ' || c == '\t'
  let _ ← optional do
    word "#"
    take (· != '\n')
  (do word "\n"; return .lineBreak) <|> (do word ";"; return .semicolon) <|>
    (do word "&&"; return .also) <|> (do word "||"; return .instead) <|> redirection <|>
    (.word <$> shellWord)

/-- The tokens of a script. -/
def tokens : Scan (List Token) := do
  let ts ← many token
  let _ ← take isBlank
  let _ ← optional do
    word "#"
    take fun _ => true
  return ts

/-- An operator as it is written. -/
def Token.text : Token → String
  | .also => "&&"
  | .instead => "||"
  | .semicolon => ";"
  | .lineBreak => "newline"
  | .word _ => "word"
  | .redirect .. | .copy .. => ">"

/-! ### Commands -/

/-- When a command runs. -/
inductive Link where
  | always
  | onSuccess
  | onFailure
  deriving DecidableEq, Repr

/-- The link to the command after an operator. -/
def Link.after : Token → Link
  | .also => .onSuccess
  | .instead => .onFailure
  | _ => .always

/-- Where an output channel goes. -/
inductive Redirect where
  | file (channel : Nat) (append : Bool) (target : List Piece)
  | copy (channel source : Nat)

/-- A simple command, with the line on which it ends. -/
structure Command where
  words : List (List Piece)
  redirects : List Redirect
  line : Nat

namespace Command

/-- The command at the start of a line. -/
def start (line : Nat) : Command := ⟨[], [], line⟩

/-- Whether nothing of a command has been read. -/
def isEmpty (c : Command) : Bool := c.words.isEmpty && c.redirects.isEmpty

end Command

/-- Where a script stops making sense. -/
structure Fault where
  line : Nat
  reason : String
  deriving DecidableEq, Repr

/-- The commands of the lines that make sense, and what follows them. -/
structure Parsed where
  commands : List (Link × Command)
  fault : Option Fault

namespace Parsed

/-- A script that is over. -/
def finished : Parsed := ⟨[], none⟩

/-- A script that stops making sense. -/
def failed (line : Nat) (reason : String) : Parsed := ⟨[], some ⟨line, reason⟩⟩

/-- A script with commands before it. -/
def after (p : Parsed) (cs : List (Link × Command)) : Parsed :=
  { p with commands := cs ++ p.commands }

end Parsed

/-- A command after those of its line, if anything of it has been read. -/
def close (line : List (Link × Command)) (link : Link) (c : Command) : List (Link × Command) :=
  if c.isEmpty then line else line ++ [(link, c)]

/-- The commands that tokens make up, after a part of a line: commands, and what has been read of
the next.  `ending` is what is wrong after the last token. -/
def commands (ending : Option String) :
    (line : List (Link × Command)) → Link → Command → List Token → Parsed
  | line, link, c, [] =>
    match ending with
    | some reason => .failed c.line reason
    | none =>
      if c.isEmpty ∧ link ≠ .always then .failed c.line "end of file unexpected"
      else Parsed.finished.after (close line link c)
  | line, link, c, .redirect n append :: .word w :: rest =>
    commands ending line link { c with redirects := c.redirects ++ [.file n append w] } rest
  | _, _, c, .redirect .. :: t :: _ => .failed c.line (t.text ++ " unexpected")
  | _, _, c, [.redirect ..] => .failed c.line "end of file unexpected"
  | line, link, c, .copy n source :: rest =>
    commands ending line link { c with redirects := c.redirects ++ [.copy n source] } rest
  | line, link, c, .word w :: rest =>
    commands ending line link { c with words := c.words ++ [w] } rest
  | line, link, c, .lineBreak :: rest =>
    if c.isEmpty ∧ link ≠ .always then commands ending line link (.start (c.line + 1)) rest
    else (commands ending [] .always (.start (c.line + 1)) rest).after (close line link c)
  | line, link, c, t :: rest =>
    if c.isEmpty then .failed c.line ("\"" ++ t.text ++ "\" unexpected")
    else commands ending (close line link c) (.after t) (.start c.line) rest

/-- What is wrong with text that is no token. -/
def tokenFault : List Char → Option String
  | [] => none
  | '\'' :: _ | '"' :: _ => some "Unterminated quoted string"
  | c :: _ => some ("\"" ++ String.ofList [c] ++ "\" unexpected")

/-- The commands of a script. -/
def parse (script : List Char) : Parsed :=
  match tokens script with
  | some (ts, rest) => commands (tokenFault rest) [] .always (.start 1) ts
  | none => .finished

end KernelCache.Shell
