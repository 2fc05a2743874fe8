/-
**Text as bytes.**

File contents and paths are bytes; messages and names are text.  A byte sequence is read by a
machine that takes one byte at a time and answers with the characters it completes.  A part that
cannot be continued to a character is answered with `none`, once for each longest part that could
have been the start of one, so the same reading serves three questions: whether the bytes are text
at all, how much of them is text before the first fault, and how they are shown when they are not.

Main definitions:

* `Bytes`, `Utf8.encode` — bytes, and the bytes of a text;
* `Utf8.Pending`, `Utf8.feed` — the reading machine;
* `Utf8.read` — the characters and faults of a byte sequence;
* `Utf8.decode?`, `Utf8.soundStart`, `Utf8.display` — the three questions.
-/

set_option relaxedAutoImplicit false
set_option autoImplicit false

namespace KernelCache

/-- The contents of a file, or a name in a directory. -/
abbrev Bytes := List UInt8

namespace Utf8

/-- The bytes of a text. -/
def encode (s : String) : Bytes := s.toList.flatMap String.utf8EncodeChar

/-! ### The reading machine -/

/-- What the machine has read of a character: nothing, or a beginning that needs `left + 1` more
bytes, of which the next lies between `low` and `high`. -/
inductive Pending where
  | idle
  | more (left : Nat) (low high : UInt8) (value : Nat)
  deriving DecidableEq, Repr

/-- The effect of a byte that starts a character: what it completes, and what is then pending. -/
def start (b : UInt8) : List (Option Char) × Pending :=
  let v := b.toNat
  if v < 0x80 then ([some (Char.ofNat v)], .idle)
  else if v < 0xC2 then ([none], .idle)
  else if v < 0xE0 then ([], .more 0 0x80 0xBF (v - 0xC0))
  else if v = 0xE0 then ([], .more 1 0xA0 0xBF 0)
  else if v = 0xED then ([], .more 1 0x80 0x9F 13)
  else if v < 0xF0 then ([], .more 1 0x80 0xBF (v - 0xE0))
  else if v = 0xF0 then ([], .more 2 0x90 0xBF 0)
  else if v < 0xF4 then ([], .more 2 0x80 0xBF (v - 0xF0))
  else if v = 0xF4 then ([], .more 2 0x80 0x8F 4)
  else ([none], .idle)

/-- The effect of one byte.  A byte that cannot continue what is pending ends it as a fault and is
then taken as the start of something new. -/
def feed : Pending → UInt8 → List (Option Char) × Pending
  | .idle, b => start b
  | .more left low high value, b =>
    if low ≤ b ∧ b ≤ high then
      let value := value * 64 + b.toNat % 64
      match left with
      | 0 => ([some (Char.ofNat value)], .idle)
      | left + 1 => ([], .more left 0x80 0xBF value)
    else
      let (out, next) := start b
      (none :: out, next)

/-- The characters and faults of a byte sequence, continuing from what is pending. -/
def readFrom : Pending → Bytes → List (Option Char)
  | .idle, [] => []
  | .more .., [] => [none]
  | p, b :: rest =>
    let (out, next) := feed p b
    out ++ readFrom next rest

/-- The characters of a byte sequence, with `none` for each faulty part. -/
def read (bytes : Bytes) : List (Option Char) := readFrom .idle bytes

/-! ### The three questions -/

/-- The text that the bytes encode, if they encode one. -/
def decode? (bytes : Bytes) : Option (List Char) := (read bytes).mapM id

/-- The characters before the first fault. -/
def soundStart (bytes : Bytes) : List Char :=
  ((read bytes).takeWhile Option.isSome).filterMap id

/-- The bytes as text for a reader, with a replacement character for each fault. -/
def display (bytes : Bytes) : String :=
  String.ofList ((read bytes).map fun c => c.getD '\uFFFD')

/-- The text of the bytes as a string, if they encode one. -/
def toString? (bytes : Bytes) : Option String := (decode? bytes).map String.ofList

end Utf8

end KernelCache
