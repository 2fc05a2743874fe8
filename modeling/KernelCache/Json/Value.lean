/-
**JSON documents.**

Tokens are put together by a machine that keeps the arrays and objects that are still open on a
stack, so a document may be nested to any depth.

Main definitions:

* `Json` — documents;
* `Json.Frame`, `Json.Reader`, `Json.Reader.step` — the machine;
* `Json.parse?` — the document that bytes write.
-/

import KernelCache.Json.Token

set_option relaxedAutoImplicit false
set_option autoImplicit false

namespace KernelCache

/-- A document.  Strings and numbers keep the bytes in which they are written. -/
inductive Json where
  | null
  | bool (b : Bool)
  | number (text : Bytes)
  | string (raw : Bytes)
  | array (items : List Json)
  | object (members : List (Bytes × Json))
  deriving Repr, Inhabited

namespace Json

/-- An array or object that is still open, with what it has so far, latest first. -/
inductive Frame where
  | array (items : List Json)
  | object (members : List (Bytes × Json)) (key : Bytes)

/-- What the machine expects next.  The stack holds what is open, innermost first. -/
inductive Reader where
  | value (stack : List Frame)
  | firstItem (stack : List Frame)
  | firstKey (stack : List Frame)
  | key (members : List (Bytes × Json)) (stack : List Frame)
  | colon (members : List (Bytes × Json)) (key : Bytes) (stack : List Frame)
  | moreItems (items : List Json) (stack : List Frame)
  | moreMembers (members : List (Bytes × Json)) (stack : List Frame)
  | finished (document : Json)

namespace Reader

/-- Hands a complete value to what is open around it. -/
def deliver (v : Json) : List Frame → Reader
  | [] => .finished v
  | .array items :: stack => .moreItems (v :: items) stack
  | .object members k :: stack => .moreMembers ((k, v) :: members) stack

/-- The effect of a token where a value is expected. -/
def startValue (stack : List Frame) : Token → Option Reader
  | .null => some (deliver .null stack)
  | .bool b => some (deliver (.bool b) stack)
  | .number text => some (deliver (.number text) stack)
  | .string raw => some (deliver (.string raw) stack)
  | .openBracket => some (.firstItem stack)
  | .openBrace => some (.firstKey stack)
  | .closeBrace | .closeBracket | .colon | .comma => none

/-- The effect of a token. -/
def step : Reader → Token → Option Reader
  | .value stack, t => startValue stack t
  | .firstItem stack, .closeBracket => some (deliver (.array []) stack)
  | .firstItem stack, t => startValue (.array [] :: stack) t
  | .firstKey stack, .closeBrace => some (deliver (.object []) stack)
  | .firstKey stack, .string raw => some (.colon [] raw stack)
  | .key members stack, .string raw => some (.colon members raw stack)
  | .colon members k stack, .colon => some (.value (.object members k :: stack))
  | .moreItems items stack, .comma => some (.value (.array items :: stack))
  | .moreItems items stack, .closeBracket => some (deliver (.array items.reverse) stack)
  | .moreMembers members stack, .comma => some (.key members stack)
  | .moreMembers members stack, .closeBrace => some (deliver (.object members.reverse) stack)
  | _, _ => none

/-- The machine after more tokens. -/
def feed (r : Reader) (tokens : List Token) : Option Reader := tokens.foldlM step r

/-- The document, when it is complete. -/
def finish : Reader → Option Json
  | .finished v => some v
  | _ => none

end Reader

/-- The document that tokens make up. -/
def ofTokens? (tokens : List Token) : Option Json :=
  ((Reader.value []).feed tokens).bind Reader.finish

/-- The document that bytes write. -/
def parse? (bytes : Bytes) : Option Json := (tokens? bytes).bind ofTokens?

end Json

end KernelCache
