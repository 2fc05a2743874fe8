/-
**The hash XXH3 of 128 bits, with seed zero and the default secret.**

Inputs are hashed by six rules according to their length: none, one to three bytes, four to eight,
nine to sixteen, seventeen to 240 in two variants, and longer ones by stripes of sixty-four bytes
into eight accumulators.

Main definitions:

* `Xxh3.secret` — the 192 bytes that key the hash;
* `Xxh3.Wide` — a pair of 64-bit words, and `Xxh3.product` with both halves of a product;
* `Xxh3.short`, `Xxh3.medium`, `Xxh3.long` — the rules;
* `Xxh3.hash` — the hash of an array of bytes.
-/

import KernelCache.Text.Utf8

set_option relaxedAutoImplicit false
set_option autoImplicit false

namespace KernelCache.Xxh3

/-! ### Constants -/

/-- The default secret. -/
def secret : Array UInt8 := #[
  0xb8, 0xfe, 0x6c, 0x39, 0x23, 0xa4, 0x4b, 0xbe, 0x7c, 0x01, 0x81, 0x2c, 0xf7, 0x21, 0xad, 0x1c,
  0xde, 0xd4, 0x6d, 0xe9, 0x83, 0x90, 0x97, 0xdb, 0x72, 0x40, 0xa4, 0xa4, 0xb7, 0xb3, 0x67, 0x1f,
  0xcb, 0x79, 0xe6, 0x4e, 0xcc, 0xc0, 0xe5, 0x78, 0x82, 0x5a, 0xd0, 0x7d, 0xcc, 0xff, 0x72, 0x21,
  0xb8, 0x08, 0x46, 0x74, 0xf7, 0x43, 0x24, 0x8e, 0xe0, 0x35, 0x90, 0xe6, 0x81, 0x3a, 0x26, 0x4c,
  0x3c, 0x28, 0x52, 0xbb, 0x91, 0xc3, 0x00, 0xcb, 0x88, 0xd0, 0x65, 0x8b, 0x1b, 0x53, 0x2e, 0xa3,
  0x71, 0x64, 0x48, 0x97, 0xa2, 0x0d, 0xf9, 0x4e, 0x38, 0x19, 0xef, 0x46, 0xa9, 0xde, 0xac, 0xd8,
  0xa8, 0xfa, 0x76, 0x3f, 0xe3, 0x9c, 0x34, 0x3f, 0xf9, 0xdc, 0xbb, 0xc7, 0xc7, 0x0b, 0x4f, 0x1d,
  0x8a, 0x51, 0xe0, 0x4b, 0xcd, 0xb4, 0x59, 0x31, 0xc8, 0x9f, 0x7e, 0xc9, 0xd9, 0x78, 0x73, 0x64,
  0xea, 0xc5, 0xac, 0x83, 0x34, 0xd3, 0xeb, 0xc3, 0xc5, 0x81, 0xa0, 0xff, 0xfa, 0x13, 0x63, 0xeb,
  0x17, 0x0d, 0xdd, 0x51, 0xb7, 0xf0, 0xda, 0x49, 0xd3, 0x16, 0x55, 0x26, 0x29, 0xd4, 0x68, 0x9e,
  0x2b, 0x16, 0xbe, 0x58, 0x7d, 0x47, 0xa1, 0xfc, 0x8f, 0xf8, 0xb8, 0xd1, 0x7a, 0xd0, 0x31, 0xce,
  0x45, 0xcb, 0x3a, 0x8f, 0x95, 0x16, 0x04, 0x28, 0xaf, 0xd7, 0xfb, 0xca, 0xbb, 0x4b, 0x40, 0x7e]

/-- The 32-bit primes of the hash. -/
def primeA : UInt64 := 0x9E3779B1
@[inherit_doc primeA] def primeB : UInt64 := 0x85EBCA77
@[inherit_doc primeA] def primeC : UInt64 := 0xC2B2AE3D

/-- The 64-bit primes of the hash. -/
def prime1 : UInt64 := 0x9E3779B185EBCA87
@[inherit_doc prime1] def prime2 : UInt64 := 0xC2B2AE3D27D4EB4F
@[inherit_doc prime1] def prime3 : UInt64 := 0x165667B19E3779F9
@[inherit_doc prime1] def prime4 : UInt64 := 0x85EBCA77C2B2AE63
@[inherit_doc prime1] def prime5 : UInt64 := 0x27D4EB2F165667C5

/-! ### Words -/

/-- The byte at an index, zero past the end. -/
def byteAt (data : Array UInt8) (i : Nat) : UInt64 := (data.getD i 0).toUInt64

/-- The four bytes from an index, least significant first. -/
def word32 (data : Array UInt8) (i : Nat) : UInt64 :=
  byteAt data i ||| byteAt data (i + 1) <<< 8 ||| byteAt data (i + 2) <<< 16 |||
    byteAt data (i + 3) <<< 24

/-- The eight bytes from an index, least significant first. -/
def word64 (data : Array UInt8) (i : Nat) : UInt64 :=
  word32 data i ||| word32 data (i + 4) <<< 32

/-- The eight bytes of the secret from an index. -/
def key (i : Nat) : UInt64 := word64 secret i

/-- The low half of a word. -/
def low32 (x : UInt64) : UInt64 := x &&& 0xFFFFFFFF

/-- The four low bytes in reverse order. -/
def swap32 (x : UInt64) : UInt64 :=
  (x &&& 0xFF) <<< 24 ||| (x >>> 8 &&& 0xFF) <<< 16 ||| (x >>> 16 &&& 0xFF) <<< 8 |||
    (x >>> 24 &&& 0xFF)

/-- The eight bytes in reverse order. -/
def swap64 (x : UInt64) : UInt64 := swap32 (low32 x) <<< 32 ||| swap32 (x >>> 32)

/-- Two words, low and high. -/
structure Wide where
  low : UInt64
  high : UInt64
  deriving DecidableEq, Repr

/-- The full product of two words, by products of their halves. -/
def product (a b : UInt64) : Wide :=
  let ll := low32 a * low32 b
  let hl := (a >>> 32) * low32 b
  let lh := low32 a * (b >>> 32)
  let hh := (a >>> 32) * (b >>> 32)
  let cross := (ll >>> 32) + low32 hl + lh
  ⟨cross <<< 32 ||| low32 ll, (hl >>> 32) + (cross >>> 32) + hh⟩

/-- The two halves of a product, combined. -/
def fold (a b : UInt64) : UInt64 :=
  let p := product a b
  p.low ^^^ p.high

/-- A word combined with its upper bits. -/
def shiftMix (x : UInt64) (n : UInt64) : UInt64 := x ^^^ x >>> n

/-- The last mixing of the longer rules. -/
def settle (h : UInt64) : UInt64 := shiftMix (shiftMix h 37 * 0x165667919E3779F9) 32

/-- The last mixing of the shortest rules. -/
def settleShort (h : UInt64) : UInt64 :=
  shiftMix (shiftMix (shiftMix h 33 * prime2) 29 * prime3) 32

/-! ### Up to sixteen bytes -/

/-- The rule for one to three bytes. -/
def short3 (data : Array UInt8) : Wide :=
  let n := data.size
  let c := byteAt data 0 <<< 16 ||| byteAt data (n / 2) <<< 24 ||| byteAt data (n - 1) |||
    n.toUInt64 <<< 8
  let s := swap32 c
  let r := low32 (s <<< 13) ||| s >>> 19
  ⟨settleShort (c ^^^ (word32 secret 0 ^^^ word32 secret 4)),
    settleShort (r ^^^ (word32 secret 8 ^^^ word32 secret 12))⟩

/-- The rule for four to eight bytes. -/
def short8 (data : Array UInt8) : Wide :=
  let n := data.size
  let input := word32 data 0 + word32 data (n - 4) <<< 32
  let p := product (input ^^^ (key 16 ^^^ key 24)) (prime1 + n.toUInt64 <<< 2)
  let high := p.high + p.low <<< 1
  let low := shiftMix (p.low ^^^ high >>> 3) 35 * 0x9FB21C651E98DF25
  ⟨shiftMix low 28, settle high⟩

/-- The rule for nine to sixteen bytes. -/
def short16 (data : Array UInt8) : Wide :=
  let n := data.size
  let a := word64 data 0
  let b := word64 data (n - 8)
  let p := product (a ^^^ b ^^^ (key 32 ^^^ key 40)) prime1
  let low := p.low + (n - 1).toUInt64 <<< 54
  let b := b ^^^ (key 48 ^^^ key 56)
  let high := p.high + b + low32 b * (primeB - 1)
  let q := product (low ^^^ swap64 high) prime2
  ⟨settle q.low, settle (q.high + high * prime2)⟩

/-- The rules for up to sixteen bytes. -/
def short (data : Array UInt8) : Wide :=
  if data.size > 8 then short16 data
  else if data.size > 3 then short8 data
  else if data.size > 0 then short3 data
  else ⟨settleShort (key 64 ^^^ key 72), settleShort (key 80 ^^^ key 88)⟩

/-! ### Up to 240 bytes -/

/-- Sixteen bytes of input against sixteen of the secret. -/
def mix16 (data : Array UInt8) (i k : Nat) : UInt64 :=
  fold (word64 data i ^^^ key k) (word64 data (i + 8) ^^^ key (k + 8))

/-- Two runs of sixteen bytes, at `i` and `j`, into a pair of words. -/
def mix32 (data : Array UInt8) (acc : Wide) (i j k : Nat) : Wide :=
  ⟨(acc.low + mix16 data i k) ^^^ (word64 data j + word64 data (j + 8)),
    (acc.high + mix16 data j (k + 16)) ^^^ (word64 data i + word64 data (i + 8))⟩

/-- The end of the rules for seventeen to 240 bytes. -/
def finish (acc : Wide) (n : Nat) : Wide :=
  let high := acc.low * prime1 + acc.high * prime4 + n.toUInt64 * prime2
  ⟨settle (acc.low + acc.high), 0 - settle high⟩

/-- The rules for seventeen to 240 bytes. -/
def medium (data : Array UInt8) : Wide :=
  let n := data.size
  let acc : Wide := ⟨n.toUInt64 * prime1, 0⟩
  if n ≤ 128 then
    let rounds := (n - 1) / 32 + 1
    let acc := (List.range rounds).reverse.foldl
      (fun acc i => mix32 data acc (16 * i) (n - 16 * (i + 1)) (32 * i)) acc
    finish acc n
  else
    let acc := (List.range 4).foldl
      (fun acc i => mix32 data acc (32 * i) (32 * i + 16) (32 * i)) acc
    let acc : Wide := ⟨settle acc.low, settle acc.high⟩
    let acc := (List.range (n / 32 - 4)).foldl
      (fun acc i => mix32 data acc (32 * (i + 4)) (32 * (i + 4) + 16) (3 + 32 * i)) acc
    finish (mix32 data acc (n - 16) (n - 32) 103) n

/-! ### Longer inputs -/

/-- The eight accumulators before the first stripe. -/
def accumulators : Array UInt64 :=
  #[primeC, prime1, prime2, prime3, prime4, primeB, prime5, primeA]

/-- Adds the stripe of sixty-four bytes at `i`, keyed by the secret from `k`. -/
def stripe (data : Array UInt8) (acc : Array UInt64) (i k : Nat) : Array UInt64 :=
  (List.range 8).foldl (fun acc j =>
    let v := word64 data (i + 8 * j)
    let x := v ^^^ key (k + 8 * j)
    let partner := if j % 2 = 0 then j + 1 else j - 1
    let acc := acc.modify partner (· + v)
    acc.modify j (· + low32 x * (x >>> 32))) acc

/-- Stirs the accumulators at the end of a block. -/
def stir (acc : Array UInt64) : Array UInt64 :=
  acc.mapIdx fun j a => (shiftMix a 47 ^^^ key (128 + 8 * j)) * primeA

/-- Combines the accumulators into one word. -/
def combine (acc : Array UInt64) (k : Nat) (base : UInt64) : UInt64 :=
  settle ((List.range 4).foldl (fun r i =>
    r + fold (acc.getD (2 * i) 0 ^^^ key (k + 16 * i))
      (acc.getD (2 * i + 1) 0 ^^^ key (k + 16 * i + 8))) base)

/-- The rule for more than 240 bytes: blocks of sixteen stripes, then the stripes of the unfinished
block, then the last sixty-four bytes once more. -/
def long (data : Array UInt8) : Wide :=
  let n := data.size
  let blocks := (n - 1) / 1024
  let acc := (List.range blocks).foldl (fun acc b =>
    stir ((List.range 16).foldl
      (fun acc s => stripe data acc (1024 * b + 64 * s) (8 * s)) acc)) accumulators
  let acc := (List.range ((n - 1 - 1024 * blocks) / 64)).foldl
    (fun acc s => stripe data acc (1024 * blocks + 64 * s) (8 * s)) acc
  let acc := stripe data acc (n - 64) 121
  ⟨combine acc 11 (n.toUInt64 * prime1),
    combine acc 117 (0xFFFFFFFFFFFFFFFF ^^^ n.toUInt64 * prime2)⟩

/-- The hash of an array of bytes. -/
def hash (data : Array UInt8) : Wide :=
  if data.size ≤ 16 then short data
  else if data.size ≤ 240 then medium data
  else long data

end KernelCache.Xxh3
