import Ctools.Program.AppUtils

/-!
# The base64 codec: `b64.c`

The characters of both functions are bytes, and `tmp` is a list of the bytes it holds, so that `i`
is its length.  `allocs k` says whether the call number `k` of `b64_malloc` and `b64_realloc`
succeeds.  The functions give the bytes that are stored behind the pointer they return.
-/

set_option autoImplicit false

namespace Ctools.Program

open Ctools.Library

/-- How the codec fails: it returns `NULL`, or its behaviour is undefined. -/
inductive B64Fault where
  | null
  | undefined
deriving DecidableEq

/-- `b64_table`.
SOURCE: b64.h:29-38 -/
def b64Table : List UInt8 :=
  [65, 66, 67, 68, 69, 70, 71, 72, 73, 74, 75, 76, 77, 78, 79, 80,
    81, 82, 83, 84, 85, 86, 87, 88, 89, 90, 97, 98, 99, 100, 101, 102,
    103, 104, 105, 106, 107, 108, 109, 110, 111, 112, 113, 114, 115, 116, 117, 118,
    119, 120, 121, 122, 48, 49, 50, 51, 52, 53, 54, 55, 56, 57, 43, 47]

/-- A byte of `tmp`, in an expression. -/
def tmpAt (tmp : List UInt8) (k : ℕ) : ℕ := (tmp.getD k 0).toNat

/-! ## Encoding -/

/-- The indices that `b64_encode` computes from three bytes.
SOURCE: b64.c:171-174, 198-201 -/
def b64EncodeBuf (tmp : List UInt8) : List ℕ :=
  [(tmpAt tmp 0 &&& 0xfc) >>> 2,
    ((tmpAt tmp 0 &&& 0x03) <<< 4) + ((tmpAt tmp 1 &&& 0xf0) >>> 4),
    ((tmpAt tmp 1 &&& 0x0f) <<< 2) + ((tmpAt tmp 2 &&& 0xc0) >>> 6),
    tmpAt tmp 2 &&& 0x3f]

/-- The variables of `b64_encode`: `enc` as far as it is filled, and the number of calls of the
allocators. -/
structure B64Encoder where
  tmp : List UInt8
  enc : List UInt8
  calls : ℕ

/-- `b64_realloc` for some more characters, which are stored; its result is not checked. -/
def encPut (allocs : ℕ → Bool) (s : B64Encoder) (chars : List UInt8) :
    Except B64Fault B64Encoder :=
  if allocs s.calls then .ok { s with enc := s.enc ++ chars, calls := s.calls + 1 }
  else .error .undefined

/-- `b64_table[index]`. -/
def b64Char (index : ℕ) : UInt8 := b64Table.getD index 0

/-- A turn of the loop of `b64_encode`.
SOURCE: b64.c:165-189 -/
def b64EncodeTurn (allocs : ℕ → Bool) (s : B64Encoder) (byte : UInt8) :
    Except B64Fault B64Encoder :=
  let tmp := s.tmp ++ [byte]
  if tmp.length = 3 then do
    let s ← encPut allocs s ((b64EncodeBuf tmp).map b64Char)
    pure { s with tmp := [] }
  else pure { s with tmp := tmp }

/-- What `b64_encode` does with the remainder: a call for every character.
SOURCE: b64.c:191-215 -/
def b64EncodeRest (allocs : ℕ → Bool) (s : B64Encoder) : Except B64Fault B64Encoder :=
  let i := s.tmp.length
  if 0 < i then
    let buf := b64EncodeBuf (s.tmp ++ List.replicate (3 - i) 0)
    let chars := (buf.take (i + 1)).map b64Char ++ List.replicate (3 - i) 0x3d
    chars.foldlM (fun s char => encPut allocs s [char]) s
  else pure s

/-- `b64_encode`.
SOURCE: b64.c:151-222 -/
def b64Encode (allocs : ℕ → Bool) (src : List UInt8) : Except B64Fault (List UInt8) :=
  if !allocs 0 then .error .null
  else do
    let s ← src.foldlM (b64EncodeTurn allocs) ⟨[], [], 1⟩
    let s ← b64EncodeRest allocs s
    let s ← encPut allocs s [0]
    pure s.enc

/-! ## Decoding -/

/-- `isalnum`. -/
def isalnum (ch : UInt8) : Bool := isupper ch.toInt8 || islower ch.toInt8 || isdigit ch.toInt8

/-- A character in `tmp` becomes its place in the table, if it has one.
SOURCE: b64.c:53-60, 91-98 -/
def b64Translate (ch : UInt8) : UInt8 :=
  match b64Table.findIdx? (· == ch) with
  | some l => UInt8.ofNat l
  | none => ch

/-- The three bytes that `b64_decode_ex` computes.
SOURCE: b64.c:63-65, 101-103 -/
def b64DecodeBuf (tmp : List UInt8) : List UInt8 :=
  [UInt8.ofNat ((tmpAt tmp 0 <<< 2) + ((tmpAt tmp 1 &&& 0x30) >>> 4)),
    UInt8.ofNat (((tmpAt tmp 1 &&& 0xf) <<< 4) + ((tmpAt tmp 2 &&& 0x3c) >>> 2)),
    UInt8.ofNat (((tmpAt tmp 2 &&& 0x3) <<< 6) + tmpAt tmp 3)]

/-- The variables of `b64_decode_ex`; `j` is an `int`. -/
structure B64Decoder where
  j : ℕ
  tmp : List UInt8
  dec : List UInt8
  calls : ℕ

/-- `b64_realloc` for some more bytes, which are stored; if it fails, that is the end. -/
def decPut (allocs : ℕ → Bool) (s : B64Decoder) (bytes : List UInt8) :
    Except B64Fault B64Decoder :=
  if allocs s.calls then .ok { s with dec := s.dec ++ bytes, calls := s.calls + 1 }
  else .error .null

/-- A turn of the loop of `b64_decode_ex` that takes a character.
SOURCE: b64.c:46-79 -/
def b64DecodeTurn (allocs : ℕ → Bool) (s : B64Decoder) (ch : UInt8) :
    Except B64Fault B64Decoder :=
  if s.j + 1 < 2 ^ 31 then
    let s := { s with j := s.j + 1, tmp := s.tmp ++ [ch] }
    if s.tmp.length = 4 then do
      let s ← decPut allocs s (b64DecodeBuf (s.tmp.map b64Translate))
      pure { s with tmp := [] }
    else pure s
  else .error .undefined

/-- The loop of `b64_decode_ex`, up to the end of the source or what is no character of base64.
SOURCE: b64.c:41-80 -/
def b64DecodeLoop (allocs : ℕ → Bool) : List UInt8 → B64Decoder → Except B64Fault B64Decoder
  | [], s => .ok s
  | ch :: rest, s =>
      if ch == 0x3d then .ok s
      else if !(isalnum ch || ch == 0x2b || ch == 0x2f) then .ok s
      else do
        let s ← b64DecodeTurn allocs s ch
        b64DecodeLoop allocs rest s

/-- What `b64_decode_ex` does with the remainder.
SOURCE: b64.c:83-114 -/
def b64DecodeRest (allocs : ℕ → Bool) (s : B64Decoder) : Except B64Fault B64Decoder :=
  let i := s.tmp.length
  if 0 < i then
    let tmp := (s.tmp ++ List.replicate (4 - i) 0).map b64Translate
    decPut allocs s ((b64DecodeBuf tmp).take (i - 1))
  else pure s

/-- `b64_decode_ex`, with what it writes to `*decsize`.
SOURCE: b64.c:26-130 -/
def b64DecodeEx (allocs : ℕ → Bool) (src : List UInt8) : Except B64Fault (List UInt8 × ℕ) :=
  if !allocs 0 then .error .null
  else do
    let s ← b64DecodeLoop allocs src ⟨0, [], [], 1⟩
    let s ← b64DecodeRest allocs s
    let size := s.dec.length
    let s ← decPut allocs s [0]
    pure (s.dec, size)

/-- `b64_decode`.
SOURCE: b64.c:21-24 -/
def b64Decode (allocs : ℕ → Bool) (src : List UInt8) : Except B64Fault (List UInt8) := do
  let (dec, _) ← b64DecodeEx allocs src
  pure dec

end Ctools.Program
