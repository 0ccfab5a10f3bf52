import GlitchCore.Base.GoJson

/-!
# Bytes written as text

`encoding/hex` and `encoding/base64` between texts and bytes, and the runes of a byte string. A base64 text is
its sextets and its padding: line breaks are skipped, the padded forms need exactly the padding that completes
the last group of four, the raw forms take none, and the spare bits of the last sextet are not looked at.
-/

namespace Encoding

open GoText
open GoJson (hexDigit)

/-! ### Hexadecimal -/

def unhex (c : Char) : Option Nat :=
  if '0' ≤ c ∧ c ≤ '9' then some (c.toNat - 48)
  else if 'a' ≤ c ∧ c ≤ 'f' then some (c.toNat - 87)
  else if 'A' ≤ c ∧ c ≤ 'F' then some (c.toNat - 55)
  else none

/-- White space is no digit. -/
theorem isSpace_of_unhex {c : Char} (h : (unhex c).isSome = true) : isSpace c = false := by
  by_contra hspace
  rw [Bool.not_eq_false] at hspace
  have hall : ∀ n ∈ spaces, (unhex (Char.ofNat n)).isSome = false := by decide
  have hnone := hall c.toNat (toNat_mem_spaces hspace)
  rw [Char.ofNat_toNat, h] at hnone
  cases hnone

/-- `hex.EncodeToString`. -/
def hexEncode (bytes : List UInt8) : Text :=
  bytes.flatMap fun b => [hexDigit (b.toNat / 16), hexDigit (b.toNat % 16)]

/-- `hex.DecodeString`. -/
def hexDecode : Text → Option (List UInt8)
  | [] => some []
  | [_] => none
  | c :: d :: rest => do
      let high ← unhex c
      let low ← unhex d
      let bytes ← hexDecode rest
      return UInt8.ofNat (16 * high + low) :: bytes

/-- A rune `hexEncode` writes. -/
def isLowerHex (c : Char) : Bool := ('0' ≤ c && c ≤ '9') || ('a' ≤ c && c ≤ 'f')

theorem isLowerHex_hexDigit {n : Nat} (hn : n < 16) : isLowerHex (hexDigit n) = true := by
  have hall : ∀ n < 16, isLowerHex (hexDigit n) = true := by decide
  exact hall n hn

theorem length_hexEncode (bytes : List UInt8) : (hexEncode bytes).length = 2 * bytes.length := by
  induction bytes with
  | nil => rfl
  | cons b bytes ih =>
      rw [hexEncode, List.flatMap_cons, List.length_append, ← hexEncode, ih, List.length_cons]
      simp only [List.length_cons, List.length_nil]
      omega

theorem isLowerHex_of_mem_hexEncode {bytes : List UInt8} {c : Char} (hc : c ∈ hexEncode bytes) :
    isLowerHex c = true := by
  obtain ⟨b, -, hc⟩ := List.mem_flatMap.mp hc
  have hb : b.toNat < 256 := b.toNat_lt
  obtain rfl | hc := List.mem_cons.mp hc
  · exact isLowerHex_hexDigit (by omega)
  · obtain rfl := List.mem_singleton.mp hc
    exact isLowerHex_hexDigit (by omega)

/-! ### Base64 -/

inductive Alphabet where
  | std
  | url
deriving DecidableEq, Repr

def sextet (alphabet : Alphabet) (c : Char) : Option Nat :=
  if 'A' ≤ c ∧ c ≤ 'Z' then some (c.toNat - 65)
  else if 'a' ≤ c ∧ c ≤ 'z' then some (c.toNat - 71)
  else if '0' ≤ c ∧ c ≤ '9' then some (c.toNat + 4)
  else match alphabet with
    | .std => if c = '+' then some 62 else if c = '/' then some 63 else none
    | .url => if c = '-' then some 62 else if c = '_' then some 63 else none

/-- The bytes four sextets at a time make; a last group of two or three makes one or two. -/
def octets : List Nat → List UInt8
  | a :: b :: c :: d :: rest =>
      UInt8.ofNat (4 * a + b / 16) :: UInt8.ofNat (16 * b + c / 4) :: UInt8.ofNat (64 * c + d) :: octets rest
  | [a, b, c] => [UInt8.ofNat (4 * a + b / 16), UInt8.ofNat (16 * b + c / 4)]
  | [a, b] => [UInt8.ofNat (4 * a + b / 16)]
  | _ => []

/-- How many padding runes complete a group. -/
def paddingLength (padded : Bool) (sextets : Nat) : Nat := if padded then (4 - sextets % 4) % 4 else 0

/-- `Encoding.DecodeString` of the four encodings. -/
def base64Decode (alphabet : Alphabet) (padded : Bool) (s : Text) : Option (List UInt8) :=
  let line := s.filter fun c => c != '\n' && c != '\r'
  let body := line.takeWhile (· != '=')
  let padding := line.dropWhile (· != '=')
  if body.length % 4 ≠ 1 ∧ padding = List.replicate (paddingLength padded body.length) '=' then
    (body.mapM (sextet alphabet)).map octets
  else none

def sextetRune (alphabet : Alphabet) (n : Nat) : Char :=
  if n < 26 then Char.ofNat (65 + n)
  else if n < 52 then Char.ofNat (71 + n)
  else if n < 62 then Char.ofNat (n - 4)
  else match alphabet with
    | .std => if n = 62 then '+' else '/'
    | .url => if n = 62 then '-' else '_'

/-- The sextets of bytes; a last group of one or two makes two or three. -/
def sextets : List UInt8 → List Nat
  | a :: b :: c :: rest =>
      a.toNat / 4 :: (16 * (a.toNat % 4) + b.toNat / 16) :: (4 * (b.toNat % 16) + c.toNat / 64) :: c.toNat % 64 ::
        sextets rest
  | [a, b] => [a.toNat / 4, 16 * (a.toNat % 4) + b.toNat / 16, 4 * (b.toNat % 16)]
  | [a] => [a.toNat / 4, 16 * (a.toNat % 4)]
  | [] => []

/-- `Encoding.EncodeToString` of the four encodings. -/
def base64Encode (alphabet : Alphabet) (padded : Bool) (bytes : List UInt8) : Text :=
  let body := (sextets bytes).map (sextetRune alphabet)
  body ++ List.replicate (paddingLength padded body.length) '='

/-! ### Runes -/

/-- A piece of a text that is being decoded: a rune that stands for itself, or a byte that was written out. -/
abbrev Piece := Char ⊕ UInt8

def continues (b : UInt8) : Bool := 0x80 ≤ b && b ≤ 0xbf

def rune1 : List UInt8 → Option Char
  | b :: _ => if b < 0x80 then some (Char.ofNat b.toNat) else none
  | _ => none

def rune2 : List UInt8 → Option Char
  | b :: c :: _ =>
      if 0xc2 ≤ b ∧ b ≤ 0xdf ∧ continues c then
        some (Char.ofNat (64 * (b.toNat - 0xc0) + (c.toNat - 0x80)))
      else none
  | _ => none

def rune3 : List UInt8 → Option Char
  | b :: c :: d :: _ =>
      if 0xe0 ≤ b ∧ b ≤ 0xef ∧ continues c ∧ continues d ∧ (b = 0xe0 → 0xa0 ≤ c) ∧ (b = 0xed → c ≤ 0x9f) then
        some (Char.ofNat (4096 * (b.toNat - 0xe0) + 64 * (c.toNat - 0x80) + (d.toNat - 0x80)))
      else none
  | _ => none

def rune4 : List UInt8 → Option Char
  | b :: c :: d :: e :: _ =>
      if 0xf0 ≤ b ∧ b ≤ 0xf4 ∧ continues c ∧ continues d ∧ continues e ∧ (b = 0xf0 → 0x90 ≤ c) ∧
          (b = 0xf4 → c ≤ 0x8f) then
        some (Char.ofNat (262144 * (b.toNat - 0xf0) + 4096 * (c.toNat - 0x80) + 64 * (d.toNat - 0x80) +
          (e.toNat - 0x80)))
      else none
  | _ => none

/-- `utf8.DecodeRune`: the rune bytes begin with and how many of them it takes, U+FFFD and one byte where they
begin none. -/
def decodeRune (bytes : List UInt8) : Char × Nat :=
  match rune1 bytes, rune2 bytes, rune3 bytes, rune4 bytes with
  | some c, _, _, _ => (c, 1)
  | _, some c, _, _ => (c, 2)
  | _, _, some c, _ => (c, 3)
  | _, _, _, some c => (c, 4)
  | _, _, _, _ => (Char.ofNat 0xfffd, 1)

def leadingBytes : List Piece → List UInt8
  | .inr b :: rest => b :: leadingBytes rest
  | _ => []

def runesLoop : Nat → List Piece → Text
  | fuel + 1, .inl c :: rest => c :: runesLoop fuel rest
  | fuel + 1, .inr b :: rest =>
      let (c, width) := decodeRune (leadingBytes (.inr b :: rest))
      c :: runesLoop fuel ((Sum.inr b :: rest : List Piece).drop width)
  | _, _ => []

/-- The runes of a byte string. UTF-8 synchronises itself, so a rune that stood in the text already stays the
rune it is whatever bytes surround it. -/
def runes (pieces : List Piece) : Text := runesLoop pieces.length pieces

/-- `string(bytes)`. -/
def textOf (bytes : List UInt8) : Text := runes (bytes.map .inr)

example : (base64Decode .url false "YTpi".toList).map textOf = some "a:b".toList ∧
    (base64Decode .std true "w6n/".toList).map textOf = some ['é', Char.ofNat 0xfffd] ∧
    base64Decode .url false "w6n_".toList = base64Decode .std true "w6n/".toList ∧
    base64Decode .std true "YTo".toList = none := by decide

end Encoding
