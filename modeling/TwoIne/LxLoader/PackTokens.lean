import TwoIne.Lib.Lz

/-!
What a page in the second exepack format stands for: the tokens that its bytes say, and the page
that they expand to.
-/

namespace TwoIne

open Lz

section Reading

variable (bytes : List UInt8)

/-- The byte with an index, as a number. -/
def packByte (i : Nat) : Nat := (bytes.getD i 0).toNat

/-- The number in two bytes, the low one first. -/
def packWord (i : Nat) : Nat := packByte bytes i + packByte bytes (i + 1) * 256

/-- So many bytes from an index on. -/
def packBytes (i count : Nat) : List UInt8 := (bytes.drop i).take count

/-- A run of one byte, with its count behind the first byte; an empty run has no value. -/
def runTokens (i : Nat) : Option (List (Token UInt8) × Nat) :=
  if i + 2 ≤ bytes.length then
    if packByte bytes (i + 1) = 0 then some ([], i + 2)
    else if i + 3 ≤ bytes.length then
      some ([.run (packByte bytes (i + 1)) (bytes.getD (i + 2) 0)], i + 3)
    else none
  else none

/-- Bytes that follow, with their count in the upper bits of the first byte. -/
def literalTokens (i : Nat) : Option (List (Token UInt8) × Nat) :=
  if i + (packByte bytes i >>> 2) + 1 ≤ bytes.length then
    some ([.literal (packBytes bytes (i + 1) (packByte bytes i >>> 2))],
      i + (packByte bytes i >>> 2) + 1)
  else none

/-- So many bytes that follow, and then so many from a distance back. -/
def mixedTokens (i count distance more : Nat) : Option (List (Token UInt8) × Nat) :=
  if i + count ≤ bytes.length then
    some ([.literal (packBytes bytes i count), .copy distance more], i + count)
  else none

/-- Both kinds of bytes in a token of two bytes: counts of 2 and 3 bits, a distance of 9. -/
def shortTokens (i : Nat) : Option (List (Token UInt8) × Nat) :=
  if i + 2 ≤ bytes.length then
    mixedTokens bytes (i + 2) ((packByte bytes i >>> 2) &&& 3) (packWord bytes i >>> 7)
      (((packByte bytes i >>> 4) &&& 7) + 3)
  else none

/-- Bytes from a distance back in a token of two bytes: a count of 2 bits, a distance of 12. -/
def repeatTokens (i : Nat) : Option (List (Token UInt8) × Nat) :=
  if i + 2 ≤ bytes.length then
    some ([.copy (packWord bytes i >>> 4) (((packByte bytes i >>> 2) &&& 3) + 3)], i + 2)
  else none

/-- Both kinds of bytes in a token of three bytes: counts of 4 and 6 bits, a distance of 12. -/
def longTokens (i : Nat) : Option (List (Token UInt8) × Nat) :=
  if i + 3 ≤ bytes.length then
    mixedTokens bytes (i + 3) ((packByte bytes i >>> 2) &&& 0x0F) (packWord bytes (i + 1) >>> 4)
      ((packWord bytes i >>> 6) &&& 0x3F)
  else none

/-- The tokens at an index, and the index behind them. -/
def tokensAt (i : Nat) : Option (List (Token UInt8) × Nat) :=
  match packByte bytes i &&& 3 with
  | 0 => if packByte bytes i = 0 then runTokens bytes i else literalTokens bytes i
  | 1 => shortTokens bytes i
  | 2 => repeatTokens bytes i
  | _ => longTokens bytes i

/--
The tokens from an index on that fill a page of so many bytes, of which some were made before.
No token reaches over the end of the page, or back over its start.
-/
def tokensFrom (room : Nat) : Nat → Nat → Nat → Option (List (Token UInt8))
  | 0, _, _ => none
  | fuel + 1, i, made =>
    if i < bytes.length then do
      let (tokens, next) ← tokensAt bytes i
      let made ← placeAll room made tokens
      if made < room then return tokens ++ (← tokensFrom room fuel next made) else return tokens
    else some []

/-- The tokens that a page is filled with. -/
def pageTokens (room : Nat) : Option (List (Token UInt8)) :=
  tokensFrom bytes room (bytes.length + 1) 0 0

/-- The page that the tokens expand to, with zeros up to its end. -/
def expandPage (room : Nat) : Option (List UInt8) := do
  let tokens ← pageTokens bytes room
  let out ← expand [] tokens
  return out ++ List.replicate (room - out.length) 0

end Reading

end TwoIne
