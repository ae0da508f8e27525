import TwoIne.Lib.Buffers
import TwoIne.Lib.Regions

/-! Unpacking a page of an object that is stored in the second exepack format. -/

namespace TwoIne

open Buffers Regions

/-- How integers are computed with: what a signed sum comes to, and a value compared as unsigned. -/
structure IntOps where
  sint : Int → Int
  uint : Int → Int

/-- Integers of 32 bits: a signed sum wraps around, and a comparison with a `uint32` is unsigned. -/
def machineInts : IntOps where
  sint x := (x + 0x80000000) % 0x100000000 - 0x80000000
  uint x := x % 0x100000000

/-- Integers that are what they say. -/
def exactInts : IntOps where
  sint x := x
  uint x := x

/-- The byte at an offset from where a region starts; the pointer to it wraps around. -/
def sourceAt (src : Region) (offset : Int) : Option UInt8 :=
  let pointer := ((src.base + offset) % addresses).toNat
  if src.base ≤ pointer then src.bytes[pointer - src.base]? else none

/-- The offsets into both buffers, and the page that is unpacked. -/
structure PackState where
  sOf : Int
  dOf : Int
  dst : Buffer
  deriving DecidableEq, Repr

/-- Why a token is not unpacked. -/
inductive PackEnd where
  /-- There is no token left. -/
  | exhausted
  /-- The token does not fit. -/
  | refused
  /-- Something outside of a buffer is read or written. -/
  | outside
  deriving DecidableEq, Repr

/-- An access that has to be inside of a buffer. -/
def inside {α : Type} : Option α → Except PackEnd α
  | some value => .ok value
  | none => .error .outside

/-- Moving bytes within the page one after the other, so that they may overlap. -/
def linearmove (dst : Buffer) (target source : Int) (len : Nat) : Option Buffer :=
  storeEach (fun dst index => fetch dst (source + index)) target dst len

section Unpacking

variable (ints : IntOps) (dstlen : Nat) (src : Region) (srclen : Nat)

/-- Whether the source has so many bytes from an offset on. -/
def srcavail (sOf : Int) (n : Nat) : Prop := ints.uint (ints.sint (sOf + n)) ≤ srclen

/-- Whether the page has so many bytes from an offset on. -/
def dstavail (dOf : Int) (n : Nat) : Prop := ints.uint (ints.sint (dOf + n)) ≤ dstlen

instance (sOf : Int) (n : Nat) : Decidable (srcavail ints srclen sOf n) :=
  inferInstanceAs (Decidable (_ ≤ _))

instance (dOf : Int) (n : Nat) : Decidable (dstavail ints dstlen dOf n) :=
  inferInstanceAs (Decidable (_ ≤ _))

/-- A byte of the source as an integer. -/
def srcByte (sOf : Int) : Except PackEnd Nat := do
  return (← inside (sourceAt src sOf)).toNat

/-- Two bytes of the source as an integer. -/
def srcWord (sOf : Int) : Except PackEnd Nat := do
  let low ← srcByte src sOf
  let high ← srcByte src (ints.sint (sOf + 1))
  return low + high * 256

/-- A run of one byte; an empty run does nothing. -/
def unpackRun (s : PackState) : Except PackEnd PackState :=
  if srcavail ints srclen s.sOf 2 then do
    let count ← srcByte src (ints.sint (s.sOf + 1))
    if count = 0 then .ok { s with sOf := ints.sint (s.sOf + 2) }
    else if srcavail ints srclen s.sOf 3 ∧ dstavail ints dstlen s.dOf count then do
      let value ← inside (sourceAt src (ints.sint (s.sOf + 2)))
      let dst ← inside (memset s.dst s.dOf value count)
      let sOf := ints.sint (s.sOf + 3)
      let count ← srcByte src (ints.sint (sOf - 2))
      .ok { sOf := sOf, dOf := ints.sint (s.dOf + count), dst := dst }
    else .error .refused
  else .error .refused

/-- Bytes that are copied from the source. -/
def unpackLiteral (s : PackState) (b1 : Nat) : Except PackEnd PackState :=
  if srcavail ints srclen s.sOf ((b1 >>> 2) + 1) ∧ dstavail ints dstlen s.dOf (b1 >>> 2) then do
    let dst ← inside (memcpy s.dst s.dOf (sourceAt src) (ints.sint (s.sOf + 1)) (b1 >>> 2))
    .ok { sOf := ints.sint (s.sOf + ((b1 >>> 2) + 1)), dOf := ints.sint (s.dOf + (b1 >>> 2))
          dst := dst }
  else .error .refused

/-- So many bytes that are copied from the source, and so many that are already in the page. -/
def unpackMixed (s : PackState) (b1 b2 : Nat) (bOf : Int) : Except PackEnd PackState :=
  if srcavail ints srclen s.sOf b1 ∧ dstavail ints dstlen s.dOf (b1 + b2) ∧
      0 ≤ ints.sint (ints.sint (s.dOf + b1) - bOf) then do
    let dst ← inside (memcpy s.dst s.dOf (sourceAt src) s.sOf b1)
    let dOf := ints.sint (s.dOf + b1)
    let sOf := ints.sint (s.sOf + b1)
    let dst ← inside (linearmove dst dOf (ints.sint (dOf - bOf)) b2)
    .ok { sOf := sOf, dOf := ints.sint (dOf + b2), dst := dst }
  else .error .refused

/-- A short token for bytes of both kinds. -/
def unpackShort (s : PackState) (b1 : Nat) : Except PackEnd PackState :=
  if srcavail ints srclen s.sOf 2 then do
    let bOf := (← srcWord ints src s.sOf) >>> 7
    let b2 := ((b1 >>> 4) &&& 7) + 3
    let b1 := (b1 >>> 2) &&& 3
    unpackMixed ints dstlen src srclen { s with sOf := ints.sint (s.sOf + 2) } b1 b2 bOf
  else .error .refused

/-- Bytes that are already in the page. -/
def unpackRepeat (s : PackState) (b1 : Nat) : Except PackEnd PackState :=
  if srcavail ints srclen s.sOf 2 then do
    let bOf := (← srcWord ints src s.sOf) >>> 4
    let b1 := ((b1 >>> 2) &&& 3) + 3
    if dstavail ints dstlen s.dOf b1 ∧ 0 ≤ ints.sint (s.dOf - bOf) then do
      let dst ← inside (linearmove s.dst s.dOf (ints.sint (s.dOf - bOf)) b1)
      .ok { sOf := ints.sint (s.sOf + 2), dOf := ints.sint (s.dOf + b1), dst := dst }
    else .error .refused
  else .error .refused

/-- A long token for bytes of both kinds. -/
def unpackLong (s : PackState) : Except PackEnd PackState :=
  if srcavail ints srclen s.sOf 3 then do
    let b2 := ((← srcWord ints src s.sOf) >>> 6) &&& 0x3F
    let b1 := ((← srcByte src s.sOf) >>> 2) &&& 0x0F
    let bOf := (← srcWord ints src (ints.sint (s.sOf + 1))) >>> 4
    unpackMixed ints dstlen src srclen { s with sOf := ints.sint (s.sOf + 3) } b1 b2 bOf
  else .error .refused

/-- A token of the kind that the two lowest bits of its first byte say. -/
def unpackKind (s : PackState) (b1 : Nat) : Except PackEnd PackState :=
  match b1 &&& 3 with
  | 0 =>
    if b1 = 0 then unpackRun ints dstlen src srclen s
    else unpackLiteral ints dstlen src srclen s b1
  | 1 => unpackShort ints dstlen src srclen s b1
  | 2 => unpackRepeat ints dstlen src srclen s b1
  | _ => unpackLong ints dstlen src srclen s

/-- One token, if the source has another. -/
def unpackToken (s : PackState) : Except PackEnd PackState :=
  if srcavail ints srclen s.sOf 1 then do
    let b1 ← srcByte src s.sOf
    unpackKind ints dstlen src srclen s b1
  else .error .exhausted

/-- What unpacking a page comes to. -/
inductive PackResult where
  | outOfFuel
  | outside
  | returned (ret : Nat) (dst : Buffer)
  deriving DecidableEq, Repr

/-- Filling up the page with zeros. -/
def padPage (s : PackState) : PackResult :=
  if 0 < ints.uint (dstlen - s.dOf) then
    match memset s.dst s.dOf 0 (ints.uint (dstlen - s.dOf)).toNat with
    | some dst => .returned 1 dst
    | none => .outside
  else .returned 1 s.dst

/-- Unpacking tokens until the page is full, or none is left. -/
def unpackTokens : Nat → PackState → PackResult
  | 0, _ => .outOfFuel
  | fuel + 1, s =>
    match unpackToken ints dstlen src srclen s with
    | .error .exhausted => padPage ints dstlen s
    | .error .refused => .returned 0 s.dst
    | .error .outside => .outside
    | .ok s =>
      if ints.uint s.dOf < dstlen then unpackTokens fuel s else padPage ints dstlen s

/-- Unpacking a page. -/
def decompressExePack2 (fuel : Nat) (dst : Buffer) : PackResult :=
  unpackTokens ints dstlen src srclen fuel { sOf := 0, dOf := 0, dst := dst }

end Unpacking

end TwoIne
