import TwoIne.Lib.Buffers
import TwoIne.LxLoader.Numbers

/-! Unpacking data that are stored as records of bytes with a count of their repetitions. -/

namespace TwoIne

open Buffers

/-- What unpacking comes to. -/
inductive IterResult where
  | outOfFuel
  /-- A product does not fit into a signed integer. -/
  | overflow
  /-- Something outside of a buffer is read or written. -/
  | outside
  | returned (ret : Nat) (dst : Buffer)
  deriving DecidableEq, Repr

/-- Where the source and the destination go on, with what is left of them, and the destination. -/
structure IterState where
  src : Nat
  srclen : Nat
  dst : Nat
  dstlen : Nat
  buffer : Buffer
  deriving DecidableEq, Repr

section Iterating

variable (source : List UInt8)

/-- A byte of the source. -/
def iterByte (i : Int) : Option UInt8 := if 0 ≤ i then source[i.toNat]? else none

/-- An integer of 16 bits in the source. -/
def iterWord (i : Nat) : Option Nat := do
  let low ← iterByte source i
  let high ← iterByte source (i + 1)
  return littleEndian [low, high]

/-- Copying the bytes of a record so many times. -/
def copyIterations (src len : Nat) : Nat → IterState → Option IterState
  | 0, s => some s
  | iterations + 1, s => do
    let buffer ← memcpy s.buffer s.dst (iterByte source) src len
    copyIterations src len iterations
      { s with
        dst := s.dst + len
        dstlen := uint32Sub s.dstlen len
        buffer := buffer }

/-- Filling up the destination with zeros. -/
def padIterated (s : IterState) : IterResult :=
  if 0 < s.dstlen then
    match memset s.buffer s.dst 0 s.dstlen with
    | some buffer => .returned 1 buffer
    | none => .outside
  else .returned 1 s.buffer

/-- Unpacking records until none is left. -/
def iterRecords : Nat → IterState → IterResult
  | 0, _ => .outOfFuel
  | fuel + 1, s =>
    if s.srclen = 0 then padIterated s
    else if s.srclen < 4 then .returned 0 s.buffer
    else
      match iterWord source s.src, iterWord source (s.src + 2) with
      | some iterations, some len =>
        let src := s.src + 4
        let srclen := uint32Sub s.srclen 4
        -- Both factors are promoted to a signed integer of 32 bits.
        if 0x80000000 ≤ iterations * len then .overflow
        else if s.dstlen < iterations * len then .returned 0 s.buffer
        else if srclen < len then .returned 0 s.buffer
        else
          match copyIterations source src len iterations s with
          | some s =>
            iterRecords fuel { s with
              src := src + len
              srclen := uint32Sub srclen len }
          | none => .outside
      | _, _ => .outside

/-- Unpacking a source that has so many bytes. -/
def decompressIterated (fuel dstlen : Nat) (dst : Buffer) : IterResult :=
  iterRecords source fuel
    { src := 0, srclen := source.length, dst := 0, dstlen := dstlen, buffer := dst }

end Iterating

/-- What a source should be made of: bytes with a count of their repetitions. -/
structure IterRecord where
  count : Nat
  data : List UInt8
  count_lt : count < 0x10000
  length_lt : data.length < 0x10000
  deriving DecidableEq, Repr

/-- The bytes that store a record. -/
def IterRecord.encode (record : IterRecord) : List UInt8 :=
  littleBytes 2 record.count ++ littleBytes 2 record.data.length ++ record.data

/-- What a record stands for. -/
def IterRecord.expand (record : IterRecord) : List UInt8 :=
  (List.replicate record.count record.data).flatten

/-- The bytes that store several records. -/
def encodeRecords (records : List IterRecord) : List UInt8 := records.flatMap IterRecord.encode

/-- What several records stand for. -/
def expandRecords (records : List IterRecord) : List UInt8 := records.flatMap IterRecord.expand

end TwoIne
