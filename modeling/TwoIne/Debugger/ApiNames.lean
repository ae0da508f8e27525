import Mathlib.Data.List.Basic

/-! The names of the calls to OS/2, which the debugger shows beside their targets. -/

namespace TwoIne

/-- An entry of the table of names that the loader shares. -/
structure ApiEntry where
  addr : BitVec 32
  name : List UInt8
  deriving DecidableEq, Repr

/-- Whether an entry is in use and at an address. -/
def ApiEntry.isAt (addr : BitVec 32) (entry : ApiEntry) : Bool :=
  entry.addr ≠ 0 && entry.addr = addr

/-- Whether an entry is in use and below an address, by less than 256 bytes. -/
def ApiEntry.isBelow (addr : BitVec 32) (entry : ApiEntry) : Bool :=
  entry.addr ≠ 0 && entry.addr < addr && addr - entry.addr < 256

/--
The name shown for an address, by the entries that are filled in the shared table.

It is that of the first entry at the address, and otherwise that of the first one below it.
-/
def resolveOs2Api (apiState : Option (List ApiEntry)) (addr : BitVec 32) : Option (List UInt8) :=
  match apiState with
  | none => none
  | some entries =>
    match entries.find? (ApiEntry.isAt addr) with
    | some entry => some entry.name
    | none => (entries.find? (ApiEntry.isBelow addr)).map ApiEntry.name

end TwoIne
