import Mathlib.Algebra.Group.Nat.Defs
import Mathlib.Data.Vector.Basic
import TwoIne.Os2Errors
import TwoIne.Lib.Runs

/-! Thread-local memory: the slot mask, the length table, and the two calls that change them. -/

namespace TwoIne

/-- The fields of the loader state that describe the thread-local slots. -/
structure TlsState where
  /-- Address of the page that stands for the slots, once one was mapped. -/
  tlspage : Option Nat := none
  /-- One bit for each slot in use. -/
  tlsmask : BitVec 32 := 0
  /-- Number of slots allocated in one block, indexed by its first slot. -/
  tlsallocs : Vector Nat 32 := .replicate 32 0
  deriving DecidableEq

/-- The window of `cb` low bits that the search slides over the mask. -/
def tlsWindow (cb : Nat) : BitVec 32 :=
  -- The source writes this as 0xFF >> (8 - cb), for a request of at most eight slots.
  0xFF#32 >>> (8 - cb)

/-- Whether no bit under the window is taken. -/
def tlsWindowFree (tlsmask mask : BitVec 32) : Bool :=
  ((tlsmask ^^^ mask) &&& mask) == mask

/-- The search loop: `left` positions remain, the window stands at position `i`. -/
def tlsScan (tlsmask : BitVec 32) : Nat → BitVec 32 → Nat → Nat
  | 0, _, i => i
  | left + 1, mask, i =>
    -- Bits shifted past the top of the 32-bit mask are dropped.
    if tlsWindowFree tlsmask mask then i else tlsScan tlsmask left (mask <<< 1) (i + 1)

/-- The position the search for `cb` slots stops at, 32 when it found none. -/
def tlsFind (tlsmask : BitVec 32) (cb : Nat) : Nat :=
  tlsScan tlsmask 32 (tlsWindow cb) 0

/-- The page in use, or the one a first request maps. -/
def tlsEnsurePage (s : TlsState) (initTLSPage : Option Nat) : Option Nat :=
  s.tlspage.or initTLSPage

/--
Reserving `cb` adjacent slots.

`wanted` says whether the caller passed a place for the result, and `initTLSPage` is what mapping
the page gives if this request is the first. No result stands for the failed assertion.
-/
def dosAllocThreadLocalMemory (cb : Nat) (wanted : Bool) (initTLSPage : Option Nat) (s : TlsState) :
    Option (TlsState × ApiRet × Option Nat) :=
  if cb > 8 then some (s, .errorInvalidParameter, none)
  else if !wanted then some (s, .errorInvalidParameter, none)
  else
    match tlsEnsurePage s initTLSPage with
    | none => some (s, .errorNotEnoughMemory, none)
    | some page =>
      let paged := { s with tlspage := some page }
      let i := tlsFind s.tlsmask cb
      if slot : i < 32 then
        -- assert(GLoaderState.tlsallocs[i] == 0)
        if s.tlsallocs[i] = 0 then
          some ({ paged with
              tlsallocs := s.tlsallocs.set i cb
              tlsmask := s.tlsmask ||| (tlsWindow cb <<< i) },
            .noError, some (page + 4 * i))
        else none
      else some (paged, .errorNotEnoughMemory, none)

/-- The slot a pointer into the page stands for, as the 32-bit difference the source computes. -/
def tlsSlotOf (page p : Nat) : Nat :=
  ((((p : Int) - page) / 4) % 2 ^ 32).toNat

/-- Releasing the block that starts at the slot `p` points to. -/
def dosFreeThreadLocalMemory (p : Nat) (s : TlsState) : Option (TlsState × ApiRet) :=
  match s.tlspage with
  | none => some (s, .errorInvalidParameter)
  | some page =>
    let slot := tlsSlotOf page p
    if inside : slot < 32 then
      let slots := s.tlsallocs[slot]
      if slots > 0 then
        let mask := tlsWindow slots <<< slot
        -- assert((GLoaderState.tlsmask & mask) == mask)
        if s.tlsmask &&& mask = mask then
          some ({ s with
              tlsmask := s.tlsmask &&& ~~~mask
              tlsallocs := s.tlsallocs.set slot 0 }, .noError)
        else none
      else some (s, .errorInvalidParameter)
    else some (s, .errorInvalidParameter)

end TwoIne
