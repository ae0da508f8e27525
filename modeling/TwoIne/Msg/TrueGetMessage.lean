import Mathlib.Data.Nat.Digits.Defs
import TwoIne.Os2Errors

/-! Messages of a message segment, copied to a buffer with inserts put in. -/

namespace TwoIne

/-- A word of a segment. -/
def segmentWord (msgdat : Nat → UInt8) (place : Nat) : Nat :=
  (msgdat place).toNat + 256 * (msgdat (place + 1)).toNat

/-- Where a segment has the message of a number, by the first entry of its table that has it. -/
def messageEntry (msgseg : Nat → UInt8) (msgnum : UInt16) : Option Nat :=
  let offset := segmentWord msgseg 14
  let offset := segmentWord msgseg (offset + 4)
  let count := segmentWord msgseg (offset + 3)
  let msgarr := fun i => segmentWord msgseg (offset + 5 + 2 * i)
  ((List.range count).find? fun i => segmentWord msgseg (msgarr i) = msgnum.toNat).map msgarr

/--
What was written at each place from the start of the buffer on, and which bytes of the message were
read.
-/
structure MessageCopy where
  pData : Nat → Option UInt8 := fun _ => none
  reads : List Nat := []

/-- Reading a byte of the message. -/
def MessageCopy.read (copy : MessageCopy) (i : Nat) : MessageCopy :=
  { copy with reads := copy.reads ++ [i] }

/-- Writing bytes from a place on. -/
def MessageCopy.write (copy : MessageCopy) (j : Nat) (bytes : List UInt8) : MessageCopy :=
  { copy with
    pData := fun place =>
      if j ≤ place ∧ place < j + bytes.length then bytes[place - j]? else copy.pData place }

/-- What a call answers: a return code, the length it reports, and what it did. -/
structure MessageAnswer where
  rc : ApiRet
  pcbMsg : Option UInt16
  copy : MessageCopy

/-- The insert that a character stands for, as a signed number from the digit one on. -/
def insertOf (pTable : List (List UInt8)) (c : UInt8) : Option (List UInt8) :=
  let sub := c.toInt8.toInt - 0x31
  if sub < 0 ∨ (pTable.length : Int) ≤ sub then none else pTable[sub.toNat]?

/-- Copying a message from one of its bytes on; `j` is where the next byte is written. -/
def copyMessage (pTable : List (List UInt8)) (msg : Nat → UInt8) (msglen cbBuf : Nat) (i j : Nat)
    (copy : MessageCopy) : MessageAnswer :=
  if i < msglen ∧ j < cbBuf then
    let copy := copy.read i
    if msg i = 0x25 then
      match insertOf pTable (msg (i + 1)) with
      | none => ⟨.errorMrInvMsgfFormat, none, copy.read (i + 1)⟩
      | some substr =>
        -- The whole insert is copied, and its end is written over by what follows.
        copyMessage pTable msg msglen cbBuf (i + 2) (j + substr.length)
          ((copy.read (i + 1)).write j (substr ++ [0]))
    else copyMessage pTable msg msglen cbBuf (i + 1) (j + 1) (copy.write j [msg i])
  else ⟨.noError, some (UInt16.ofNat j), copy⟩
termination_by msglen - i

/-- The number of a message as it is printed in front of the text of an error. -/
def sysPrefix (msgnum : UInt16) : List UInt8 :=
  [0x53, 0x59, 0x53] ++
    List.leftpad 4 0x30 ((Nat.digits 10 msgnum.toNat).reverse.map fun d => UInt8.ofNat (0x30 + d)) ++
    [0x3A]

/-- Looking up a message, and copying it with its inserts. -/
def dos16TrueGetMessage (pTable : List (List UInt8)) (cbBuf msgnum : UInt16)
    (msgseg : Nat → UInt8) : MessageAnswer :=
  match messageEntry msgseg msgnum with
  | none => ⟨.errorMrMidNotFound, none, {}⟩
  | some entry =>
    let msglen := segmentWord msgseg (entry + 2)
    let msg := fun i => msgseg (entry + 4 + i)
    let copy := MessageCopy.read {} 0
    if msg 0 = 0x45 then
      let copy := if 8 < cbBuf.toNat then copy.write 0 (sysPrefix msgnum ++ [0]) else copy
      copyMessage pTable msg msglen cbBuf.toNat 1 8 copy
    else copyMessage pTable msg msglen cbBuf.toNat 1 0 copy

end TwoIne
