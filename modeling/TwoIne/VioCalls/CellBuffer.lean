import TwoIne.Lib.ByteBlocks
import TwoIne.Os2Errors

/-! The cells of the text screen: a character and an attribute each, in a buffer of bytes. -/

namespace TwoIne

open ByteBlocks

/-- The screen: whether it could be started, its size in cells, and the buffer of its cells. -/
structure VioState where
  started : Bool
  scrw : UInt16
  scrh : UInt16
  buffer : List UInt8
  deriving DecidableEq, Repr

/-- How many bytes are allocated for a screen, in 32-bit arithmetic. -/
def vioBufferLen (scrw scrh : UInt16) : UInt32 := scrw.toUInt32 * scrh.toUInt32 * 2

/-- Starting a screen, with nothing on it. -/
def initNcurses (scrw scrh : UInt16) : VioState where
  started := true
  scrw := scrw
  scrh := scrh
  buffer := List.replicate (vioBufferLen scrw scrh).toNat 0

/-- The index of a cell. -/
def VioState.cellIndex (s : VioState) (row col : UInt16) : UInt32 :=
  row.toUInt32 * s.scrw.toUInt32 + col.toUInt32

/-- How many cells are left from one on. -/
def VioState.cellsLeft (s : VioState) (row col : UInt16) : UInt32 :=
  (s.scrh.toUInt32 - row.toUInt32) * s.scrw.toUInt32 - col.toUInt32

/-- A length that is no greater than what is available. -/
def clipLength (cb : UInt16) (avail : UInt32) : UInt16 :=
  if avail < cb.toUInt32 then avail.toUInt16 else cb

/-- What the calls check first. -/
def vioChecked {α : Type} (s : VioState) (row col hvio : UInt16) (refused : ApiRet → α)
    (call : Option α) : Option α :=
  if hvio ≠ 0 then some (refused .errorVioInvalidHandle)
  else if s.started = false then some (refused .errorVioInvalidHandle)
  else if s.scrh ≤ row then some (refused .errorVioRow)
  else if s.scrw ≤ col then some (refused .errorVioCol)
  else call

/-- So many bytes of the caller. -/
def bytesOf (memory : Nat → UInt8) (count : Nat) : List UInt8 := (List.range count).map memory

/-- So many cells of the buffer from a place on. -/
def cellsFrom (buffer : List UInt8) (place : Nat) : Nat → Option (List (UInt8 × UInt8))
  | 0 => some []
  | count + 1 =>
    match buffer[place]?, buffer[place + 1]? with
    | some viochar, some vioattr =>
      (cellsFrom buffer (place + 2) count).map fun cells => (viochar, vioattr) :: cells
    | _, _ => none

/-- Drawing cells from one on; the answer is what is drawn. -/
def pushToNcurses (s : VioState) (y x numcells : UInt16) : Option (List (UInt8 × UInt8)) :=
  cellsFrom s.buffer (s.cellIndex y x * 2).toNat (clipLength numcells (s.cellsLeft y x)).toNat

/-- What a call that writes answers: the return code, the screen, and the cells that are drawn. -/
structure VioAnswer where
  rc : ApiRet
  state : VioState
  drawn : List (UInt8 × UInt8) := []
  deriving DecidableEq, Repr

/--
Writing to the buffer from a cell on: `avail` is the greatest length, `data` what is written for a
length, and `numcells` how many cells are drawn then.
-/
def vioWrt (s : VioState) (cb row col hvio : UInt16) (avail : UInt32) (data : Nat → List UInt8)
    (numcells : UInt16 → UInt16) : Option VioAnswer :=
  vioChecked s row col hvio (fun rc => { rc, state := s }) <|
    let cb := clipLength cb avail
    match storeBytes s.buffer (s.cellIndex row col * 2).toNat (data cb.toNat) with
    | none => none
    | some buffer =>
      (pushToNcurses { s with buffer } row col (numcells cb)).map fun drawn =>
        ⟨.noError, { s with buffer }, drawn⟩

/-- Writing cells, with their length in bytes. -/
def vioWrtCellStr (s : VioState) (pchCellStr : Nat → UInt8) (cb usRow usColumn hvio : UInt16) :
    Option VioAnswer :=
  vioWrt s cb usRow usColumn hvio (s.cellsLeft usRow usColumn * 2) (bytesOf pchCellStr)
    fun cb => cb / 2

/-- Writing characters with one attribute. -/
def vioWrtCharStrAtt (s : VioState) (pch : Nat → UInt8) (cb usRow usColumn : UInt16)
    (attr : UInt8) (hvio : UInt16) : Option VioAnswer :=
  vioWrt s cb usRow usColumn hvio (s.cellsLeft usRow usColumn)
    (fun cb => (bytesOf pch cb).flatMap fun c => [c, attr]) fun cb => cb

/-- Writing one cell so many times. -/
def vioWrtNCell (s : VioState) (cell : UInt8 × UInt8) (cb usRow usColumn hvio : UInt16) :
    Option VioAnswer :=
  vioWrt s cb usRow usColumn hvio (s.cellsLeft usRow usColumn)
    (fun cb => (List.replicate cb [cell.1, cell.2]).flatten) fun cb => cb

/-- Reading cells, with their length in bytes; the length that was read is answered too. -/
def vioReadCellStr (s : VioState) (pcb usRow usColumn hvio : UInt16) :
    Option (ApiRet × UInt16 × List UInt8) :=
  vioChecked s usRow usColumn hvio (fun rc => (rc, pcb, [])) <|
    let maxidx := s.scrh.toUInt32 * s.scrw.toUInt32
    let avail := (maxidx - s.cellIndex usRow usColumn) * 2
    let pcb := clipLength pcb avail
    (loadBytes s.buffer (s.cellIndex usRow usColumn * 2).toNat pcb.toNat).map fun cells =>
      (.noError, pcb, cells)

/-- The length that is reported of the buffer. -/
def vioGetBuf (s : VioState) (hvio : UInt16) : ApiRet × Option UInt16 :=
  if hvio ≠ 0 then (.errorVioInvalidHandle, none)
  else if s.started = false then (.errorVioInvalidHandle, none)
  else (.noError, some (s.scrw.toUInt32 * s.scrh.toUInt32 * 4).toUInt16)

end TwoIne
