import TwoIne.Lib.HeapLists
import TwoIne.Os2Errors

/-! The list of handlers a process runs when it exits. -/

namespace TwoIne

open Cells HeapLists

/-- A handler in the list. -/
structure ExitListItem where
  fn : Nat
  priority : Nat
  next : Option Nat
  deriving DecidableEq, Repr

/-- The handlers in memory, and the head of their list. -/
structure ExitList where
  items : Heap ExitListItem := []
  exitList : Option Nat := none
  deriving DecidableEq, Repr

/-- The command that adds a handler. -/
def exlstAdd : Nat := 1

/-- The command that removes a handler. -/
def exlstRemove : Nat := 2

/-- The command that ends a handler, which does nothing here. -/
def exlstExit : Nat := 3

/-- The command byte of an order code. -/
def exitCommand (ordercode : Nat) : Nat := ordercode &&& 0xFF

/-- The order byte of an order code. -/
def exitOrder (ordercode : Nat) : Nat := (ordercode >>> 8) &&& 0xFF

/-- Making the predecessor, or the head of the list, point at a handler. -/
def linkExitItem (prev item : Option Nat) (s : ExitList) : Option ExitList :=
  match prev with
  | none => some { s with exitList := item }
  | some prev =>
    match read s.items prev with
    | none => none
    | some before => some { s with items := write s.items prev { before with next := item } }

/--
Adding a handler in front of the first one whose stored priority is not smaller.

`malloc` is the contents of the memory of the new item. The item gets its handler and its link, but
the priority stays whatever the memory contained.
-/
def addExitItem (malloc : Option ExitListItem) (fn arg : Nat) (s : ExitList) :
    Option (ExitList × ApiRet) :=
  match malloc with
  | none => some (s, .errorNotEnoughMemory)
  | some junk =>
    let newitem := fresh s.items
    let items := alloc s.items { junk with fn := fn }
    match walkUntil (fun cell => arg ≤ cell.priority) ExitListItem.next items
      (items.length + 1) none
        s.exitList with
    | none => none
    | some (prev, item) =>
      let next := if prev = none then s.exitList else item
      match linkExitItem prev (some newitem)
          { s with items := write items newitem { junk with fn := fn, next := next } } with
      | none => none
      | some s => some (s, .noError)

/-- Removing the first item with a given handler. -/
def removeExitItem (fn : Nat) (s : ExitList) : Option (ExitList × ApiRet) :=
  match walkUntil (fun cell => cell.fn = fn) ExitListItem.next s.items (s.items.length + 1) none
      s.exitList with
  | none => none
  | some (_, none) => some (s, .errorInvalidFunction)
  | some (prev, some item) =>
    match read s.items item with
    | none => none
    | some cell =>
      match linkExitItem prev cell.next s with
      | none => none
      | some s => some ({ s with items := free s.items item }, .noError)

/-- A call that changes the list, with what `malloc` answers if it has to ask it. -/
structure ExitCall where
  ordercode : Nat
  fn : Option Nat
  malloc : Option ExitListItem := none
  deriving DecidableEq, Repr

/-- Changing the list of exit handlers. -/
def DosExitList (call : ExitCall) (s : ExitList) : Option (ExitList × ApiRet) :=
  match call.fn with
  | none => some (s, .errorInvalidFunction)
  | some fn =>
    let cmd := exitCommand call.ordercode
    let arg := exitOrder call.ordercode
    if cmd ≠ exlstAdd ∧ arg ≠ 0 then some (s, .errorInvalidData)
    else if cmd = exlstAdd then addExitItem call.malloc fn arg s
    else if cmd = exlstRemove then removeExitItem fn s
    else if cmd = exlstExit then some (s, .noError)
    else some (s, .errorInvalidData)

/-- The calls a handler makes, one after the other. -/
def runExitCalls : List ExitCall → ExitList → Option ExitList
  | [], s => some s
  | call :: rest, s =>
    match DosExitList call s with
    | none => none
    | some (s, _) => runExitCalls rest s

/--
The handlers from an item on, each taken off the list and freed before it is called.

Each handler that is called consumes the next of the scripts, which are the calls it makes. The
answer is the handlers called with the reason of the exit.
-/
def runExitItems (why : Nat) :
    Nat → List (List ExitCall) → Option Nat → ExitList → Option (ExitList × List (Nat × Nat))
  | 0, _, _, _ => none
  | _ + 1, _, none, s => some (s, [])
  | steps + 1, scripts, some item, s =>
    match read s.items item with
    | none => none
    | some cell =>
      match runExitCalls (scripts.headD [])
        { items := free s.items item, exitList := cell.next } with
      | none => none
      | some s =>
        match runExitItems why steps scripts.tail cell.next s with
        | none => none
        | some (s, called) => some (s, (cell.fn, why) :: called)

/-- Running the exit list; no more items are run than were ever allocated. -/
def runDosExitList (why : Nat) (scripts : List (List ExitCall)) (s : ExitList) :
    Option (ExitList × List (Nat × Nat)) :=
  runExitItems why (s.items.length + scripts.flatten.length + 1) scripts s.exitList s

end TwoIne
