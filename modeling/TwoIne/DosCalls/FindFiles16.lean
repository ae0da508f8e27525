import TwoIne.DosCalls.FindFiles

/-! The searches of 16-bit programs, whose handles are the places of a table. -/

namespace TwoIne

/-- The number of places in the table. -/
def hdir16Count : Nat := 10

/-- The state of the searches, with the table once there is one; a place that is free is null. -/
structure Find16State where
  find : FindState := {}
  hdir16 : Option (Nat → Hdir) := none

/-- What a place of the table holds. -/
def Find16State.place (s : Find16State) (i : Nat) : Hdir :=
  match s.hdir16 with
  | none => .null
  | some hdir16 => hdir16 i

/-- A 16-bit number as the handle of a 32-bit search. -/
def hdir32 (hdir : Int) : Hdir :=
  if hdir = 0 then .null
  else if hdir = 1 then .system
  else if hdir = -1 then .create
  else .wild

/-- What a 16-bit call answers: its return code, and the handle and the count that are written. -/
structure Find16Answer where
  ret : ApiRet
  hdir : Option Nat := none
  count : Option Nat := none
  deriving DecidableEq, Repr

/-- The parameters of a 16-bit call that starts a search. -/
structure Find16Args where
  pszFileSpec : List UInt8
  hdir : Int
  flAttribute : Nat
  pfindbuf : Bool := true
  cbBuf : Nat
  pcFileNames : Nat

/-- The 32-bit call that a 16-bit call makes for a handle. -/
def Find16Args.first (args : Find16Args) (hdir : Hdir) : FindFirstArgs where
  pszFileSpec := args.pszFileSpec
  phdir := some hdir
  flAttribute := args.flAttribute
  pfindbuf := args.pfindbuf
  cbBuf := args.cbBuf
  pcFileNames := some args.pcFileNames
  ulInfoLevel := 0xFFFFFFFF

/-- The first free place of the table. -/
def freePlace (hdir16 : Nat → Hdir) : Option Nat :=
  (List.range hdir16Count).find? fun i => hdir16 i = .null

/-- Starting a search, and putting it into the first free place of the table. -/
def Dos16FindFirst (host : FindHost) (args : Find16Args) (s : Find16State) :
    Option (Find16State × Find16Answer) :=
  let hdir16 := s.hdir16.getD fun _ => .null
  let hdir := hdir32 args.hdir
  match DosFindFirst host (args.first hdir) s.find with
  | none => none
  | some (find, answer) =>
    if answer.ret ≠ .noError ∧ answer.ret ≠ .errorEasDidntFit then
      some ({ find, hdir16 := some hdir16 }, { ret := answer.ret })
    else
      match freePlace hdir16 with
      | none => some ({ find, hdir16 := some hdir16 }, { ret := .errorNoMoreFiles })
      | some i =>
        some ({ find, hdir16 := some (Function.update hdir16 i (answer.hdir.getD hdir)) },
          { ret := answer.ret, hdir := some i, count := answer.count })

/-- The parameters of a 16-bit call that goes on with a search. -/
structure Next16Args where
  hDir : Nat
  pfindbuf : Bool := true
  cbfindbuf : Nat
  pcFilenames : Nat

/-- The 32-bit call that a 16-bit call makes for a handle. -/
def Next16Args.next (args : Next16Args) (hDir : Hdir) : FindNextArgs where
  hDir := hDir
  pfindbuf := args.pfindbuf
  cbfindbuf := args.cbfindbuf
  pcFilenames := some args.pcFilenames

/-- Going on with the search in a place; one that is not in the table is read nevertheless. -/
def Dos16FindNext (host : FindHost) (args : Next16Args) (s : Find16State) :
    Option (Find16State × Find16Answer) :=
  match s.hdir16 with
  | none => none
  | some hdir16 =>
    if hdir16Count ≤ args.hDir then none
    else
      (DosFindNext host (args.next (hdir16 args.hDir)) s.find).map fun (find, answer) =>
        ({ s with find }, { ret := answer.ret, count := answer.count })

/-- Ending the search in a place; the place behind the table is taken for one of the table. -/
def Dos16FindClose (hDir : Nat) (s : Find16State) : Option (Find16State × Find16Answer) :=
  if hdir16Count < hDir then some (s, { ret := .errorInvalidHandle })
  else
    match s.hdir16 with
    | none => none
    | some hdir16 =>
      if hdir16Count ≤ hDir then none
      else
        (DosFindClose (hdir16 hDir) s.find).map fun (find, answer) =>
          ({ find, hdir16 := some (Function.update hdir16 hDir .null) }, { ret := answer.ret })

end TwoIne
