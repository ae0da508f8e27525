import TwoIne.DosCalls.DupHandle

/-!
The calls on file handles that the threads of a program make at the same time.

A call is taken apart where other threads can come between: behind a lock that is given up, and
around the host calls that open or close a descriptor. What is done with a slot that no other thread
can take is one step.
-/

namespace TwoIne

open Posix

/-- What a thread is in the middle of, once it has found the handle that its call is about. -/
inductive HandleCall where
  /-- Opening a file, with the slot reserved, and what it contained before. -/
  | opening (a : OpenArgs) (access : Access) (unixpath : Except PathError String) (hf : Nat)
      (info : HFileInfo)
  /-- Duplicating a handle to a slot, which is reserved only if any slot would do. -/
  | duplicating (reserved : Bool) (hFile i : Nat)
  /-- Closing a handle, with the descriptor that its slot had. -/
  | closing (hFile fd : Nat)
  /-- Closing a handle whose descriptor is closed already. -/
  | clearing (hFile : Nat)

/-- The handle that a call is about. -/
def HandleCall.handle : HandleCall → Nat
  | .opening _ _ _ hf _ => hf
  | .duplicating _ _ i => i
  | .closing hFile _ => hFile
  | .clearing hFile => hFile

/-- The host, the table, and what each thread is in the middle of. -/
structure HandleState where
  host : Host
  table : HandleTable
  calls : Nat → Option HandleCall

/-- What threads and the host do, step by step. -/
inductive HandleAction where
  | beginOpen (thread : Nat) (a : OpenArgs) (unixpath : Except PathError String)
  | endOpen (thread next : Nat)
  | beginDup (thread hFile pHfile : Nat)
  | endDup (thread : Nat)
  | beginClose (thread hFile : Nat)
  | closeDescriptor (thread : Nat)
  | endClose (thread : Nat)
  | setMax (memory : Option (Nat → HFileInfo)) (cFH : Nat)
  | setRelMax (memory : Option (Nat → HFileInfo)) (pincr : Option Int)

/-- What a call that ends answers: the return code, and the handle that is written back. -/
structure HandleAnswer where
  ret : ApiRet
  handle : Option Nat := none
  deriving DecidableEq, Repr

/-- A thread goes on to something else. -/
def HandleState.goesOn (s : HandleState) (thread : Nat) (call : Option HandleCall) : HandleState :=
  { s with calls := Function.update s.calls thread call }

/-- The rest of an open call, once its slot is reserved. -/
def openRest (a : OpenArgs) (access : Access) (unixpath : Except PathError String)
    (next hf : Nat) (info : HFileInfo) (h : Host) (t : HandleTable) : Opened :=
  match unixpath with
  | .error e => { host := h, table := t.setSlot hf { info with fd := -1 }, ret := e.code }
  | .ok path => openReserved a access path next hf info h t

/--
One step; what a thread does that is in the middle of something else is a fault, and so is a slot
outside of the table.
-/
def stepHandles (limit : Nat) (s : HandleState) :
    HandleAction → Option (HandleState × Option HandleAnswer)
  | .beginOpen thread a unixpath =>
    match a.accepted with
    | .error code => some (s, some ⟨code, none⟩)
    | .ok access =>
      match s.table.freeSlot with
      | none => some (s, some ⟨.errorTooManyOpenFiles, none⟩)
      | some hf =>
        match s.table.hFiles[hf]? with
        | none => none
        | some info =>
          let s := { s with table := s.table.setSlot hf { info with fd := -2 } }
          some (s.goesOn thread (some (.opening a access unixpath hf info)), none)
  | .endOpen thread next =>
    match s.calls thread with
    | some (.opening a access unixpath hf info) =>
      let out := openRest a access unixpath next hf info s.host s.table
      let s := { s with host := out.host, table := out.table }
      some (s.goesOn thread none, some ⟨out.ret, out.pHf⟩)
    | _ => none
  | .beginDup thread hFile pHfile =>
    if pHfile = anyHandle then
      match s.table.freeSlot with
      | none => some (s, some ⟨.errorTooManyOpenFiles, none⟩)
      | some i =>
        match s.table.hFiles[i]? with
        | none => none
        | some info =>
          let s := { s with table := s.table.setSlot i { info with fd := -2 } }
          some (s.goesOn thread (some (.duplicating true hFile i)), none)
    else
      match s.table.hFiles[pHfile]? with
      | none => none
      | some info =>
        if info.fd ≠ -1 then some (s, some ⟨.errorInvalidTargetHandle, none⟩)
        else some (s.goesOn thread (some (.duplicating false hFile pHfile)), none)
  | .endDup thread =>
    match s.calls thread with
    | some (.duplicating _ hFile i) =>
      (copySlot limit hFile i s.host s.table).map fun (host, table) =>
        (HandleState.goesOn { s with host, table } thread none, some ⟨.noError, some i⟩)
    | _ => none
  | .beginClose thread hFile =>
    let fd := getHFileUnixDescriptor s.table hFile
    if fd = -1 then some (s, some ⟨.errorInvalidHandle, none⟩)
    else if fd ≤ 2 then some (s, some ⟨.noError, none⟩)
    else some (s.goesOn thread (some (.closing hFile fd.toNat)), none)
  | .closeDescriptor thread =>
    match s.calls thread with
    | some (.closing hFile fd) =>
      if (s.host.descriptors fd).isSome then
        let s := { s with host := closeFd fd s.host }
        some (s.goesOn thread (some (.clearing hFile)), none)
      else some (s.goesOn thread none, some ⟨.errorAccessDenied, none⟩)
    | _ => none
  | .endClose thread =>
    match s.calls thread with
    | some (.clearing hFile) =>
      match s.table.hFiles[hFile]? with
      | none => none
      | some info =>
        let s := { s with table := s.table.setSlot hFile { info with fd := -1, type := 0, attr := 0 } }
        some (s.goesOn thread none, some ⟨.noError, none⟩)
    | _ => none
  | .setMax memory cFH =>
    (DosSetMaxFH memory cFH s.table).map fun (table, ret) =>
      ({ s with table := table }, some ⟨ret, none⟩)
  | .setRelMax memory pincr =>
    (DosSetRelMaxFH memory pincr s.table).map fun (table, _) =>
      ({ s with table := table }, some ⟨.noError, none⟩)

/-- How many handles there are at first. -/
def defaultMaxHFiles : Nat := 20

/-- The table that the library starts with: standard input and output, and free slots behind them. -/
def initialTable (h : Host) : HandleTable where
  hFiles := (List.range 3).map (fun (i : Nat) => initHFileInfoFromUnixFd i h) ++
    List.replicate (defaultMaxHFiles - 3) .unused
  maxHFiles := defaultMaxHFiles

/-- Closing the descriptors of slots, except those of standard input and output. -/
def closeSlots : List HFileInfo → Host → Host
  | [], h => h
  | info :: rest, h => closeSlots rest (if 2 < info.fd then closeFd info.fd.toNat h else h)

/-- What the library does with its handles when it is unloaded. -/
def closeAllHandles (h : Host) (t : HandleTable) : Host := closeSlots (t.hFiles.take t.maxHFiles) h

end TwoIne
