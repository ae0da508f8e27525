import Mathlib.Logic.Function.Basic
import TwoIne.DosCalls.Open
import TwoIne.DosCalls.Wildcards
import TwoIne.LxLoader.Numbers

/-! The searches through directories. -/

namespace TwoIne

/-- What kind of thing an entry of a directory leads to. -/
inductive EntryKind where
  | regular
  | directory
  /-- A pipe, a device or a socket, which OS/2 does not know. -/
  | other
  deriving DecidableEq, Repr

/-- What the host knows about a file. -/
structure FileStat where
  kind : EntryKind
  /-- Whether the owner may write it. -/
  writable : Bool
  atime : Int
  mtime : Int
  size : Nat
  blocks : Nat
  deriving DecidableEq, Repr

/-- An entry of a directory; there may be nothing where it leads to. -/
structure DirEntry where
  name : List UInt8
  stat : Option FileStat
  deriving DecidableEq, Repr

/-- A time that the host breaks down. -/
structure BrokenTime where
  sec : Nat
  min : Nat
  hour : Nat
  mday : Nat
  mon : Nat
  year : Nat

/-- A date and a time as OS/2 stores them. -/
structure FileTime where
  day : Nat
  month : Nat
  year : Nat
  twosecs : Nat
  minutes : Nat
  hours : Nat
  deriving DecidableEq, Repr

/-- A time of the host as OS/2 stores it; what does not fit into a field is cut off. -/
def unixTimeToOs2 (localtime : Int → BrokenTime) (unixtime : Int) : FileTime :=
  let lt := localtime unixtime
  {
    day := lt.mday % 32
    month := (lt.mon + 1) % 16
    year := uint32Sub lt.year 80 % 128
    twosecs := lt.sec / 2 % 32
    minutes := lt.min % 64
    hours := lt.hour % 32 }

/-- The creation that every file is given, since the host does not know it. -/
def fileCreation : FileTime where
  day := 1
  month := 1
  year := 0
  twosecs := 0
  minutes := 0
  hours := 0

/-- The size of the name in a record, with the zero that ends it. -/
def cchMaxPathComp : Nat := 256

/-- The kinds of records. -/
inductive InfoLevel where
  /-- The records of the 16-bit calls. -/
  | sixteen
  | standard
  | queryEaSize
  | queryEasFromList
  deriving DecidableEq, Repr

/-- The kind of records that a number stands for; the 16-bit calls pass minus one. -/
def infoLevel (ulInfoLevel : Nat) : Option InfoLevel :=
  if ulInfoLevel = 1 then some .standard
  else if ulInfoLevel = 2 then some .queryEaSize
  else if ulInfoLevel = 3 then some .queryEasFromList
  else if ulInfoLevel = 0xFFFFFFFF then some .sixteen
  else none

/-- The size of a record, padded to a multiple of four; the last kind has none. -/
def InfoLevel.recordSize : InfoLevel → Nat
  | .sixteen => 280
  | .standard => 288
  | .queryEaSize => 292
  | .queryEasFromList => 0

/-- Where the name stands in a record. -/
def InfoLevel.nameOffset : InfoLevel → Nat
  | .sixteen => 23
  | .standard => 29
  | .queryEaSize => 33
  | .queryEasFromList => 0

/-- The room that so many records are taken to need, apart from their names. -/
def findNextSizeNeeded (level : InfoLevel) (pcFileNames : Nat) : Nat :=
  match level with
  | .queryEasFromList => 0xFFFFFFFF
  | level => (level.recordSize - cchMaxPathComp) * pcFileNames % 2 ^ 32

/-- The attribute of a hidden file. -/
def fileHidden : Nat := 0x02

/-- The attribute of a file of the system. -/
def fileSystem : Nat := 0x04

/-- The attribute of a file that is to be archived. -/
def fileArchived : Nat := 0x20

/-- The attributes that an entry must have. -/
def mustHave (attr : Nat) : Nat := (attr &&& 0xFF00) >>> 8

/-- The attributes that an entry may have. -/
def mayHave (attr : Nat) : Nat := attr &&& 0x00FF

/-- What is known of an entry, if its name and its attributes are those that are looked for. -/
def entryWanted (attr : Nat) (pattern : List UInt8) (entry : DirEntry) : Option FileStat :=
  if wildcardMatch entry.name pattern = false then none
  else
    match entry.stat with
    | none => none
    | some statbuf =>
      let isdir := statbuf.kind = .directory
      if statbuf.kind = .other then none
      else if isdir ∧ mayHave attr &&& fileDirectory = 0 then none
      else if ¬ isdir ∧ mustHave attr &&& fileDirectory ≠ 0 then none
      else if statbuf.writable = false ∧ mayHave attr &&& fileReadonly = 0 then none
      else if statbuf.writable = true ∧ mustHave attr &&& fileReadonly ≠ 0 then none
      else some statbuf

/-- Where the next record is put, what is left of the buffer, and the attributes that stand there. -/
structure FindCursor where
  offset : Nat
  cbBuf : Nat
  attrFile : Nat := 0
  deriving DecidableEq, Repr

/-- A record as it is written; those of the 16-bit calls do not lead on to the next one. -/
structure FindRecord where
  oNextEntryOffset : Option Nat
  creation : FileTime
  lastAccess : FileTime
  lastWrite : FileTime
  cbFile : Nat
  cbFileAlloc : Nat
  attrFile : Nat
  cchName : Nat
  achName : List UInt8
  deriving DecidableEq, Repr

/-- An entry that was found, with its record, and where that was put. -/
structure Found where
  entry : DirEntry
  cursor : FindCursor
  record : FindRecord
  deriving DecidableEq, Repr

/-- The attributes of an entry. -/
def entryAttributes (statbuf : FileStat) : Nat :=
  (if statbuf.kind = .directory then fileDirectory else 0) |||
    (if statbuf.writable then 0 else fileReadonly)

/-- Writing the record of an entry, which is cleared before except for the 16-bit calls. -/
def fillRecord (localtime : Int → BrokenTime) (level : InfoLevel) (cursor : FindCursor)
    (entry : DirEntry) (statbuf : FileStat) : Found where
  entry := entry
  cursor := cursor
  record := {
    oNextEntryOffset := if level = .sixteen then none else some level.recordSize
    creation := fileCreation
    lastAccess := unixTimeToOs2 localtime statbuf.atime
    lastWrite := unixTimeToOs2 localtime statbuf.mtime
    cbFile := statbuf.size % 2 ^ 32
    cbFileAlloc := statbuf.blocks * 512 % 2 ^ 32
    attrFile := (if level = .sixteen then cursor.attrFile else 0) ||| entryAttributes statbuf
    cchName := entry.name.length % 256
    achName := entry.name }

/-- Going on behind a record; the 16-bit calls stay where they are. -/
def FindCursor.advance (level : InfoLevel) (found : Found) : FindCursor :=
  if level = .sixteen then { found.cursor with attrFile := found.record.attrFile }
  else
    {
      offset := found.cursor.offset + level.recordSize
      cbBuf := uint32Sub found.cursor.cbBuf level.recordSize }

/-- Reading the entries of a directory up to the next one that is looked for and has room. -/
def nextWanted (localtime : Int → BrokenTime) (level : InfoLevel) (attr : Nat)
    (pattern : List UInt8) (cursor : FindCursor) : List DirEntry → Option Found × List DirEntry
  | [] => (none, [])
  | entry :: rest =>
    if cchMaxPathComp ≤ entry.name.length then
      nextWanted localtime level attr pattern cursor rest
    else if cursor.cbBuf ≤ entry.name.length + findNextSizeNeeded level 1 then
      nextWanted localtime level attr pattern cursor rest
    else
      match entryWanted attr pattern entry with
      | none => nextWanted localtime level attr pattern cursor rest
      | some statbuf =>
        if level = .queryEasFromList then nextWanted localtime level attr pattern cursor rest
        else (some (fillRecord localtime level cursor entry statbuf), rest)

/-- Looking for the next entry; nothing has the attributes that the host does not know. -/
def findNextOne (localtime : Int → BrokenTime) (level : InfoLevel) (attr : Nat)
    (pattern : List UInt8) (cursor : FindCursor) (entries : List DirEntry) :
    Option Found × List DirEntry :=
  if mustHave attr &&& (fileHidden ||| fileSystem ||| fileArchived) ≠ 0 then (none, entries)
  else nextWanted localtime level attr pattern cursor entries

/-- Looking for so many entries, until there is none. -/
def findEntries (localtime : Int → BrokenTime) (level : InfoLevel) (attr : Nat)
    (pattern : List UInt8) : Nat → FindCursor → List DirEntry → List Found × List DirEntry
  | 0, _, entries => ([], entries)
  | left + 1, cursor, entries =>
    match findNextOne localtime level attr pattern cursor entries with
    | (none, entries) => ([], entries)
    | (some found, entries) =>
      let (more, entries) :=
        findEntries localtime level attr pattern left (FindCursor.advance level found) entries
      (found :: more, entries)

/-- A directory that is open: which one, and the entries that were not read yet. -/
structure DirStream where
  id : Nat
  entries : List DirEntry
  deriving DecidableEq, Repr

/-- A search. -/
structure DirFinder where
  dirp : Option DirStream := none
  attr : Nat := 0
  level : Option InfoLevel := none
  pattern : List UInt8 := []
  deriving DecidableEq, Repr

/-- Which search is meant: the one that every process has, or one in memory of its own. -/
inductive FinderRef where
  | hdir1
  | block (id : Nat)
  deriving DecidableEq, Repr

/-- The handle of a search; a wild one is no search and none of the numbers with a meaning. -/
inductive Hdir where
  | null
  | system
  | create
  | finder (ref : FinderRef)
  | wild
  deriving DecidableEq, Repr

/-- The searches, and the directories that were opened and closed for them. -/
structure FindState where
  hdir1 : DirFinder := {}
  blocks : Nat → Option DirFinder := fun _ => none
  allocated : Nat := 0
  opened : Nat := 0
  /-- The directories that were closed, the latest first. -/
  closed : List Nat := []

/-- A search, if it is in memory. -/
def FindState.finder (s : FindState) : FinderRef → Option DirFinder
  | .hdir1 => some s.hdir1
  | .block id => s.blocks id

/-- Changing a search. -/
def FindState.setFinder (s : FindState) (ref : FinderRef) (dirf : DirFinder) : FindState :=
  match ref with
  | .hdir1 => { s with hdir1 := dirf }
  | .block id => { s with blocks := Function.update s.blocks id (some dirf) }

/-- Giving up a search: the one of the process is cleared, another is freed. -/
def FindState.dropFinder (s : FindState) (ref : FinderRef) : FindState :=
  match ref with
  | .hdir1 => { s with hdir1 := {} }
  | .block id => { s with blocks := Function.update s.blocks id none }

/-- Closing a directory; closing none does nothing. -/
def FindState.closedir (s : FindState) (dirp : Option DirStream) : FindState :=
  match dirp with
  | none => s
  | some dirp => { s with closed := dirp.id :: s.closed }

/-- Why a directory does not open. -/
inductive OpendirError where
  | eacces
  | emfile
  | enfile
  | enomem
  | enoent
  | enametoolong
  | other
  deriving DecidableEq, Repr

/-- The answer for a directory that does not open. -/
def opendirError : OpendirError → ApiRet
  | .eacces => .errorAccessDenied
  | .emfile => .errorNoMoreSearchHandles
  | .enfile => .errorNoMoreSearchHandles
  | .enomem => .errorNotEnoughMemory
  | .enoent => .errorPathNotFound
  | .enametoolong => .errorFilenameExcedRange
  | .other => .errorPathNotFound

/-- What the host does during one call. -/
structure FindHost where
  makeUnixPath : List UInt8 → Except ApiRet (List UInt8)
  /-- A path is refused if its drive is not mounted, or for lack of memory. -/
  refuses : ∀ path ret, makeUnixPath path = .error ret →
    ret = .errorNotDosDisk ∨ ret = .errorNotEnoughMemory
  opendir : List UInt8 → Except OpendirError (List DirEntry)
  localtime : Int → BrokenTime
  /-- Whether there is memory for another search. -/
  room : Bool := true

/--
What a call answers: its return code, the handle and the count that are written, whether the buffer
was cleared, and the entries that were found.
-/
structure FindAnswer where
  ret : ApiRet
  hdir : Option Hdir := none
  count : Option Nat := none
  cleared : Bool := false
  found : List Found := []
  deriving DecidableEq, Repr

/-- Going on with a search; a search at its end has its directory closed. -/
def findNext (host : FindHost) (s : FindState) (ref : FinderRef) (dirf : DirFinder)
    (level : InfoLevel) (cbBuf pcFileNames : Nat) : FindState × FindAnswer :=
  match dirf.dirp with
  | none => (s, { ret := .errorNoMoreFiles, count := some 0 })
  | some dirp =>
    let (found, entries) := findEntries host.localtime level dirf.attr dirf.pattern pcFileNames
      { offset := 0, cbBuf } dirp.entries
    if found.length = 0 ∧ 0 < pcFileNames then
      ((s.closedir (some dirp)).setFinder ref { dirf with dirp := none },
        { ret := .errorNoMoreFiles, count := some 0, cleared := true })
    else
      (s.setFinder ref { dirf with dirp := some { dirp with entries } },
        { ret := .noError, count := some found.length, cleared := true, found })

/-- The parameters of a call that starts a search; a pointer may be missing. -/
structure FindFirstArgs where
  pszFileSpec : List UInt8
  phdir : Option Hdir
  flAttribute : Nat
  pfindbuf : Bool := true
  cbBuf : Nat
  pcFileNames : Option Nat
  ulInfoLevel : Nat

/-- The slash. -/
def slash : UInt8 := 47

/-- What stands in front of the last slash of a path, if there is one, and what stands behind it. -/
def splitPattern (path : List UInt8) : Option (List UInt8) × List UInt8 :=
  let pattern := (path.reverse.takeWhile (· ≠ slash)).reverse
  if slash ∈ path then (some (path.take (path.length - pattern.length - 1)), pattern)
  else (none, pattern)

/-- The attributes of a search; no attribute stands for nearly all that an entry may have. -/
def searchAttributes (flAttribute : Nat) : Nat :=
  if flAttribute = 0 then fileReadonly ||| fileHidden ||| fileSystem ||| fileArchived
  else flAttribute

/-- Why a call is refused for its parameters, or what they are. -/
def checkFindFirst (args : FindFirstArgs) : Except ApiRet (Hdir × Nat × InfoLevel) :=
  if args.flAttribute &&& 0xffffc8c8 ≠ 0 then .error .errorInvalidParameter
  else if 0xFFFF < args.cbBuf then .error .errorInvalidParameter
  else
    match infoLevel args.ulInfoLevel with
    | none => .error .errorInvalidParameter
    | some level =>
      match args.pcFileNames with
      | none => .error .errorInvalidParameter
      | some count =>
        if args.pfindbuf = false ∧ count ≠ 0 then .error .errorInvalidParameter
        else
          match args.phdir with
          | none => .error .errorInvalidParameter
          | some hdir =>
            if hdir = .null then .error .errorInvalidHandle
            else if args.cbBuf < findNextSizeNeeded level count then .error .errorBufferOverflow
            else if level = .standard ∨ level = .sixteen then .ok (hdir, count, level)
            else .error .errorInvalidParameter

/-- The search that a handle stands for, in new memory if it asks for that. -/
def finderOf (s : FindState) : Hdir → Option (FindState × FinderRef × DirFinder)
  | .system => some (s, .hdir1, s.hdir1)
  | .create =>
    some
      ({ s with
          blocks := Function.update s.blocks s.allocated (some {})
          allocated := s.allocated + 1 },
        .block s.allocated, {})
  | .finder ref => (s.finder ref).map fun dirf => (s, ref, dirf)
  | _ => none

/-- Starting a search in a directory that is open, in place of what was searched for before. -/
def startSearch (host : FindHost) (args : FindFirstArgs) (s : FindState) (hdir : Hdir)
    (count : Nat) (level : InfoLevel) (pattern : List UInt8) (entries : List DirEntry) :
    Option (FindState × FindAnswer) :=
  match finderOf s hdir with
  | none => none
  | some (s, ref, dirf) =>
    let dirp := some { id := s.opened, entries }
    let s := { s.closedir dirf.dirp with opened := s.opened + 1 }
    let dirf := { dirp, attr := searchAttributes args.flAttribute, level := some level, pattern }
    let (s, answer) := findNext host (s.setFinder ref dirf) ref dirf level args.cbBuf count
    if answer.ret ≠ .noError then
      -- The directory was closed already, and closing none does nothing.
      some (if hdir = .create then s.dropFinder ref else s, answer)
    else some (s, { answer with hdir := some (.finder ref) })

/-- Starting a search; a handle that is no search is followed nevertheless, which is a fault. -/
def DosFindFirst (host : FindHost) (args : FindFirstArgs) (s : FindState) :
    Option (FindState × FindAnswer) :=
  match checkFindFirst args with
  | .error ret => some (s, { ret })
  | .ok (hdir, count, level) =>
    match host.makeUnixPath args.pszFileSpec with
    | .error ret => some (s, { ret })
    | .ok path =>
      let (directory, pattern) := splitPattern path
      if cchMaxPathComp ≤ pattern.length then some (s, { ret := .errorFilenameExcedRange })
      else if hdir = .create ∧ host.room = false then some (s, { ret := .errorNotEnoughMemory })
      else
        match host.opendir (directory.getD [fullStop]) with
        | .error errno => some (s, { ret := opendirError errno })
        | .ok entries => startSearch host args s hdir count level pattern entries

/-- The parameters of a call that goes on with a search. -/
structure FindNextArgs where
  hDir : Hdir
  pfindbuf : Bool := true
  cbfindbuf : Nat
  pcFilenames : Option Nat

/-- Going on with the search of a handle. -/
def DosFindNext (host : FindHost) (args : FindNextArgs) (s : FindState) :
    Option (FindState × FindAnswer) :=
  if args.hDir = .null ∨ args.hDir = .system ∨ args.hDir = .create then
    some (s, { ret := .errorInvalidHandle })
  else if 0xFFFF < args.cbfindbuf then some (s, { ret := .errorInvalidParameter })
  else
    match args.pcFilenames with
    | none => some (s, { ret := .errorInvalidParameter })
    | some count =>
      if args.pfindbuf = false ∧ count ≠ 0 then some (s, { ret := .errorInvalidParameter })
      else
        match args.hDir with
        | .finder ref =>
          match s.finder ref with
          | none => none
          | some dirf =>
            match dirf.level with
            | none => none
            | some level =>
              if args.cbfindbuf < findNextSizeNeeded level count then
                some (s, { ret := .errorBufferOverflow })
              else some (findNext host s ref dirf level args.cbfindbuf count)
        | _ => none

/-- Ending a search. -/
def DosFindClose (hDir : Hdir) (s : FindState) : Option (FindState × FindAnswer) :=
  match hDir with
  | .null | .system | .create => some (s, { ret := .errorInvalidHandle })
  | .finder ref =>
    (s.finder ref).map fun dirf => ((s.closedir dirf.dirp).dropFinder ref, { ret := .noError })
  | .wild => none

end TwoIne
