import Mathlib.Algebra.Group.Nat.Defs
import TwoIne.Lib.HeapLists

/-! The modules of a process: loading them with their dependencies, and releasing them again. -/

namespace TwoIne

open Cells HeapLists

/-- The characters of a name or a path. -/
abbrev Name := List Char

/-- Whether two names agree up to the case of their letters. -/
def strcasecmp (a b : Name) : Bool := a.map Char.toLower = b.map Char.toLower

/-- What the loader keeps of a module: its links, its references, and what it runs and depends on. -/
structure LxModule where
  isLx : Bool := false
  nativelib : Bool := false
  name : Name := []
  refcount : Nat := 1
  dependencies : List (Option Nat) := []
  numMmaps : Nat := 0
  stackObject : Nat := 0
  eipObject : Nat := 0
  nativeDeinit : Bool := false
  initialized : Bool := false
  prev : Option Nat := none
  next : Option Nat := none
  deriving DecidableEq, Repr

/-- What happens to a module as a whole. -/
inductive ModuleEvent where
  | initialized (module : Nat)
  | terminated (module : Nat)
  | freed (module : Nat)
  deriving DecidableEq, Repr

/-- The state of the loader: the modules, the first one of the list, and the program. -/
structure Loader where
  modules : Heap LxModule := []
  loadedModules : Option Nat := none
  mainModule : Option Nat := none
  running : Bool := false
  events : List ModuleEvent := []
  deriving DecidableEq, Repr

/--
How a call ends that does not return.

It uses a module that is not there, runs a library on the stack of a program that is not there, looks up the
stack outside of the object table, fails an assertion, or runs out of the steps it was given.
-/
inductive Fault where
  | invalidModule
  | noMainStack
  | outsideTable
  | assertion
  | outOfSteps
  deriving DecidableEq, Repr

/-- What a read of a module comes to. -/
def Loader.get (s : Loader) (p : Nat) : Except Fault LxModule :=
  match read s.modules p with
  | none => .error .invalidModule
  | some m => .ok m

/-- Writing a module. -/
def Loader.put (s : Loader) (p : Nat) (m : LxModule) : Loader :=
  { s with modules := write s.modules p m }

/-- Changing a module. -/
def Loader.modify (s : Loader) (p : Nat) (change : LxModule → LxModule) : Except Fault Loader := do
  let m ← s.get p
  return s.put p (change m)

/-- Recording an event. -/
def Loader.record (s : Loader) (event : ModuleEvent) : Loader :=
  { s with events := s.events ++ [event] }

/-- Freeing the memory of a module. -/
def Loader.free (s : Loader) (p : Nat) : Except Fault Loader := do
  let _ ← s.get p
  return { s with modules := Cells.free s.modules p }.record (.freed p)

/-- How many steps suffice for anything that visits every module once. -/
def Loader.steps (s : Loader) : Nat := fresh s.modules + 1

/-- Running the entry point of a library, on the stack of the program unless that is running already. -/
def runLxLibraryInitOrTerm (p : Nat) (isTermination : Bool) (s : Loader) : Except Fault Loader :=
  let ran := s.record (if isTermination then .terminated p else .initialized p)
  if s.running then .ok ran
  else
    match s.mainModule with
    | none => .error .noMainStack
    | some main => do
      let _ ← s.get main
      return ran

/-- Running the initialisation code of a library, if it has any. -/
def runLibraryInit (p : Nat) (m : LxModule) (s : Loader) : Except Fault Loader :=
  if m.isLx ∧ m.eipObject ≠ 0 then runLxLibraryInitOrTerm p false s else .ok s

/-- Running the termination code of a library, if it has any. -/
def runLibraryTerm (p : Nat) (m : LxModule) (s : Loader) : Except Fault Loader :=
  if m.nativelib then
    if m.nativeDeinit then .ok (s.record (.terminated p)) else .ok s
  else if m.isLx ∧ m.eipObject ≠ 0 then runLxLibraryInitOrTerm p true s
  else .ok s

/-- Running the termination code of a module that was initialised and is not the program. -/
def terminateModule (p : Nat) (m : LxModule) (s : Loader) : Except Fault Loader :=
  if m.initialized ∧ s.mainModule ≠ some p then runLibraryTerm p m s else .ok s

/-- Setting the predecessor of a module, if there is one. -/
def setPrev (p prev : Option Nat) (s : Loader) : Except Fault Loader :=
  match p with
  | none => .ok s
  | some p => s.modify p fun m => { m with prev }

/-- Setting the successor of a module, if there is one. -/
def setNext (p next : Option Nat) (s : Loader) : Except Fault Loader :=
  match p with
  | none => .ok s
  | some p => s.modify p fun m => { m with next }

/-- Taking a module out of the list, which changes nothing when it is not in it. -/
def unlinkModule (p : Nat) (m : LxModule) (s : Loader) : Except Fault Loader := do
  let s ← setPrev m.next m.prev s
  let s ← setNext m.prev m.next s
  return if s.loadedModules = some p then { s with loadedModules := m.next } else s

/-- Giving up the program, whose stack is looked up in the table of its objects. -/
def leaveMainModule (p : Nat) (m : LxModule) (s : Loader) : Except Fault Loader :=
  if s.mainModule = some p then
    if 0 < m.stackObject ∧ m.stackObject ≤ m.numMmaps then .ok { s with mainModule := none }
    else .error .outsideTable
  else .ok s

/-- Releasing the listed pointers one by one. -/
def releaseEach (release : Option Nat → Loader → Except Fault Loader) :
    List (Option Nat) → Loader → Except Fault Loader
  | [], s => .ok s
  | p :: rest, s => do
    let s ← release p s
    releaseEach release rest s

/-- Dropping one reference to a module, which frees it with the last one. -/
def freeLxModule : Nat → Option Nat → Loader → Except Fault Loader
  | _, none, s => .ok s
  | 0, some _, _ => .error .outOfSteps
  | steps + 1, some p, s => do
    let m ← s.get p
    let refcount := (m.refcount + (2 ^ 32 - 1)) % 2 ^ 32
    let s := s.put p { m with refcount }
    if 0 < refcount then .ok s
    else do
      let s ← terminateModule p m s
      let s ← unlinkModule p m s
      let s ← leaveMainModule p m s
      -- The dependencies are released last to first.
      let s ← releaseEach (freeLxModule steps) m.dependencies.reverse s
      s.free p

/-- Putting a module in front of the list. -/
def linkModule (p : Nat) (s : Loader) : Except Fault Loader :=
  match s.loadedModules with
  | none => .ok { s with loadedModules := some p }
  | some head => do
    let s ← setNext (some p) (some head) s
    let s ← setPrev (some head) (some p) s
    return { s with loadedModules := some p }

/-- A file that is an LX or NE module, with how the parts of its load turn out that need no other module. -/
structure Image where
  isLx : Bool := true
  moduleFlags : Nat := 0x8000
  name : Name := []
  imports : List Name := []
  eipObject : Nat := 0
  stackObject : Nat := 1
  numObjects : Nat := 1
  allocated : Bool := true
  tables : Bool := true
  mapped : Bool := true
  exported : Bool := true
  finished : Bool := true
  deriving DecidableEq, Repr

/-- Whether the module is a library. -/
def Image.isDLL (image : Image) : Bool :=
  if image.isLx then image.moduleFlags &&& 0x38000 = 0x8000 else image.moduleFlags &&& 0x8000 = 0x8000

/-- Whether the module is neither a program nor a library, which only LX modules can say of themselves. -/
def Image.isNonstandard (image : Image) : Bool :=
  image.isLx && image.moduleFlags &&& 0x38000 ≠ 0 && image.moduleFlags &&& 0x38000 ≠ 0x8000

/-- Whether a load gives up before it has a module at all. -/
def Image.refused (image : Image) (mainModule : Option Nat) : Bool :=
  image.isNonstandard || image.moduleFlags &&& 0x2000 ≠ 0 ||
    (if image.isDLL then mainModule.isNone else mainModule.isSome)

/-- A module whose stack object is in its table. -/
def Image.hasStack (image : Image) : Bool := 0 < image.stackObject && image.stackObject ≤ image.numObjects

/-- A module whose tables are there but not filled yet. -/
def Image.toModule (image : Image) : LxModule :=
  { isLx := image.isLx
    name := image.name.map Char.toUpper
    dependencies := List.replicate image.imports.length none
    numMmaps := image.numObjects
    stackObject := image.stackObject
    eipObject := image.eipObject }

/-- A library of the host, with whether it wants to be called when it is released. -/
structure NativeLib where
  deinit : Bool := false
  deriving DecidableEq, Repr

/--
What a load finds: the files behind library names and paths, the native libraries, and the paths of names.

The last field is what the pointer to the module happens to hold before the loader has assigned it.
-/
structure LoadEnv where
  dll : Name → Option Image := fun _ => none
  file : Name → Option Image := fun _ => none
  native : Name → Option NativeLib := fun _ => none
  makeUnixPath : Name → Option Name := some
  unassigned : Option Nat := none

/-- The outcome of a load: the module, or nothing when it failed. -/
abbrev Loaded := Except Fault (Loader × Option Nat)

/-- Failing with a module, which is released. -/
def abandonModule (p : Option Nat) (s : Loader) : Loaded := do
  let s ← freeLxModule s.steps p s
  return (s, none)

/-- Creating a module and loading everything of it that needs no other module. -/
def createModule (tooDeep : Bool) (image : Image) (s : Loader) : Loaded :=
  let p := fresh s.modules
  if ¬ image.allocated then abandonModule none s
  else if ¬ image.tables then
    abandonModule (some p) { s with modules := alloc s.modules { isLx := image.isLx } }
  else
    let s := { s with modules := alloc s.modules image.toModule }
    let s := if image.isDLL then s else { s with mainModule := some p }
    if tooDeep then abandonModule (some p) s
    else if ¬ image.isLx ∧ ¬ image.hasStack then abandonModule (some p) s
    else if ¬ image.mapped then abandonModule (some p) s
    else if ¬ image.isDLL ∧ image.stackObject = 0 then .error .assertion
    else if ¬ image.isDLL ∧ ¬ image.hasStack then .error .outsideTable
    else if ¬ image.exported then abandonModule (some p) s
    else .ok (s, some p)

/-- Loading the modules that a module imports, into its slots from slot `i` on. -/
def loadDependencies (loadDependency : Name → Loader → Loaded) (isLx : Bool) (p : Nat) :
    Nat → List Name → Loader → Except Fault (Loader × Bool)
  | _, [], s => .ok (s, true)
  | i, name :: rest, s =>
    if isLx ∧ 127 < name.length then .ok (s, false)
    else do
      let (s, dependency) ← loadDependency name s
      let s ← s.modify p fun m => { m with dependencies := m.dependencies.set i dependency }
      if dependency.isNone then return (s, false)
      loadDependencies loadDependency isLx p (i + 1) rest s

/-- Putting a loaded module to use: a library is initialised and listed. -/
def finishModule (isDLL : Bool) (p : Nat) (s : Loader) : Loaded := do
  let m ← s.get p
  let ready := { m with initialized := true }
  if ¬ isDLL then .ok (s.put p ready, some p)
  else if s.mainModule = none ∨ s.mainModule = some p then .error .assertion
  else do
    let s ← runLibraryInit p m s
    let s ← linkModule p (s.put p ready)
    return (s, some p)

/--
Loading an LX or NE module; without a way to load its dependencies it is nested too deep.

A module that is refused is released like one that fails later, although its pointer has no value yet.
-/
def loadModuleWith (env : LoadEnv) (loadDependency : Option (Name → Loader → Loaded)) (image : Image)
    (s : Loader) : Loaded :=
  if image.refused s.mainModule then abandonModule env.unassigned s
  else do
    let (s, created) ← createModule loadDependency.isNone image s
    match created, loadDependency with
    | some p, some loadDependency =>
      let (s, complete) ← loadDependencies loadDependency image.isLx p 0 image.imports s
      if complete ∧ image.finished then finishModule image.isDLL p s else abandonModule (some p) s
    | _, _ => return (s, none)

/-- The first listed module of the given name. -/
def findModule (modname : Name) (s : Loader) : Except Fault (Option Nat) :=
  match walkUntil (fun m => strcasecmp m.name modname) LxModule.next s.modules s.steps none
      s.loadedModules with
  | none => .error .invalidModule
  | some (_, found) => .ok found

/-- Loading a library of the host, which is listed at once. -/
def loadNativeModule (env : LoadEnv) (modname : Name) (s : Loader) : Loaded :=
  match env.native modname with
  | none => .ok (s, none)
  | some lib => do
    let p := fresh s.modules
    let m : LxModule :=
      { nativelib := true, name := modname, nativeDeinit := lib.deinit, initialized := true }
    let s ← linkModule p { s with modules := alloc s.modules m }
    return (s, some p)

/-- Loading the file that a library name leads to, if there is one. -/
def loadLibraryFile (env : LoadEnv) (loadModule : Image → Loader → Loaded) (modname : Name)
    (s : Loader) : Loaded :=
  match env.dll modname with
  | none => .ok (s, none)
  | some image => loadModule image s

/-- Loading a module by its name: one that is listed, or else a file, or else a library of the host. -/
def loadByNameWith (env : LoadEnv) (loadModule : Image → Loader → Loaded) (modname : Name)
    (s : Loader) : Loaded := do
  match ← findModule modname s with
  | some p =>
    let s ← s.modify p fun m => { m with refcount := (m.refcount + 1) % 2 ^ 32 }
    return (s, some p)
  | none =>
    let (s, loaded) ← loadLibraryFile env loadModule modname s
    if loaded.isSome then return (s, loaded) else loadNativeModule env modname s

/-- Loading a module; its dependencies may be nested as many levels deep as the number says. -/
def loadModule (env : LoadEnv) : Nat → Image → Loader → Loaded
  | 0, image, s => loadModuleWith env none image s
  | levels + 1, image, s => loadModuleWith env (some (loadByNameWith env (loadModule env levels))) image s

/-- How many levels deep the dependencies of a module may be nested. -/
def maxDependencyDepth : Nat := 32

/-- Loading a module by its name. -/
def loadModuleByModuleName (env : LoadEnv) (modname : Name) (s : Loader) : Loaded :=
  loadByNameWith env (loadModule env maxDependencyDepth) modname s

/-- Loading a module by its path. -/
def loadModuleByPath (env : LoadEnv) (path : Name) (s : Loader) : Loaded :=
  match env.file path with
  | none => .ok (s, none)
  | some image => loadModule env maxDependencyDepth image s

/-- Loading the program and, when that works, starting it. -/
def startProgram (env : LoadEnv) (path : Name) (s : Loader) : Loaded := do
  let (s, loaded) ← loadModuleByPath env path s
  return (if loaded.isSome then { s with running := true } else s, loaded)

/-- The name without its extension, which starts at the last dot. -/
def withoutExtension (modname : Name) : Name :=
  if '.' ∈ modname then (modname.reverse.dropWhile (· ≠ '.')).tail.reverse else modname

/-- Loading a module by a path, or by a name when it has no separators. -/
def loadModuleByPathOrModuleName (env : LoadEnv) (modname : Name) (s : Loader) : Loaded :=
  if '/' ∉ modname ∧ '\\' ∉ modname then loadModuleByModuleName env (withoutExtension modname) s
  else
    match env.makeUnixPath modname with
    | none => .ok (s, none)
    | some path => loadModuleByPath env path s

/-- Releasing the first listed module, whatever still refers to it, until the list is empty. -/
def releaseLoaded : Nat → Loader → Except Fault Loader
  | 0, s => if s.loadedModules = none then .ok s else .error .outOfSteps
  | rounds + 1, s =>
    match s.loadedModules with
    | none => .ok s
    | some p => do
      let s ← s.modify p fun m => { m with refcount := 1 }
      let s ← freeLxModule s.steps (some p) s
      releaseLoaded rounds s

/-- Ending the process: the program is released, and then everything that is still listed. -/
def lxTerminate (s : Loader) : Except Fault Loader := do
  let s ← freeLxModule s.steps s.mainModule s
  releaseLoaded s.steps s

end TwoIne
