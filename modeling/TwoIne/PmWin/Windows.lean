import Mathlib.Data.List.Basic
import TwoIne.PmWin.MessageQueue

/-! The windows of an anchor block: creating and destroying them, and painting in them. -/

namespace TwoIne

/-- The handle of nothing. -/
def nullHandle : Nat := 0

/-- The handle of the desktop. -/
def hwndDesktop : Nat := 1

/-- In place of a handle, this asks for a window in front of all its siblings. -/
def hwndTop : Nat := 3

/-- In place of a handle, this asks for a window behind all its siblings. -/
def hwndBottom : Nat := 4

/-- The handle of the first window in the array. -/
def firstHwndValue : Nat := 10

/-- The handle of the first presentation space in the array. -/
def firstHpsValue : Nat := 10

/-- The error for a handle that names no window. -/
def pmerrInvalidHwnd : Nat := 0x1001

/-- The error for memory that is not to be had. -/
def pmerrHeapOutOfMemory : Nat := 0x1011

/-- The error for a thread without a message queue. -/
def pmerrNoMsgQueue : Nat := 0x1036

/-- The error for a class that is not registered. -/
def pmerrInvalidParm : Nat := 0x1303

/-- The error for a failure of the host. -/
def pmerrInternalError1 : Nat := 0x1601

/-- The error for a handle that names no presentation space. -/
def pmerrInvHps : Nat := 0x207F

/-- A pointer to the desktop, or into an array of windows that was allocated at some time. -/
inductive WinPtr where
  | desktop
  | element (windows idx : Nat)
  deriving DecidableEq, Repr

/-- What shows a window on the host, shared by all windows below it. -/
structure HeavyWeightWindow where
  window : Nat := 0
  renderer : Nat := 0
  texture : Nat := 0
  deriving DecidableEq, Repr

/-- A window; all zeros stand for a free slot of the array. -/
structure Window where
  windowProc : Nat := 0
  heavy : HeavyWeightWindow := {}
  parent : Option WinPtr := none
  children : Option WinPtr := none
  sibling : Option WinPtr := none
  owner : Option WinPtr := none
  windowClassName : Option (List UInt8) := none
  text : Option (List UInt8) := none
  data : Option Nat := none
  dataLen : Nat := 0
  id : Nat := 0
  classStyle : Nat := 0
  style : Nat := 0
  hwnd : Nat := nullHandle
  x : Int := 0
  y : Int := 0
  w : Int := 0
  h : Int := 0
  deriving DecidableEq, Repr

/-- Something to paint in; all zeros stand for a free slot of the array. -/
structure PresentationSpace where
  hps : Nat := nullHandle
  window : Option WinPtr := none
  deriving DecidableEq, Repr

/-- What windows of a class have in common. -/
structure WindowClass where
  name : List UInt8
  windowProc : Nat
  style : Nat
  dataLen : Nat
  deriving DecidableEq, Repr

/--
The part of an anchor block that the windows are in, with the desktop.

The array has a number of its own each time it is allocated, and a pointer into an older array is
dangling.
-/
structure WindowBlock where
  lastError : Nat := 0
  registeredClasses : List WindowClass := []
  hmq : Nat := nullHandle
  windows : Nat := 0
  windowsArray : List Window
  presSpaces : List PresentationSpace
  desktopWindow : Window
  deriving DecidableEq, Repr

namespace WindowBlock

/-- Following a pointer. -/
def deref (s : WindowBlock) : WinPtr → Option Window
  | .desktop => some s.desktopWindow
  | .element windows idx => if windows = s.windows then s.windowsArray[idx]? else none

/-- Overwriting what is behind a pointer. -/
def store (s : WindowBlock) (p : WinPtr) (win : Window) : WindowBlock :=
  match p with
  | .desktop => { s with desktopWindow := win }
  | .element _ idx => { s with windowsArray := s.windowsArray.set idx win }

/-- Changing a window through a pointer, which is a fault if the pointer is dangling. -/
def modify (p : WinPtr) (f : Window → Window) (s : WindowBlock) : Option WindowBlock :=
  (s.deref p).map fun win => s.store p (f win)

end WindowBlock

/-- The block after `WinInitialize`, with a desktop of the given size. -/
def winInitialize (hmq : Nat) (classes : List WindowClass) (w h : Int) : WindowBlock where
  hmq := hmq
  registeredClasses := classes
  windowsArray := List.replicate 16 {}
  presSpaces := List.replicate 16 {}
  desktopWindow := { hwnd := hwndDesktop, w := w, h := h }

/-- The window that a handle names. -/
def getWindowFromHWND (s : WindowBlock) (hwnd : Nat) : Option WinPtr :=
  if firstHwndValue ≤ hwnd then
    match s.windowsArray[hwnd - firstHwndValue]? with
    | none => none
    | some win =>
      if win.hwnd = hwnd then some (.element s.windows (hwnd - firstHwndValue)) else none
  else if hwnd = hwndDesktop then some .desktop
  else none

/-- The index of the presentation space that a handle names. -/
def getPresentationSpaceFromHPS (s : WindowBlock) (hps : Nat) : Option Nat :=
  if firstHpsValue ≤ hps then
    match s.presSpaces[hps - firstHpsValue]? with
    | none => none
    | some ps => if ps.hps = hps then some (hps - firstHpsValue) else none
  else none

/-- A class, given by its name or by the number of one that the system has built in. -/
inductive ClassArg where
  | builtIn (intclass : Nat)
  | named (classname : List UInt8)
  deriving DecidableEq, Repr

/-- The class of a new window; none of the built-in ones is there yet. -/
def findRegisteredClass (s : WindowBlock) : ClassArg → Option WindowClass
  | .builtIn _ => none
  | .named classname => s.registeredClasses.find? fun i => i.name = classname

section Destroying

/--
The loop that looks for the sibling in front of a window and makes it point past it.

A loop of more steps than there are windows never ends, which is a fault here.
-/
def unlinkSibling (win : WinPtr) (next : Option WinPtr) : Nat → Option WinPtr → WindowBlock →
    Option WindowBlock
  | 0, _, _ => none
  | _ + 1, none, s => some s
  | steps + 1, some i, s =>
    -- assert(i != win)
    if i = win then none
    else
      match s.deref i with
      | none => none
      | some cell =>
        if cell.sibling = some win then s.modify i fun cell => { cell with sibling := next }
        else unlinkSibling win next steps cell.sibling s

/-- Taking a window out of the list it is in, and clearing its slot. -/
def unlinkWindow (win : WinPtr) (s : WindowBlock) : Option WindowBlock :=
  match s.deref win with
  | none => none
  | some cell =>
    match cell.parent with
    | none => none
    | some q =>
      match s.deref q with
      | none => none
      | some parent =>
        let unlinked :=
          if parent.children = some win then
            s.modify q fun parent => { parent with children := cell.sibling }
          else unlinkSibling win cell.sibling (s.windowsArray.length + 1) parent.children s
        unlinked.bind fun s => s.modify win fun _ => {}

mutual

/--
Destroying a window and everything below it.

The procedures of the windows are told, and neither create nor destroy any. The first argument
bounds the depth of the calls; running out of it stands for calls without end.
-/
def destroyWindow : Nat → WinPtr → WindowBlock → Option WindowBlock
  | 0, _, _ => none
  | steps + 1, win, s =>
    match s.deref win with
    | none => none
    | some cell =>
      if cell.hwnd = nullHandle then some s
      else (destroyChildren steps cell.children s).bind (unlinkWindow win)

/-- Destroying a list of siblings; the next one is read before the window is gone. -/
def destroyChildren : Nat → Option WinPtr → WindowBlock → Option WindowBlock
  | 0, _, _ => none
  | _ + 1, none, s => some s
  | steps + 1, some i, s =>
    match s.deref i with
    | none => none
    | some cell => (destroyWindow steps i s).bind (destroyChildren steps cell.sibling)

end

/-- Enough steps for all windows there can be. -/
def WindowBlock.destroySteps (s : WindowBlock) : Nat := 2 * (s.windowsArray.length + 2)

/-- The call to destroy a window. -/
def winDestroyWindow (hwnd : Nat) (s : WindowBlock) : Option (WindowBlock × Bool) :=
  match getWindowFromHWND s hwnd with
  | none => some ({ s with lastError := pmerrInvalidHwnd }, false)
  | some win => (destroyWindow s.destroySteps win s).map fun s => (s, true)

end Destroying

section Creating

/-- What a window is to be. -/
structure CreateCall where
  hwndParent : Nat
  pszClass : ClassArg
  pszName : Option (List UInt8) := none
  flStyle : Nat := 0
  x : Int := 0
  y : Int := 0
  cx : Int := 0
  cy : Int := 0
  hwndOwner : Nat := nullHandle
  hwndInsertBehind : Nat := hwndTop
  id : Nat := 0
  deriving DecidableEq, Repr

/-- The position of a window as its procedure may adjust it. -/
structure Swp where
  fl : Nat := 0
  cy : Int
  cx : Int
  y : Int
  x : Int
  hwndInsertBehind : Nat
  hwnd : Nat
  deriving DecidableEq, Repr

/-- The position that is shown to the procedure of a new window. -/
def CreateCall.swp (call : CreateCall) (hwnd : Nat) : Swp where
  cy := call.cy
  cx := call.cx
  y := call.y
  x := call.x
  hwndInsertBehind := call.hwndInsertBehind
  hwnd := hwnd

/-- What comes of making an array longer: no memory, the same place or another one. -/
inductive ReallocAnswer where
  | fails
  | stays
  | moves
  deriving DecidableEq, Repr

/-- What the system and the procedure of the new window answer while it is created. -/
structure CreateAnswers where
  realloc : ReallocAnswer := .stays
  strdup : Bool := true
  malloc : Option Nat := some 0
  sdlWindow : Option Nat := some 0
  sdlRenderer : Option Nat := some 0
  sdlTexture : Option Nat := some 0
  /-- The answer to WM_CREATE is not FALSE. -/
  cancels : Bool := false
  /-- What WM_ADJUSTWINDOWPOS makes of the position. -/
  adjust : Swp → Swp := id

/-- The slot for a new window: the first free one, or the first of the second half. -/
def takeSlot (realloc : ReallocAnswer) (s : WindowBlock) : Option (WindowBlock × Nat) :=
  match s.windowsArray.findIdx? (·.hwnd = nullHandle) with
  | some i => some (s, i)
  | none =>
    let len := s.windowsArray.length
    let windowsArray := s.windowsArray ++ List.replicate len {}
    match realloc with
    | .fails => none
    | .stays => some ({ s with windowsArray }, len)
    | .moves => some ({ s with windows := s.windows + 1, windowsArray }, len)

/--
What shows the new window on the host: something new on the desktop, else what the parent has.

The outer option is the fault of a dangling pointer, the inner one a failure of the host.
-/
def createHeavy (call : CreateCall) (answers : CreateAnswers) (parent : WinPtr)
    (s : WindowBlock) : Option (Option HeavyWeightWindow) :=
  if call.hwndParent = hwndDesktop then
    match answers.sdlWindow, answers.sdlRenderer, answers.sdlTexture with
    | some window, some renderer, some texture => some (some ⟨window, renderer, texture⟩)
    | _, _, _ => some none
  else (s.deref parent).map fun parent => some parent.heavy

/-- The new window before it is in any list, or the error that keeps it from being made. -/
def makeWindow (call : CreateCall) (answers : CreateAnswers) (winclass : WindowClass)
    (parent : WinPtr) (owner : Option WinPtr) (hwnd : Nat) (s : WindowBlock) :
    Option (Except Nat Window) :=
  if call.pszName.isSome ∧ answers.strdup = false then some (.error pmerrHeapOutOfMemory)
  else if 0 < winclass.dataLen ∧ answers.malloc = none then some (.error pmerrHeapOutOfMemory)
  else
    (createHeavy call answers parent s).map fun made =>
      match made with
      | none => .error pmerrInternalError1
      | some heavy =>
        .ok {
          heavy := heavy
          parent := some parent
          hwnd := hwnd
          windowClassName := some winclass.name
          data := if 0 < winclass.dataLen then answers.malloc else none
          text := call.pszName
          dataLen := winclass.dataLen
          windowProc := winclass.windowProc
          classStyle := winclass.style
          style := call.flStyle
          id := call.id
          owner := owner }

/-- Where a window goes among its siblings. -/
inductive ZOrder where
  | top
  | bottom
  | behind (insertBehind : WinPtr)
  deriving DecidableEq, Repr

/-- Where a window goes; behind a window of another parent means behind all siblings. -/
def zOrder (parent : WinPtr) (hwndInsertBehind : Nat) (s : WindowBlock) : Option ZOrder :=
  if hwndInsertBehind = hwndTop then some .top
  else if hwndInsertBehind = hwndBottom then some .bottom
  else
    match getWindowFromHWND s hwndInsertBehind with
    | none => some .bottom
    | some insertBehind =>
      (s.deref insertBehind).map fun cell =>
        if cell.parent ≠ some parent then .bottom else .behind insertBehind

/-- The loop to the last one of a list of siblings. -/
def lastSibling (s : WindowBlock) : Nat → Option WinPtr → Option WinPtr → Option (Option WinPtr)
  | 0, _, _ => none
  | _ + 1, prev, none => some prev
  | steps + 1, _, some i =>
    match s.deref i with
    | none => none
    | some cell => lastSibling s steps (some i) cell.sibling

/-- Linking a new window into the list of its siblings. -/
def linkWindow (win parent : WinPtr) (place : ZOrder) (s : WindowBlock) : Option WindowBlock :=
  match s.deref parent with
  | none => none
  | some cell =>
    if cell.children = none then
      -- There is nothing to insert it behind.
      s.modify parent fun cell => { cell with children := some win }
    else
      match place with
      | .top =>
        (s.modify win fun new => { new with sibling := cell.children }).bind fun s =>
          s.modify parent fun cell => { cell with children := some win }
      | .bottom =>
        match lastSibling s (s.windowsArray.length + 1) none cell.children with
        | some (some prev) => s.modify prev fun last => { last with sibling := some win }
        | _ => none
      | .behind insertBehind =>
        match s.deref insertBehind with
        | none => none
        | some before =>
          (s.modify win fun new => { new with sibling := before.sibling }).bind fun s =>
            s.modify insertBehind fun before => { before with sibling := some win }

/-- Showing a window that was made to its procedure, and linking it unless that is refused. -/
def enterWindow (call : CreateCall) (answers : CreateAnswers) (win parent : WinPtr) (new : Window)
    (s : WindowBlock) : Option (WindowBlock × Nat) :=
  if answers.cancels then
    (destroyWindow s.destroySteps win s).map fun s => (s, nullHandle)
  else
    let swp := answers.adjust (call.swp new.hwnd)
    (s.modify win fun new => { new with x := swp.x, y := swp.y, w := swp.cx, h := swp.cy }).bind
      fun s =>
        (zOrder parent swp.hwndInsertBehind s).bind fun place =>
          (linkWindow win parent place s).map fun s => (s, new.hwnd)

/-- Creating a window of a known class, parent and owner. -/
def createKnown (call : CreateCall) (answers : CreateAnswers) (winclass : WindowClass)
    (parent : WinPtr) (owner : Option WinPtr) (s : WindowBlock) : Option (WindowBlock × Nat) :=
  match takeSlot answers.realloc s with
  | none => some ({ s with lastError := pmerrHeapOutOfMemory }, nullHandle)
  | some (s, idx) =>
    let win := .element s.windows idx
    match makeWindow call answers winclass parent owner (idx + firstHwndValue) s with
    | none => none
    | some (.error err) => some ({ s with lastError := err }, nullHandle)
    | some (.ok new) =>
      (s.modify win fun _ => new).bind (enterWindow call answers win parent new)

/-- The call to create a window; the answer is its handle, or none at all. -/
def winCreateWindow (call : CreateCall) (answers : CreateAnswers) (s : WindowBlock) :
    Option (WindowBlock × Nat) :=
  if s.hmq = nullHandle then some ({ s with lastError := pmerrNoMsgQueue }, nullHandle)
  else
    match findRegisteredClass s call.pszClass with
    | none => some ({ s with lastError := pmerrInvalidParm }, nullHandle)
    | some winclass =>
      match getWindowFromHWND s call.hwndParent with
      | none => some ({ s with lastError := pmerrInvalidHwnd }, nullHandle)
      | some parent =>
        -- The owner is looked up by the handle of the parent.
        let owner :=
          if call.hwndOwner ≠ nullHandle then (getWindowFromHWND s call.hwndParent).map some
          else some none
        match owner with
        | none => some ({ s with lastError := pmerrInvalidHwnd }, nullHandle)
        | some owner => createKnown call answers winclass parent owner s

end Creating

section Painting

/-- The area to paint. -/
structure Rectl where
  xLeft : Int
  yBottom : Int
  xRight : Int
  yTop : Int
  deriving DecidableEq, Repr

/-- The slot for a new presentation space; nothing in the old array points into it. -/
def takePresSpace (realloc : Bool) (s : WindowBlock) : Option (WindowBlock × Nat) :=
  match s.presSpaces.findIdx? (·.hps = nullHandle) with
  | some i => some (s, i)
  | none =>
    let len := s.presSpaces.length
    if realloc then
      some ({ s with presSpaces := s.presSpaces ++ List.replicate len {} }, len)
    else none

/-- Using a presentation space for a window. -/
def assignSpace (idx hps : Nat) (win : WinPtr) (s : WindowBlock) :
    Option (WindowBlock × Nat × Option Rectl) :=
  (s.deref win).map fun cell =>
    ({ s with presSpaces := s.presSpaces.set idx ⟨hps, some win⟩ }, hps,
      some ⟨0, 0, cell.w, cell.h⟩)

/-- Beginning to paint in a window, with a presentation space of the caller or a new one. -/
def winBeginPaint (hwnd hps : Nat) (realloc : Bool) (s : WindowBlock) :
    Option (WindowBlock × Nat × Option Rectl) :=
  match getWindowFromHWND s hwnd with
  | none => some ({ s with lastError := pmerrInvalidHwnd }, nullHandle, none)
  | some win =>
    if hps ≠ nullHandle then
      match getPresentationSpaceFromHPS s hps with
      | none => some ({ s with lastError := pmerrInvHps }, nullHandle, none)
      | some idx => assignSpace idx hps win s
    else
      match takePresSpace realloc s with
      | none => some ({ s with lastError := pmerrHeapOutOfMemory }, nullHandle, none)
      | some (s, idx) => assignSpace idx (idx + firstHpsValue) win s

/-- The end of painting, where the window is asked for what shows it on the host. -/
def winEndPaint (hps : Nat) (s : WindowBlock) : Option (WindowBlock × Bool) :=
  match getPresentationSpaceFromHPS s hps with
  | none => some ({ s with lastError := pmerrInvHps }, false)
  | some idx =>
    ((s.presSpaces[idx]?.bind PresentationSpace.window).bind s.deref).map fun _ =>
      ({ s with presSpaces := s.presSpaces.set idx {} }, true)

end Painting

/-- The calls that change the windows or the presentation spaces. -/
inductive WindowCall where
  | create (call : CreateCall) (answers : CreateAnswers)
  | destroy (hwnd : Nat)
  | beginPaint (hwnd hps : Nat) (realloc : Bool)
  | endPaint (hps : Nat)

/-- What the calls answer. -/
inductive WindowAnswer where
  | handle (hwnd : Nat)
  | done (ok : Bool)
  | painting (hps : Nat) (rect : Option Rectl)
  deriving DecidableEq, Repr

/-- One call; nothing comes back after a fault. -/
def windowStep (s : WindowBlock) : WindowCall → Option (WindowBlock × WindowAnswer)
  | .create call answers =>
    (winCreateWindow call answers s).map fun (s, hwnd) => (s, .handle hwnd)
  | .destroy hwnd => (winDestroyWindow hwnd s).map fun (s, ok) => (s, .done ok)
  | .beginPaint hwnd hps realloc =>
    (winBeginPaint hwnd hps realloc s).map fun (s, hps, rect) => (s, .painting hps rect)
  | .endPaint hps => (winEndPaint hps s).map fun (s, ok) => (s, .done ok)

end TwoIne
