import TwoIne.PmWin.Windows

/-! Posting a message to a window of the thread. -/

namespace TwoIne

/-- What the host reports of the moment of a post: its clock, and where the mouse is. -/
structure PostMoment where
  currentSystemTicks : Nat := 0
  mouse : Int × Int := (0, 0)

/-- What a post leaves behind: the anchor block, the error it recorded there, and its answer. -/
structure Posted where
  anchor : Option AnchorBlock
  recorded : Option Nat := none
  ret : Bool
  deriving DecidableEq, Repr

/-- Recording an error in the anchor block and returning. -/
def setWinErrorAndReturn (anchor : AnchorBlock) (err : Nat) (rc : Bool) : Posted where
  anchor := some { anchor with lastError := err }
  recorded := some err
  ret := rc

/-- The message that a post makes of its arguments. -/
def postedMessage (moment : PostMoment) (hwnd msg mp1 mp2 : Nat) : Qmsg where
  hwnd := hwnd
  msg := msg
  mp1 := mp1
  mp2 := mp2
  time := moment.currentSystemTicks
  ptl := moment.mouse

/--
Posting a message to a window; the windows are the part of the anchor block that is kept apart.

The answer of the queue, which is one for a message that was appended, is taken for an error.
-/
def winPostMsg (malloc : Option MessageQueueItem) (moment : PostMoment) (windows : WindowBlock)
    (hwnd msg mp1 mp2 : Nat) (anchor : Option AnchorBlock) : Option Posted :=
  match anchor with
  | none => some { anchor := none, ret := false }
  | some anchor =>
    if anchor.messageQueue.hmq = nullHandle then
      some (setWinErrorAndReturn anchor pmerrNoMsgQueue false)
    else
      match getWindowFromHWND windows hwnd with
      | none => some (setWinErrorAndReturn anchor pmerrInvalidHwnd false)
      | some _ =>
        (postMessage malloc (postedMessage moment hwnd msg mp1 mp2) anchor.messageQueue).map
          fun (queue, appended) =>
            let rc := if appended then 1 else 0
            let anchor := { anchor with messageQueue := queue }
            if rc ≠ 0 then setWinErrorAndReturn anchor rc false
            else { anchor := some anchor, ret := true }

end TwoIne
