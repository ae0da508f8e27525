import Mathlib.Data.List.Basic
import TwoIne.Proofs.PmWin.WindowTree

/-! Creating a window: the slot it takes, what it is made of, and its place among its siblings. -/

namespace TwoIne

open Chains Forests

/-- All windows are as they were. -/
def SameWindows (s t : WindowBlock) : Prop :=
  ∀ p cell, cell.hwnd ≠ nullHandle → (t.deref p = some cell ↔ s.deref p = some cell)

/-- All windows are as they were, and so are the presentation spaces. -/
structure LeftAlone (s t : WindowBlock) : Prop where
  windows : SameWindows s t
  presSpaces : t.presSpaces = s.presSpaces

/-- A new window is in the list of the children of its parent, and nothing else changed. -/
structure CreatedAs (call : CreateCall) (s t : WindowBlock) (hwnd : Nat) (win q : WinPtr)
    (new : Window) (front rest : List WinPtr) : Prop where
  named : getWindowFromHWND t hwnd = some win
  fresh : ¬ IsLive s win
  parent : getWindowFromHWND s call.hwndParent = some q ∧ new.parent = some q
  owner : new.owner =
    if call.hwndOwner = nullHandle then none else getWindowFromHWND s call.hwndOwner
  childless : new.children = none
  before : ChildList s q (front ++ rest)
  after : ChildList t q (front ++ win :: rest)
  placed : t.deref win = some { new with sibling := rest.head? }
  others : ∀ b, IsLive s b → t.deref b = (s.deref b).map fun old =>
    { old with
      children := if b = q ∧ front = [] then some win else old.children
      sibling := if front.getLast? = some b then some win else old.sibling }
  live : ∀ b, IsLive t b ↔ b = win ∨ IsLive s b
  presSpaces : t.presSpaces = s.presSpaces

/-- A window was created as the call asks for, with the given handle. -/
def Created (call : CreateCall) (s t : WindowBlock) (hwnd : Nat) : Prop :=
  ∃ win q new front rest, CreatedAs call s t hwnd win q new front rest

section Frames

variable {s t u : WindowBlock}

/-- Whoever changes no window leaves them as they were. -/
theorem SameWindows.of_cells (cells : ∀ p, t.deref p = s.deref p) : SameWindows s t :=
  fun p _ _ => by rw [cells p]

/-- Windows that are as before are there as before. -/
theorem SameWindows.isLive (same : SameWindows s t) (p : WinPtr) : IsLive t p ↔ IsLive s p := by
  constructor
  · rintro ⟨cell, found, running⟩
    exact ⟨cell, (same p cell running).mp found, running⟩
  · rintro ⟨cell, found, running⟩
    exact ⟨cell, (same p cell running).mpr found, running⟩

/-- Windows that are as before have the contents they had. -/
theorem SameWindows.deref (same : SameWindows s t) {p : WinPtr} (live : IsLive s p) :
    t.deref p = s.deref p := by
  obtain ⟨cell, found, running⟩ := live
  rw [found, (same p cell running).mpr found]

/-- The tree of windows that are as before. -/
theorem TreeOf.sameWindows {T : Forest WinPtr} (tree : TreeOf s T) (same : SameWindows s t) :
    TreeOf t T := by
  refine ⟨tree.shape.frame fun p member => ?_, tree.distinct, fun p => ?_, ?_⟩
  · rw [linksOf, linksOf, same.deref ((tree.live p).mp member)]
  · rw [tree.live, same.isLive]
  · have desktop : some t.desktopWindow = some s.desktopWindow := same.deref tree.live_desktop
    rw [Option.some.inj desktop]
    exact tree.alone

/-- What the calls keep is kept where the windows are as before and the array is where it was. -/
theorem Sound.sameWindows (sound : Sound s) (same : SameWindows s t) (base : t.windows = s.windows)
    (slots : s.windowsArray.length ≤ t.windowsArray.length) (spaces : SpacesLive t)
    (spaceSlots : 0 < t.presSpaces.length) (spaceHandles : SpacesFit t.presSpaces) : Sound t := by
  obtain ⟨T, tree⟩ := sound.tree
  refine ⟨sound.slots.trans_le slots, ?_, ?_, ⟨T, tree.sameWindows same⟩, ?_, spaces, spaceSlots,
    spaceHandles⟩
  · have desktop : some t.desktopWindow = some s.desktopWindow := same.deref tree.live_desktop
    rw [Option.some.inj desktop]
    exact sound.desktop
  · intro idx cell found
    by_cases running : cell.hwnd = nullHandle
    · exact .inl running
    · rw [base] at found
      exact sound.handles idx cell ((same _ cell running).mp found)
  · intro p cell found running
    exact sound.owners p cell ((same p cell running).mp found) running

/-- The same where the presentation spaces are as before, too. -/
theorem Sound.leftAlone (sound : Sound s) (left : LeftAlone s t) (base : t.windows = s.windows)
    (slots : s.windowsArray.length ≤ t.windowsArray.length) : Sound t := by
  refine sound.sameWindows left.windows base slots ?_ (left.presSpaces ▸ sound.spaceSlots) ?_
  · intro ps member used
    rw [left.presSpaces] at member
    obtain ⟨p, assigned, live⟩ := sound.spaces ps member used
    exact ⟨p, assigned, (left.windows.isLive p).mpr live⟩
  · rw [left.presSpaces]
    exact sound.spaceHandles

/-- The windows that a handle can name. -/
theorem getWindowFromHWND_eq_some (desktop : s.desktopWindow.hwnd = hwndDesktop)
    (handles : HandlesFit s) {hwnd : Nat} {p : WinPtr} :
    getWindowFromHWND s hwnd = some p ↔
      hwnd ≠ nullHandle ∧ ∃ cell, s.deref p = some cell ∧ cell.hwnd = hwnd := by
  constructor
  · intro named
    rw [getWindowFromHWND] at named
    split at named
    · rename_i high
      split at named
      · cases named
      · rename_i cell slot
        split at named
        · rename_i same
          cases named
          refine ⟨?_, cell, by simp [WindowBlock.deref, slot], same⟩
          simp only [firstHwndValue, nullHandle] at high ⊢
          omega
        · cases named
    · split at named
      · rename_i same
        cases named
        exact ⟨by rw [same]; decide, s.desktopWindow, rfl, desktop.trans same.symm⟩
      · cases named
  · rintro ⟨positive, cell, found, same⟩
    cases p with
    | desktop =>
      cases found
      rw [desktop] at same
      subst same
      rfl
    | element windows idx =>
      -- The handle of a slot is that of its index.
      obtain ⟨rfl, slot⟩ : windows = s.windows ∧ s.windowsArray[idx]? = some cell := by
        simpa [WindowBlock.deref] using found
      have fits := (handles idx cell found).resolve_left (same ▸ positive)
      have index : hwnd - firstHwndValue = idx := by omega
      rw [getWindowFromHWND, if_pos (by omega), index, slot]
      simp [same]

/-- A window is named by its own handle. -/
theorem Sound.named (sound : Sound s) {p : WinPtr} {cell : Window} (found : s.deref p = some cell)
    (running : cell.hwnd ≠ nullHandle) : getWindowFromHWND s cell.hwnd = some p :=
  (getWindowFromHWND_eq_some sound.desktop sound.handles).mpr ⟨running, cell, found, rfl⟩

/-- A handle names a window that is there. -/
theorem Sound.named_live (sound : Sound s) {hwnd : Nat} {p : WinPtr}
    (named : getWindowFromHWND s hwnd = some p) : IsLive s p := by
  obtain ⟨positive, cell, found, same⟩ :=
    (getWindowFromHWND_eq_some sound.desktop sound.handles).mp named
  exact ⟨cell, found, same ▸ positive⟩

/-- Two handles of one window are the same. -/
theorem Sound.named_unique (sound : Sound s) {hwnd other : Nat} {p : WinPtr}
    (named : getWindowFromHWND s hwnd = some p) (named' : getWindowFromHWND s other = some p) :
    hwnd = other := by
  obtain ⟨_, cell, found, same⟩ :=
    (getWindowFromHWND_eq_some sound.desktop sound.handles).mp named
  obtain ⟨_, cell', found', same'⟩ :=
    (getWindowFromHWND_eq_some sound.desktop sound.handles).mp named'
  cases found.symm.trans found'
  exact same.symm.trans same'

end Frames

section Slots

variable {s : WindowBlock}

/-- A slot of the array is free. -/
def HasFreeSlot (s : WindowBlock) : Prop := ∃ cell ∈ s.windowsArray, cell.hwnd = nullHandle

instance (s : WindowBlock) : Decidable (HasFreeSlot s) :=
  inferInstanceAs (Decidable (∃ cell ∈ s.windowsArray, cell.hwnd = nullHandle))

/-- The index of the slot that the next window takes. -/
def nextSlot (s : WindowBlock) : Nat :=
  (s.windowsArray.findIdx? (·.hwnd = nullHandle)).getD s.windowsArray.length

/-- Without a free slot, the search for one finds nothing. -/
theorem findIdx?_eq_none_iff_full : s.windowsArray.findIdx? (·.hwnd = nullHandle) = none ↔
    ¬ HasFreeSlot s := by
  simp [HasFreeSlot, List.findIdx?_eq_none_iff]

/-- The array with as many free slots again behind it. -/
def grown (s : WindowBlock) : WindowBlock :=
  { s with windowsArray := s.windowsArray ++ List.replicate s.windowsArray.length {} }

/-- Making the array longer where it is leaves the windows alone. -/
theorem grown_leftAlone (s : WindowBlock) : LeftAlone s (grown s) := by
  refine ⟨fun p cell running => ?_, rfl⟩
  cases p with
  | desktop => rfl
  | element windows idx =>
    by_cases current : windows = s.windows
    · subst current
      simp only [WindowBlock.deref, grown, if_true]
      rcases Nat.lt_or_ge idx s.windowsArray.length with inside | beyond
      · rw [List.getElem?_append_left inside]
      · -- Behind the old end, there are free slots only.
        rw [List.getElem?_append_right beyond, List.getElem?_eq_none beyond,
          List.getElem?_replicate]
        constructor
        · intro found
          split at found
          · cases found
            exact absurd rfl running
          · cases found
        · intro found
          cases found
    · simp [WindowBlock.deref, grown, current]

/-- A slot that was taken without moving the array is free, and the windows are left alone. -/
theorem takeSlot_spec (sound : Sound s) {realloc : ReallocAnswer}
    (room : HasFreeSlot s ∨ realloc = .stays) :
    ∃ t free, takeSlot realloc s = some (t, nextSlot s) ∧ LeftAlone s t ∧ Sound t ∧
      t.deref (.element t.windows (nextSlot s)) = some free ∧ free.hwnd = nullHandle := by
  cases searched : s.windowsArray.findIdx? (·.hwnd = nullHandle) with
  | some i =>
    obtain ⟨inside, free, _⟩ := List.findIdx?_eq_some_iff_getElem.mp searched
    refine ⟨s, s.windowsArray[i], ?_, ⟨.of_cells fun _ => rfl, rfl⟩, sound, ?_, ?_⟩
    · simp [takeSlot, nextSlot, searched]
    · simp [WindowBlock.deref, nextSlot, searched, inside]
    · simpa using free
  | none =>
    have stays := room.resolve_left (findIdx?_eq_none_iff_full.mp searched)
    have left := grown_leftAlone s
    refine ⟨grown s, {}, ?_, left, ?_, ?_, rfl⟩
    · simp [takeSlot, nextSlot, searched, stays, grown]
    · exact sound.leftAlone left rfl (by simp [grown])
    · have room := sound.slots
      simp [WindowBlock.deref, nextSlot, searched, grown, room]

end Slots

section Making

variable {s : WindowBlock} {parent : WinPtr} (call : CreateCall) (answers : CreateAnswers)
  (winclass : WindowClass) (owner : Option WinPtr) (hwnd : Nat)

/-- Everything that a new window is made of is to be had. -/
def CreateAnswers.Supply (answers : CreateAnswers) (call : CreateCall) (winclass : WindowClass) :
    Prop :=
  (call.pszName.isSome → answers.strdup = true) ∧ (0 < winclass.dataLen → answers.malloc.isSome) ∧
    (call.hwndParent = hwndDesktop →
      answers.sdlWindow.isSome ∧ answers.sdlRenderer.isSome ∧ answers.sdlTexture.isSome)

instance : Decidable (answers.Supply call winclass) :=
  inferInstanceAs (Decidable ((_ → _) ∧ (_ → _) ∧ (_ → _)))

/-- What a window is made with. -/
structure MadeWith (new : Window) (parent : WinPtr) (owner : Option WinPtr) (hwnd : Nat) :
    Prop where
  parent : new.parent = some parent
  owner : new.owner = owner
  hwnd : new.hwnd = hwnd
  children : new.children = none
  sibling : new.sibling = none

/-- Where everything is to be had, the window is made; else there is an error. -/
theorem makeWindow_spec (found : (s.deref parent).isSome) :
    (answers.Supply call winclass ∧ ∃ new,
      makeWindow call answers winclass parent owner hwnd s = some (.ok new) ∧
        MadeWith new parent owner hwnd) ∨
    (¬ answers.Supply call winclass ∧ ∃ err,
      makeWindow call answers winclass parent owner hwnd s = some (.error err)) := by
  obtain ⟨cell, found⟩ := Option.isSome_iff_exists.mp found
  rw [makeWindow]
  by_cases text : call.pszName.isSome ∧ answers.strdup = false
  · right
    rw [if_pos text]
    exact ⟨fun supply => by simpa [text.2] using supply.1 text.1, _, rfl⟩
  · rw [if_neg text]
    by_cases data : 0 < winclass.dataLen ∧ answers.malloc = none
    · right
      rw [if_pos data]
      exact ⟨fun supply => by simpa [data.2] using supply.2.1 data.1, _, rfl⟩
    · rw [if_neg data]
      have supplied : (call.pszName.isSome → answers.strdup = true) ∧
          (0 < winclass.dataLen → answers.malloc.isSome) := by
        refine ⟨fun named => ?_, fun sized => ?_⟩
        · simpa [named] using text
        · simpa [sized, ← Option.isSome_iff_ne_none] using data
      rw [createHeavy]
      by_cases top : call.hwndParent = hwndDesktop
      · -- Three things are asked of the host.
        rw [if_pos top]
        cases shown : answers.sdlWindow with
        | none => exact .inr ⟨fun supply => by simpa [shown] using (supply.2.2 top).1, _, rfl⟩
        | some window =>
          cases drawn : answers.sdlRenderer with
          | none => exact .inr ⟨fun supply => by simpa [drawn] using (supply.2.2 top).2.1, _, rfl⟩
          | some renderer =>
            cases filled : answers.sdlTexture with
            | none =>
              exact .inr ⟨fun supply => by simpa [filled] using (supply.2.2 top).2.2, _, rfl⟩
            | some texture =>
              refine .inl ⟨⟨supplied.1, supplied.2, fun _ => ?_⟩, _, rfl, ⟨rfl, rfl, rfl, rfl, rfl⟩⟩
              simp [shown, drawn, filled]
      · rw [if_neg top, found]
        exact .inl ⟨⟨supplied.1, supplied.2, fun again => absurd again top⟩, _, rfl,
          ⟨rfl, rfl, rfl, rfl, rfl⟩⟩

end Making

section Entering

variable {s : WindowBlock} {win q : WinPtr} {free new : Window} {owner : Option WinPtr}
  {answers : CreateAnswers} {hwnd : Nat} (call : CreateCall)

/-- Where a window goes can be found out, and it is behind a window of the same parent if any. -/
theorem zOrder_spec (desktop : s.desktopWindow.hwnd = hwndDesktop) (handles : HandlesFit s)
    (hwndInsertBehind : Nat) :
    ∃ place, zOrder q hwndInsertBehind s = some place ∧ ∀ b, place = .behind b →
      hwndInsertBehind ≠ nullHandle ∧
      ∃ cell, s.deref b = some cell ∧ cell.parent = some q ∧ cell.hwnd = hwndInsertBehind := by
  rw [zOrder]
  split
  · exact ⟨.top, rfl, fun b same => by cases same⟩
  · split
    · exact ⟨.bottom, rfl, fun b same => by cases same⟩
    · cases named : getWindowFromHWND s hwndInsertBehind with
      | none => exact ⟨.bottom, rfl, fun b same => by cases same⟩
      | some b =>
        obtain ⟨positive, cell, found, same⟩ := (getWindowFromHWND_eq_some desktop handles).mp named
        simp only [found, Option.map_some, Option.some.injEq]
        refine ⟨_, rfl, fun c behind => ?_⟩
        split at behind
        · cases behind
        · rename_i sibling
          cases behind
          exact ⟨positive, cell, found, not_not.mp sibling, same⟩

/-- Storing a new window in a free slot changes that slot alone. -/
theorem store_new (new : Window) (found : s.deref win = some free) :
    ∃ t, (s.modify win fun _ => new) = some t ∧ SameBlock s t ∧
      ∀ b, t.deref b = if b = win then some new else s.deref b :=
  modify_spec found fun _ => new

/-- A window whose procedure refuses it is cleared again, and no other one is concerned. -/
theorem enterWindow_cancelled (sound : Sound s) (found : s.deref win = some free)
    (unused : free.hwnd = nullHandle) (live_q : IsLive s q) (made : MadeWith new q owner hwnd)
    (positive : hwnd ≠ nullHandle) (cancels : answers.cancels = true) :
    ∃ t, (s.modify win fun _ => new).bind (enterWindow call answers win q new) =
      some (t, nullHandle) ∧ LeftAlone s t ∧ Sound t := by
  obtain ⟨T, tree⟩ := sound.tree
  have fresh : ¬ IsLive s win := by
    rw [isLive_iff found]
    simp [unused]
  have q_win : q ≠ win := fun same => fresh (same ▸ live_q)
  obtain ⟨parent, kids, found_q, _, chain, members⟩ := tree.childList live_q
  have absent : win ∉ kids.roots := fun inside => fresh ((members win).mp inside).1
  obtain ⟨t, stored, same, read⟩ := store_new new found
  have found_t : t.deref win = some new := by rw [read, if_pos rfl]
  have parent_t : t.deref q = some parent := by rw [read, if_neg q_win, found_q]
  have chain_t : Chain (siblingOf t) parent.children kids.roots := by
    refine Seg.frame chain fun b inside => ?_
    have b_win : b ≠ win := fun again => absent (again ▸ inside)
    rw [siblingOf, siblingOf, read, if_neg b_win]
  have starts : parent.children ≠ some win := by
    rw [Chain.head chain]
    exact fun first => absent (List.mem_of_head? first)
  -- The loop for the sibling in front of it finds none.
  have short : kids.roots.length < t.windowsArray.length + 1 := by
    rw [same.slots]
    exact Nat.lt_succ_of_le (tree.kids_length chain fun p inside => (members p).mp inside)
  have walked := unlinkSibling_absent new.sibling chain_t absent short
  obtain ⟨u, cleared, same', read'⟩ := modify_spec found_t fun _ => {}
  have left : LeftAlone s u := by
    refine ⟨fun p cell running => ?_, (same.trans same').presSpaces⟩
    rw [read', read]
    by_cases at_win : p = win
    · -- The slot was free before and is free again.
      subst at_win
      rw [if_pos rfl, found]
      constructor
      · intro here
        cases here
        exact absurd rfl running
      · intro here
        cases here
        exact absurd unused running
    · rw [if_neg at_win, if_neg at_win]
  refine ⟨u, ?_, left, sound.leftAlone left (same.trans same').windows
    (same.trans same').slots.ge⟩
  have steps : t.destroySteps = (2 * t.windowsArray.length + 2) + 1 + 1 := by
    rw [WindowBlock.destroySteps]
    omega
  simp only [stored, Option.bind_some, enterWindow, cancels, if_true, steps, destroyWindow, found_t,
    made.hwnd, if_neg positive, made.children, destroyChildren, unlinkWindow, made.parent, parent_t,
    if_neg starts, walked, cleared, Option.map_some]

/-- A window that was linked into the children of its parent, in a block that is sound again. -/
structure WindowEntered (s t : WindowBlock) (win q : WinPtr) (owner : Option WinPtr) (hwnd : Nat)
    (new : Window) (front rest : List WinPtr) : Prop where
  sound : Sound t
  same : SameBlock s t
  made : MadeWith { new with sibling := none } q owner hwnd
  before : ChildList s q (front ++ rest)
  after : ChildList t q (front ++ win :: rest)
  cells : LinkedCells s t win q new front rest

/-- After linking, a window is there if it was before or is the new one. -/
theorem LinkedCells.live_iff {t : WindowBlock} {front rest : List WinPtr}
    (cells : LinkedCells s t win q new front rest) (running : new.hwnd ≠ nullHandle) (b : WinPtr) :
    IsLive t b ↔ b = win ∨ IsLive s b := by
  by_cases at_win : b = win
  · subst at_win
    have found : t.deref b = some { new with sibling := rest.head? } := by rw [cells, if_pos rfl]
    simp [isLive_iff found, running]
  · simp only [IsLive, cells b, at_win, false_or]
    cases s.deref b <;> simp

/-- A block is sound after a window was linked whose owner is its parent or nobody. -/
theorem Sound.linked {t : WindowBlock} {idx : Nat} {front rest : List WinPtr} (sound : Sound s)
    (same : SameBlock s t) (cells : LinkedCells s t (.element s.windows idx) q new front rest)
    (made : MadeWith { new with sibling := none } q owner (idx + firstHwndValue))
    (owned : owner = none ∨ owner = some q) (tree : ∃ T, TreeOf t T) : Sound t := by
  have running : new.hwnd ≠ nullHandle := by
    have fits : new.hwnd = idx + firstHwndValue := made.hwnd
    simp only [fits, firstHwndValue, nullHandle]
    omega
  have live := cells.live_iff running
  refine ⟨same.slots ▸ sound.slots, ?_, ?_, tree, ?_, ?_, same.presSpaces ▸ sound.spaceSlots, ?_⟩
  · have read : t.deref .desktop = some t.desktopWindow := rfl
    rw [cells, if_neg (by simp), show s.deref .desktop = some s.desktopWindow from rfl] at read
    rw [← Option.some.inj read]
    exact sound.desktop
  · intro i cell found
    rw [same.windows, cells] at found
    split at found
    · rename_i here
      cases here
      cases found
      exact .inr made.hwnd
    · obtain ⟨old, found_old, rfl⟩ := Option.map_eq_some_iff.mp found
      exact sound.handles i old found_old
  · intro p cell found running'
    rw [cells] at found
    split at found
    · cases found
      have above : new.parent = some q := made.parent
      have owns : new.owner = owner := made.owner
      rw [above, owns]
      exact owned
    · obtain ⟨old, found_old, rfl⟩ := Option.map_eq_some_iff.mp found
      exact sound.owners p old found_old running'
  · intro ps member used
    rw [same.presSpaces] at member
    obtain ⟨p, assigned, live_p⟩ := sound.spaces ps member used
    exact ⟨p, assigned, (live p).mpr (.inr live_p)⟩
  · rw [same.presSpaces]
    exact sound.spaceHandles

/-- The state in which a new window looks for its place among its siblings. -/
structure Stored (s t : WindowBlock) (win q : WinPtr) (owner : Option WinPtr) (hwnd : Nat)
    (new : Window) : Prop where
  same : SameBlock s t
  made : MadeWith new q owner hwnd
  cells : ∀ b, t.deref b = if b = win then some new else s.deref b
  desktop : t.desktopWindow.hwnd = hwndDesktop
  handles : HandlesFit t

/-- A window that is not refused is stored and moved before it gets its place. -/
theorem enterWindow_stored {idx : Nat} (sound : Sound s)
    (found : s.deref (.element s.windows idx) = some free)
    (made : MadeWith new q owner (idx + firstHwndValue)) (stays : answers.cancels = false) :
    ∃ t moved, Stored s t (.element s.windows idx) q owner (idx + firstHwndValue) moved ∧
      (s.modify (.element s.windows idx) fun _ => new).bind
        (enterWindow call answers (.element s.windows idx) q new) =
      (zOrder q (answers.adjust (call.swp (idx + firstHwndValue))).hwndInsertBehind t).bind
        fun place => (linkWindow (.element s.windows idx) q place t).map
          fun t => (t, idx + firstHwndValue) := by
  obtain ⟨t, stored, same, read⟩ := store_new new found
  have found_t : t.deref (.element s.windows idx) = some new := by rw [read, if_pos rfl]
  let swp := answers.adjust (call.swp (idx + firstHwndValue))
  obtain ⟨u, adjusted, same', read'⟩ :=
    modify_spec found_t fun new => { new with x := swp.x, y := swp.y, w := swp.cx, h := swp.cy }
  let moved : Window := { new with x := swp.x, y := swp.y, w := swp.cx, h := swp.cy }
  have cells : ∀ b, u.deref b = if b = .element s.windows idx then some moved else s.deref b := by
    intro b
    rw [read', read]
    split <;> rfl
  refine ⟨u, moved, ⟨same.trans same', ⟨made.parent, made.owner, made.hwnd, made.children,
    made.sibling⟩, cells, ?_, ?_⟩, ?_⟩
  · have read : u.deref .desktop = some u.desktopWindow := rfl
    rw [cells, if_neg (by simp)] at read
    rw [← Option.some.inj read]
    exact sound.desktop
  · intro i cell here
    rw [(same.trans same').windows, cells] at here
    split at here
    · rename_i at_win
      cases at_win
      cases here
      exact .inr made.hwnd
    · exact sound.handles i cell here
  · simp only [stored, Option.bind_some, enterWindow, stays, Bool.false_eq_true, if_false, made.hwnd]
    rw [adjusted, Option.bind_some]

/--
A window that is not refused gets its place among its siblings.

Its own handle is no place for it, unless there are no siblings.
-/
theorem enterWindow_spec {idx : Nat} (sound : Sound s)
    (found : s.deref (.element s.windows idx) = some free) (unused : free.hwnd = nullHandle)
    (live_q : IsLive s q) (made : MadeWith new q owner (idx + firstHwndValue))
    (stays : answers.cancels = false) (owned : owner = none ∨ owner = some q)
    (placed : (s.deref q).bind Window.children = none ∨
      (answers.adjust (call.swp (idx + firstHwndValue))).hwndInsertBehind ≠ idx + firstHwndValue) :
    ∃ t new' front rest,
      (s.modify (.element s.windows idx) fun _ => new).bind
        (enterWindow call answers (.element s.windows idx) q new) =
          some (t, idx + firstHwndValue) ∧
      WindowEntered s t (.element s.windows idx) q owner (idx + firstHwndValue) new' front rest := by
  obtain ⟨T, tree⟩ := sound.tree
  have fresh : ¬ IsLive s (.element s.windows idx) := by
    rw [isLive_iff found]
    simp [unused]
  have q_win : q ≠ .element s.windows idx := fun same => fresh (same ▸ live_q)
  obtain ⟨parent, kids, found_q, down, chain, members⟩ := tree.childList live_q
  have absent : .element s.windows idx ∉ kids.roots := fun inside =>
    fresh ((members _).mp inside).1
  -- The window is stored, and its procedure has it moved.
  obtain ⟨u, moved, entering, computed⟩ :=
    enterWindow_stored call sound found made stays
  have cells_u := entering.cells
  have same_u := entering.same
  have found_u : u.deref (.element s.windows idx) = some moved := by rw [cells_u, if_pos rfl]
  have parent_u : u.deref q = some parent := by rw [cells_u, if_neg q_win, found_q]
  have chain_u : Chain (siblingOf u) parent.children kids.roots := by
    refine Seg.frame chain fun b inside => ?_
    have b_win : b ≠ .element s.windows idx := fun again => absent (again ▸ inside)
    rw [siblingOf, siblingOf, cells_u, if_neg b_win]
  obtain ⟨place, ordered, behind⟩ := zOrder_spec (q := q) entering.desktop entering.handles
    (answers.adjust (call.swp (idx + firstHwndValue))).hwndInsertBehind
  have among : ∀ b, place = .behind b → kids.roots ≠ [] → b ∈ kids.roots := by
    intro b here some
    obtain ⟨positive, cell, found_b, above, named⟩ := behind b here
    rw [cells_u] at found_b
    split at found_b
    · -- Behind itself is only asked for where the parent has no children.
      cases found_b
      rcases placed with none | other
      · rw [found_q, Option.bind_some, Chain.head chain] at none
        exact absurd (List.head?_eq_none_iff.mp none) some
      · exact absurd (named.symm.trans entering.made.hwnd) other
    · refine (members b).mpr ⟨⟨cell, found_b, named ▸ positive⟩, ?_⟩
      rw [parentOf_eq found_b, above]
  have short : kids.roots.length ≤ u.windowsArray.length := by
    rw [same_u.slots]
    exact tree.kids_length chain fun p inside => (members p).mp inside
  obtain ⟨v, front, rest, linked, same_v, split, _, cells_v⟩ :=
    linkWindow_spec found_u entering.made.sibling parent_u chain_u q_win absent short among
  have cells : LinkedCells s v (.element s.windows idx) q moved front rest := by
    intro b
    rw [cells_v, cells_u]
    split <;> rfl
  have running : moved.hwnd ≠ nullHandle := by
    have fits : moved.hwnd = idx + firstHwndValue := entering.made.hwnd
    simp only [fits, firstHwndValue, nullHandle]
    omega
  have made_v : MadeWith { moved with sibling := none } q owner (idx + firstHwndValue) :=
    ⟨entering.made.parent, entering.made.owner, entering.made.hwnd, entering.made.children, rfl⟩
  have tree_v := tree.linked fresh (by simp) running entering.made.children
    entering.made.parent found_q live_q down split members cells
  have chain_split : Chain (siblingOf s) parent.children (front ++ rest) := split ▸ chain
  refine ⟨v, moved, front, rest, ?_, ⟨sound.linked (same_u.trans same_v) cells made_v owned tree_v,
    same_u.trans same_v, made_v, ⟨parent, found_q, chain_split⟩,
    cells.chain found_q q_win chain_split (split ▸ absent), cells⟩⟩
  rw [computed, ordered, Option.bind_some, linked, Option.map_some]

end Entering

end TwoIne
