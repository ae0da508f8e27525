import TwoIne.Lib.Runs
import TwoIne.Proofs.PmWin.WindowCreation

/-!
The calls for windows keep the tree exactly as long as a window is owned by its parent or by nobody,
the array of windows stays where it is, no window is to go behind itself, and neither the desktop nor
a window that is painted in is destroyed.
-/

namespace TwoIne

open Chains Forests

/--
The condition on creating a window: a full array is not moved, and where the window is made and not
refused, it is owned by its parent or by nobody, and is not to go behind itself.
-/
def CreateCond (call : CreateCall) (answers : CreateAnswers) (s : WindowBlock) : Prop :=
  s.hmq ≠ nullHandle → ∀ winclass q, findRegisteredClass s call.pszClass = some winclass →
    getWindowFromHWND s call.hwndParent = some q →
      (HasFreeSlot s ∨ answers.realloc ≠ .moves) ∧
      (HasFreeSlot s ∨ answers.realloc ≠ .fails → answers.Supply call winclass →
        answers.cancels = false →
          (call.hwndOwner = nullHandle ∨ call.hwndOwner = call.hwndParent) ∧
          ((s.deref q).bind Window.children = none ∨
            (answers.adjust (call.swp (nextSlot s + firstHwndValue))).hwndInsertBehind ≠
              nextSlot s + firstHwndValue))

/-- The condition on destroying a window: it is not the desktop, and none of it is painted in. -/
def DestroyCond (hwnd : Nat) (s : WindowBlock) : Prop :=
  ∀ win, getWindowFromHWND s hwnd = some win → win ≠ .desktop ∧
    ∀ ps ∈ s.presSpaces, ps.hps ≠ nullHandle → ∀ p, ps.window = some p → ¬ Descends s p win

/-- The condition on a call; there is none on painting. -/
def WindowCond (s : WindowBlock) : WindowCall → Prop
  | .create call answers => CreateCond call answers s
  | .destroy hwnd => DestroyCond hwnd s
  | .beginPaint .. => True
  | .endPaint _ => True

/-- What a call is to do to the windows and to the presentation spaces. -/
def WindowSpec (s : WindowBlock) : WindowCall → WindowBlock → WindowAnswer → Prop
  | .create call _, t, .handle hwnd =>
    if hwnd = nullHandle then LeftAlone s t else Created call s t hwnd
  | .destroy hwnd, t, .done ok =>
    match getWindowFromHWND s hwnd with
    | none => ok = false ∧ LeftAlone s t
    | some win => ok = true ∧ Removed win s t
  | .beginPaint hwnd _ _, t, .painting hps _ =>
    SameWindows s t ∧
      if hps = nullHandle then t.presSpaces = s.presSpaces
      else ∃ win, getWindowFromHWND s hwnd = some win ∧ ∀ ps, ps.hps ≠ nullHandle →
        (ps ∈ t.presSpaces ↔ ps = ⟨hps, some win⟩ ∨ ps ∈ s.presSpaces ∧ ps.hps ≠ hps)
  | .endPaint hps, t, .done _ =>
    SameWindows s t ∧ ∀ ps, ps.hps ≠ nullHandle →
      (ps ∈ t.presSpaces ↔ ps ∈ s.presSpaces ∧ ps.hps ≠ hps)
  | _, _, _ => False

section Same

variable {s t : WindowBlock}

/-- Changing a window changes nothing but its contents. -/
theorem modify_same {p : WinPtr} {f : Window → Window} (done : s.modify p f = some t) :
    SameBlock s t := by
  obtain ⟨cell, _, rfl⟩ := Option.map_eq_some_iff.mp done
  exact sameBlock_store s p _

/-- What a change of a window does to the owners. -/
theorem modify_owner {p : WinPtr} {f : Window → Window} (done : s.modify p f = some t)
    (keeps : ∀ cell, (f cell).owner = cell.owner) (b : WinPtr) :
    (t.deref b).map Window.owner = (s.deref b).map Window.owner := by
  obtain ⟨cell, found, rfl⟩ := Option.map_eq_some_iff.mp done
  rw [deref_store found]
  split
  · rename_i here
    rw [here, found, Option.map_some, Option.map_some, keeps]
  · rfl

/-- Linking a window changes nothing but contents, and no owner. -/
theorem linkWindow_same {win q : WinPtr} {place : ZOrder}
    (done : linkWindow win q place s = some t) :
    SameBlock s t ∧ ∀ b, (t.deref b).map Window.owner = (s.deref b).map Window.owner := by
  rw [linkWindow] at done
  split at done
  · cases done
  · split at done
    · exact ⟨modify_same done, modify_owner done fun _ => rfl⟩
    · split at done
      · obtain ⟨u, first, second⟩ := Option.bind_eq_some_iff.mp done
        refine ⟨(modify_same first).trans (modify_same second), fun b => ?_⟩
        rw [modify_owner second fun _ => rfl, modify_owner first fun _ => rfl]
      · split at done
        · exact ⟨modify_same done, modify_owner done fun _ => rfl⟩
        · cases done
      · split at done
        · cases done
        · obtain ⟨u, first, second⟩ := Option.bind_eq_some_iff.mp done
          refine ⟨(modify_same first).trans (modify_same second), fun b => ?_⟩
          rw [modify_owner second fun _ => rfl, modify_owner first fun _ => rfl]

/-- Unlinking a window from its siblings changes nothing but contents. -/
theorem unlinkSibling_same {win : WinPtr} {next start : Option WinPtr} {steps : Nat}
    (done : unlinkSibling win next steps start s = some t) : SameBlock s t := by
  induction steps generalizing start with
  | zero => cases done
  | succ steps ih =>
    cases start with
    | none => cases done; exact .refl s
    | some i =>
      rw [unlinkSibling] at done
      split at done
      · cases done
      · split at done
        · cases done
        · split at done
          · exact modify_same done
          · exact ih done

/-- Taking a window out of its list and clearing it changes nothing but contents. -/
theorem unlinkWindow_same {win : WinPtr} (done : unlinkWindow win s = some t) : SameBlock s t := by
  rw [unlinkWindow] at done
  split at done
  · cases done
  · split at done
    · cases done
    · split at done
      · cases done
      · obtain ⟨u, first, second⟩ := Option.bind_eq_some_iff.mp done
        refine SameBlock.trans ?_ (modify_same second)
        split at first
        · exact modify_same first
        · exact unlinkSibling_same first

/-- Destroying windows changes nothing but contents, whatever state it is done in. -/
theorem destroyWindow_same (steps : Nat) :
    (∀ s t win, destroyWindow steps win s = some t → SameBlock s t) ∧
    (∀ s t start, destroyChildren steps start s = some t → SameBlock s t) := by
  -- Both functions call each other with a step less.
  induction steps with
  | zero =>
    constructor
    · intro s t win done
      cases done
    · intro s t start done
      cases done
  | succ steps ih =>
    refine ⟨fun s t win done => ?_, fun s t start done => ?_⟩
    · rw [destroyWindow] at done
      split at done
      · cases done
      · split at done
        · cases done
          exact .refl s
        · obtain ⟨u, first, second⟩ := Option.bind_eq_some_iff.mp done
          exact (ih.2 s u _ first).trans (unlinkWindow_same second)
    · cases start with
      | none => cases done; exact .refl s
      | some i =>
        rw [destroyChildren] at done
        split at done
        · cases done
        · obtain ⟨u, first, second⟩ := Option.bind_eq_some_iff.mp done
          exact (ih.1 s u _ first).trans (ih.2 u t _ second)

/-- Entering a window changes nothing but contents; the answer is its handle unless it is refused. -/
theorem enterWindow_same {call : CreateCall} {answers : CreateAnswers} {win q : WinPtr}
    {new : Window} {hwnd : Nat} (done : enterWindow call answers win q new s = some (t, hwnd)) :
    SameBlock s t ∧ (answers.cancels = false → hwnd = new.hwnd ∧
      ∀ b, (t.deref b).map Window.owner = (s.deref b).map Window.owner) := by
  rw [enterWindow] at done
  split at done
  · rename_i cancels
    obtain ⟨u, destroyed, same⟩ := Option.map_eq_some_iff.mp done
    cases same
    exact ⟨(destroyWindow_same _).1 _ _ _ destroyed, fun stays => by rw [stays] at cancels; cases cancels⟩
  · obtain ⟨u, moved, done⟩ := Option.bind_eq_some_iff.mp done
    obtain ⟨place, _, done⟩ := Option.bind_eq_some_iff.mp done
    obtain ⟨v, linked, same⟩ := Option.map_eq_some_iff.mp done
    cases same
    obtain ⟨same, owners⟩ := linkWindow_same linked
    refine ⟨(modify_same moved).trans same, fun _ => ⟨rfl, fun b => ?_⟩⟩
    rw [owners, modify_owner moved fun _ => rfl]

end Same

section Creating

variable {s t : WindowBlock} {call : CreateCall} {answers : CreateAnswers}

/-- Recording an error leaves the windows alone. -/
theorem leftAlone_error (s : WindowBlock) (err : Nat) : LeftAlone s { s with lastError := err } :=
  ⟨.of_cells fun p => by cases p <;> rfl, rfl⟩

/-- Recording an error keeps what the calls keep. -/
theorem Sound.error (sound : Sound s) (err : Nat) : Sound { s with lastError := err } :=
  sound.leftAlone (leftAlone_error s err) rfl le_rfl

/-- The call, where the parent and the class are known and there is a queue. -/
theorem winCreateWindow_known {winclass : WindowClass} {q : WinPtr} (queue : s.hmq ≠ nullHandle)
    (known : findRegisteredClass s call.pszClass = some winclass)
    (named : getWindowFromHWND s call.hwndParent = some q) :
    winCreateWindow call answers s = createKnown call answers winclass q
      (if call.hwndOwner = nullHandle then none else some q) s := by
  simp only [winCreateWindow, if_neg queue, known, named, Option.map_some]
  by_cases owned : call.hwndOwner = nullHandle <;> simp [owned]

/-- A call that comes to nothing before a slot is looked for only records an error. -/
theorem winCreateWindow_refused (answers : CreateAnswers) (refused : ¬ (s.hmq ≠ nullHandle ∧
      (findRegisteredClass s call.pszClass).isSome ∧
      (getWindowFromHWND s call.hwndParent).isSome)) :
    ∃ err, winCreateWindow call answers s = some ({ s with lastError := err }, nullHandle) := by
  rw [winCreateWindow]
  by_cases queue : s.hmq = nullHandle
  · exact ⟨_, by rw [if_pos queue]⟩
  · rw [if_neg queue]
    cases known : findRegisteredClass s call.pszClass with
    | none => exact ⟨_, rfl⟩
    | some winclass =>
      cases named : getWindowFromHWND s call.hwndParent with
      | none => exact ⟨_, rfl⟩
      | some q => exact absurd ⟨queue, by simp [known], by simp [named]⟩ refused

/-- What was created in a state where the windows are as before was created in that state. -/
theorem CreatedAs.of_leftAlone {u : WindowBlock} {hwnd : Nat} {win q : WinPtr} {new : Window}
    {front rest : List WinPtr} {T : Forest WinPtr} (tree : TreeOf s T) (left : LeftAlone s u)
    (created : CreatedAs call u t hwnd win q new front rest)
    (parent : getWindowFromHWND s call.hwndParent = some q)
    (owner : new.owner =
      if call.hwndOwner = nullHandle then none else getWindowFromHWND s call.hwndOwner)
    (live_q : IsLive s q) : CreatedAs call s t hwnd win q new front rest := by
  have same := left.windows
  refine ⟨created.named, fun live => created.fresh ((same.isLive win).mpr live),
    ⟨parent, created.parent.2⟩, owner, created.childless, ?_, created.after, created.placed,
    fun b live => ?_, fun b => ?_, created.presSpaces.trans left.presSpaces⟩
  · -- The siblings are there in both states.
    obtain ⟨cell, kids, found, _, chain, members⟩ := tree.childList live_q
    have chain_u : Chain (siblingOf u) cell.children kids.roots := by
      refine Seg.frame chain fun b inside => ?_
      rw [siblingOf, siblingOf, same.deref ((members b).mp inside).1]
    obtain ⟨cell', found', chain'⟩ := created.before
    rw [same.deref live_q] at found'
    cases found.symm.trans found'
    rw [Chain.unique chain' chain_u]
    exact ⟨cell, found, chain⟩
  · rw [created.others b ((same.isLive b).mpr live), same.deref live]
  · rw [created.live, same.isLive]

/-- A window that entered was created as the call asked for. -/
theorem WindowEntered.created {idx : Nat} {q : WinPtr} {owner : Option WinPtr} {new : Window}
    {front rest : List WinPtr} (fresh : ¬ IsLive s (.element s.windows idx))
    (entered : WindowEntered s t (.element s.windows idx) q owner (idx + firstHwndValue) new front
      rest)
    (parent : getWindowFromHWND s call.hwndParent = some q)
    (owned : owner =
      if call.hwndOwner = nullHandle then none else getWindowFromHWND s call.hwndOwner) :
    CreatedAs call s t (idx + firstHwndValue) (.element s.windows idx) q new front rest := by
  have fits : new.hwnd = idx + firstHwndValue := entered.made.hwnd
  have running : new.hwnd ≠ nullHandle := by
    simp only [fits, firstHwndValue, nullHandle]
    omega
  have placed : t.deref (.element s.windows idx) = some { new with sibling := rest.head? } := by
    rw [entered.cells, if_pos rfl]
  refine ⟨?_, fresh, ⟨parent, entered.made.parent⟩, ?_, entered.made.children, entered.before,
    entered.after, placed, fun b live => ?_, entered.cells.live_iff running,
    entered.same.presSpaces⟩
  · rw [← fits]
    have named := entered.sound.named placed running
    exact named
  · have owns : new.owner = owner := entered.made.owner
    rw [owns, owned]
  · have b_win : b ≠ .element s.windows idx := fun again => fresh (again ▸ live)
    rw [entered.cells, if_neg b_win]

/-- Creating a window does what it is to do where the condition is met. -/
theorem winCreateWindow_enough (sound : Sound s) (met : CreateCond call answers s) :
    ∃ t hwnd, winCreateWindow call answers s = some (t, hwnd) ∧
      (if hwnd = nullHandle then LeftAlone s t else Created call s t hwnd) ∧ Sound t := by
  by_cases going : s.hmq ≠ nullHandle ∧ (findRegisteredClass s call.pszClass).isSome ∧
      (getWindowFromHWND s call.hwndParent).isSome
  · obtain ⟨queue, known, named⟩ := going
    obtain ⟨winclass, known⟩ := Option.isSome_iff_exists.mp known
    obtain ⟨q, named⟩ := Option.isSome_iff_exists.mp named
    obtain ⟨stays, placed⟩ := met queue winclass q known named
    rw [winCreateWindow_known queue known named, createKnown]
    have live_q := sound.named_live named
    by_cases room : HasFreeSlot s ∨ answers.realloc = .stays
    · obtain ⟨u, free, taken, left, sound_u, found, unused⟩ := takeSlot_spec sound room
      have live_u := (left.windows.isLive q).mpr live_q
      have fresh : ¬ IsLive u (.element u.windows (nextSlot s)) := by
        rw [isLive_iff found]
        simp [unused]
      have supplied : HasFreeSlot s ∨ answers.realloc ≠ .fails :=
        room.imp_right fun here => by rw [here]; decide
      simp only [taken]
      have there : (u.deref q).isSome := by
        obtain ⟨cell, here, _⟩ := live_u
        simp [here]
      rcases makeWindow_spec call answers winclass
        (if call.hwndOwner = nullHandle then none else some q) (nextSlot s + firstHwndValue)
        there with ⟨supply, new, made, with_⟩ | ⟨_, err, failed⟩
      · simp only [made]
        have positive : nextSlot s + firstHwndValue ≠ nullHandle := by
          simp only [firstHwndValue, nullHandle]
          omega
        cases cancels : answers.cancels with
        | true =>
          obtain ⟨t, done, left', sound'⟩ := enterWindow_cancelled call sound_u found
            unused live_u with_ positive cancels
          exact ⟨t, nullHandle, done, by rw [if_pos rfl]; exact ⟨fun p cell running =>
            (left'.windows p cell running).trans (left.windows p cell running),
            left'.presSpaces.trans left.presSpaces⟩, sound'⟩
        | false =>
          obtain ⟨owned, alone⟩ := placed supplied supply cancels
          -- The handle of the owner names the parent, too.
          have owner_named : (if call.hwndOwner = nullHandle then none else some q) =
              if call.hwndOwner = nullHandle then none else getWindowFromHWND s call.hwndOwner := by
            rcases owned with none | same
            · rw [if_pos none, if_pos none]
            · rw [same, named]
          have same_q : u.deref q = s.deref q := left.windows.deref live_q
          obtain ⟨t, new', front, rest, done, entered⟩ := enterWindow_spec call sound_u found
            unused live_u with_ cancels (by split <;> simp) (same_q ▸ alone)
          refine ⟨t, _, done, ?_, entered.sound⟩
          rw [if_neg positive]
          obtain ⟨T, tree⟩ := sound.tree
          have named_u : getWindowFromHWND u call.hwndParent = some q := by
            obtain ⟨cell, here, running⟩ := live_q
            have own := sound.named_unique (sound.named here running) named
            rw [← own]
            exact sound_u.named ((left.windows q cell running).mpr here) running
          have owner_u : (if call.hwndOwner = nullHandle then none else some q) =
              if call.hwndOwner = nullHandle then none
              else getWindowFromHWND u call.hwndOwner := by
            rcases owned with none | same
            · rw [if_pos none, if_pos none]
            · rw [same, named_u]
          have created := entered.created fresh named_u owner_u
          have owns : new'.owner = if call.hwndOwner = nullHandle then none else some q :=
            entered.made.owner
          exact ⟨_, _, _, _, _, created.of_leftAlone tree left named (owns.trans owner_named) live_q⟩
      · simp only [failed]
        refine ⟨_, _, rfl, ?_, sound_u.error err⟩
        rw [if_pos rfl]
        exact ⟨fun p cell running => ((leftAlone_error u err).windows p cell running).trans
          (left.windows p cell running), left.presSpaces⟩
    · -- A full array is not moved, so there is no memory for a longer one.
      obtain ⟨full, other⟩ := not_or.mp room
      have fails : answers.realloc = .fails := by
        have apart := stays.resolve_left full
        cases here : answers.realloc <;> simp_all
      have taken : takeSlot answers.realloc s = none := by
        simp [takeSlot, findIdx?_eq_none_iff_full.mpr full, fails]
      simp only [taken]
      exact ⟨_, _, rfl, by rw [if_pos rfl]; exact leftAlone_error s _, sound.error _⟩
  · obtain ⟨err, refused⟩ := winCreateWindow_refused answers going
    exact ⟨_, _, refused, by rw [if_pos rfl]; exact leftAlone_error s err, sound.error err⟩

/-- The windows of a full array are not where they were after the array moved. -/
theorem not_spec_of_moved {hwnd : Nat} (sound : Sound s) (full : ¬ HasFreeSlot s)
    (moved : t.windows ≠ s.windows)
    (spec : if hwnd = nullHandle then LeftAlone s t else Created call s t hwnd) : False := by
  -- The first element of the array is a window.
  obtain ⟨first, here⟩ : ∃ cell, s.deref (.element s.windows 0) = some cell := by
    have inside := sound.slots
    exact ⟨s.windowsArray[0], by simp [WindowBlock.deref, inside]⟩
  have running : first.hwnd ≠ nullHandle := by
    intro free
    have slot : s.windowsArray[0]? = some first := by simpa [WindowBlock.deref] using here
    exact full ⟨first, List.mem_of_getElem? slot, free⟩
  have gone : t.deref (.element s.windows 0) = none := by
    simp [WindowBlock.deref, Ne.symm moved]
  split at spec
  · have kept := (spec.windows _ first running).mpr here
    rw [gone] at kept
    cases kept
  · obtain ⟨win, q, new, front, rest, created⟩ := spec
    have kept := created.others _ ⟨first, here, running⟩
    rw [gone, here] at kept
    cases kept

/-- A call that moves a full array does not do what it is to do. -/
theorem createKnown_moved {winclass : WindowClass} {q : WinPtr} {owner : Option WinPtr} {hwnd : Nat}
    (full : ¬ HasFreeSlot s) (moves : answers.realloc = .moves)
    (done : createKnown call answers winclass q owner s = some (t, hwnd)) :
    t.windows ≠ s.windows := by
  have taken : ∃ u, takeSlot answers.realloc s = some (u, s.windowsArray.length) ∧
      u.windows = s.windows + 1 := by
    simp [takeSlot, findIdx?_eq_none_iff_full.mpr full, moves]
  obtain ⟨u, taken, base⟩ := taken
  simp only [createKnown, taken] at done
  split at done
  · cases done
  · cases done
    simp [base]
  · obtain ⟨v, stored, entered⟩ := Option.bind_eq_some_iff.mp done
    rw [(enterWindow_same entered).1.windows, (modify_same stored).windows, base]
    omega

/-- A window cannot be behind itself in the list of its siblings. -/
theorem WindowTree.sibling_ne (tree : WindowTree s) {win q : WinPtr} (live : IsLive s win)
    (live_q : IsLive s q) (above : parentOf s win = some q) :
    siblingOf s win ≠ some (some win) := by
  intro itself
  obtain ⟨kids, ⟨_, _, chain⟩, distinct, members⟩ := tree.listed q live_q
  obtain ⟨front, rest, rfl⟩ := List.append_of_mem ((members win).mpr ⟨live, above⟩)
  have follows := Chain.next chain
  rw [itself] at follows
  have again : win ∈ rest := List.mem_of_head? (Option.some.inj follows).symm
  exact (List.nodup_cons.mp (List.nodup_append.mp distinct).2.1).1 again

/-- A window that is to go behind itself breaks the tree, unless it is the only child. -/
theorem enterWindow_behind_itself {idx : Nat} {q : WinPtr} {free new : Window}
    {owner : Option WinPtr} {hwnd : Nat} (sound : Sound s)
    (found : s.deref (.element s.windows idx) = some free) (unused : free.hwnd = nullHandle)
    (live_q : IsLive s q) (made : MadeWith new q owner (idx + firstHwndValue))
    (stays : answers.cancels = false) (siblings : (s.deref q).bind Window.children ≠ none)
    (itself : (answers.adjust (call.swp (idx + firstHwndValue))).hwndInsertBehind =
      idx + firstHwndValue)
    (done : (s.modify (.element s.windows idx) fun _ => new).bind
      (enterWindow call answers (.element s.windows idx) q new) = some (t, hwnd)) :
    ¬ WindowTree t := by
  intro tree
  have fresh : ¬ IsLive s (.element s.windows idx) := by
    rw [isLive_iff found]
    simp [unused]
  have q_win : q ≠ .element s.windows idx := fun same => fresh (same ▸ live_q)
  obtain ⟨u, moved, entering, computed⟩ :=
    enterWindow_stored call sound found made stays
  have running : moved.hwnd ≠ nullHandle := by
    rw [entering.made.hwnd]
    simp only [firstHwndValue, nullHandle]
    omega
  have found_u : u.deref (.element s.windows idx) = some moved := by
    rw [entering.cells, if_pos rfl]
  obtain ⟨parent, found_q, running_q⟩ := live_q
  have parent_u : u.deref q = some parent := by rw [entering.cells, if_neg q_win, found_q]
  have starts : parent.children ≠ none := by simpa [found_q] using siblings
  -- The handle names the window itself, which is a child of the parent.
  have named : getWindowFromHWND u (idx + firstHwndValue) = some (.element s.windows idx) :=
    (getWindowFromHWND_eq_some entering.desktop entering.handles).mpr
      ⟨entering.made.hwnd ▸ running, moved, found_u, entering.made.hwnd⟩
  have ordered : zOrder q (idx + firstHwndValue) u = some (.behind (.element s.windows idx)) := by
    have high : idx + firstHwndValue ≠ hwndTop ∧ idx + firstHwndValue ≠ hwndBottom := by
      simp only [firstHwndValue, hwndTop, hwndBottom]
      omega
    simp [zOrder, high.1, high.2, named, found_u, entering.made.parent]
  rw [computed, itself, ordered] at done
  obtain ⟨v, linked, same⟩ := Option.map_eq_some_iff.mp done
  cases same
  -- So it becomes its own sibling.
  obtain ⟨w, first, same_w, read⟩ := modify_spec found_u fun new =>
    { new with sibling := moved.sibling }
  obtain ⟨x, second, same_x, read'⟩ :=
    modify_spec (p := .element s.windows idx) (by rw [read, if_pos rfl])
      fun before => { before with sibling := some (.element s.windows idx) }
  have same : x = t := by
    simpa [linkWindow, parent_u, starts, found_u, first, second] using linked
  subst same
  have found_x : x.deref (.element s.windows idx) =
      some { moved with sibling := some (.element s.windows idx) } := by rw [read', if_pos rfl]
  have live_q : IsLive x q := ⟨parent, by
    rw [read', if_neg q_win, read, if_neg q_win, parent_u], running_q⟩
  refine tree.sibling_ne ⟨_, found_x, running⟩ live_q ?_ ?_
  · rw [parentOf_eq found_x]
    exact entering.made.parent
  · rw [siblingOf_eq found_x]

/-- Creating a window that does what it is to do met the condition. -/
theorem winCreateWindow_needed {hwnd : Nat} (sound : Sound s)
    (done : winCreateWindow call answers s = some (t, hwnd))
    (spec : if hwnd = nullHandle then LeftAlone s t else Created call s t hwnd)
    (tree : WindowTree t) : CreateCond call answers s := by
  intro queue winclass q known named
  rw [winCreateWindow_known queue known named] at done
  have live_q := sound.named_live named
  -- A full array was not moved.
  have stays : HasFreeSlot s ∨ answers.realloc ≠ .moves := by
    by_contra moved
    obtain ⟨full, moves⟩ := not_or.mp moved
    exact not_spec_of_moved sound full (createKnown_moved full (not_not.mp moves) done) spec
  refine ⟨stays, fun supplied supply running => ?_⟩
  have room : HasFreeSlot s ∨ answers.realloc = .stays := by
    rcases supplied with free | some
    · exact .inl free
    · refine stays.imp_right fun other => ?_
      cases here : answers.realloc <;> simp_all
  obtain ⟨u, free, taken, left, sound_u, found, unused⟩ := takeSlot_spec sound room
  have live_u := (left.windows.isLive q).mpr live_q
  have there : (u.deref q).isSome := by
    obtain ⟨cell, here, _⟩ := live_u
    simp [here]
  rcases makeWindow_spec call answers winclass
    (if call.hwndOwner = nullHandle then none else some q) (nextSlot s + firstHwndValue)
    there with ⟨_, new, made, with_⟩ | ⟨no_supply, _⟩
  · simp only [createKnown, taken, made] at done
    have same_q : u.deref q = s.deref q := left.windows.deref live_q
    refine ⟨?_, ?_⟩
    · -- The owner of the new window is the parent, so that is what was asked for.
      by_contra other
      obtain ⟨owned, other⟩ := not_or.mp other
      obtain ⟨v, stored, entered⟩ := Option.bind_eq_some_iff.mp done
      obtain ⟨same_v, kept⟩ := enterWindow_same entered
      obtain ⟨answer, owners⟩ := kept running
      rw [with_.hwnd] at answer
      have positive : hwnd ≠ nullHandle := by
        simp only [answer, firstHwndValue, nullHandle]
        omega
      rw [if_neg positive] at spec
      obtain ⟨win, q', new', front, rest, created⟩ := spec
      have base : t.windows = u.windows := same_v.windows.trans (modify_same stored).windows
      have at_win : win = .element u.windows (nextSlot s) := by
        obtain ⟨_, cell, found_t, same⟩ :=
          (getWindowFromHWND_eq_some tree.desktop.1 tree.handles).mp created.named
        cases win with
        | desktop =>
          cases found_t
          rw [tree.desktop.1, answer] at same
          simp only [hwndDesktop, firstHwndValue] at same
          omega
        | element windows idx =>
          obtain ⟨rfl, _⟩ : windows = t.windows ∧ t.windowsArray[idx]? = some cell := by
            simpa [WindowBlock.deref] using found_t
          have fits := (tree.handles idx cell found_t).resolve_left (same ▸ positive)
          rw [same, answer] at fits
          rw [base, show idx = nextSlot s by omega]
      have owns := owners win
      obtain ⟨w, stored', _, read⟩ := store_new new found
      cases stored.symm.trans stored'
      rw [created.placed, at_win, read, if_pos rfl, Option.map_some, Option.map_some] at owns
      have owns : new'.owner = new.owner := Option.some.inj owns
      rw [with_.owner, if_neg owned, created.owner, if_neg owned] at owns
      exact other (sound.named_unique owns named)
    · by_contra placed
      obtain ⟨siblings, itself⟩ := not_or.mp placed
      exact enterWindow_behind_itself sound_u found unused live_u with_ running
        (same_q ▸ siblings) (not_not.mp itself) done tree
  · exact absurd supply no_supply

end Creating

section Destroying

variable {s t : WindowBlock} {win : WinPtr} {hwnd : Nat}

/-- Destroying a window below the desktop keeps what the calls keep, unless it is painted in. -/
theorem Sound.destroyed {T : Forest WinPtr} (sound : Sound s) (same : SameBlock s t)
    (kept : CellsKept s t) (tree : TreeOf t T) (removed : Removed win s t)
    (unused : ∀ ps ∈ s.presSpaces, ps.hps ≠ nullHandle → ∀ p, ps.window = some p →
      ¬ Descends s p win) : Sound t := by
  refine ⟨same.slots ▸ sound.slots, ?_, ?_, ⟨T, tree⟩, ?_, ?_,
    same.presSpaces ▸ sound.spaceSlots, ?_⟩
  · obtain ⟨cell, found, running⟩ := tree.live_desktop
    obtain ⟨old, found_old, hwnd, _⟩ := kept _ cell found running
    cases found
    cases found_old
    rw [hwnd]
    exact sound.desktop
  · intro idx cell found
    by_cases free : cell.hwnd = nullHandle
    · exact .inl free
    · obtain ⟨old, found_old, hwnd, _⟩ := kept _ cell found free
      rw [same.windows] at found_old
      rw [hwnd]
      exact sound.handles idx old found_old
  · intro p cell found running
    obtain ⟨old, found_old, hwnd, above, owns⟩ := kept p cell found running
    rw [above, owns]
    exact sound.owners p old found_old (hwnd ▸ running)
  · intro ps member used
    rw [same.presSpaces] at member
    obtain ⟨p, assigned, live⟩ := sound.spaces ps member used
    exact ⟨p, assigned, (removed.live p).mpr ⟨live, unused ps member used p assigned⟩⟩
  · rw [same.presSpaces]
    exact sound.spaceHandles

/-- Destroying the desktop follows its parent pointer, which leads nowhere. -/
theorem destroyWindow_desktop (sound : Sound s) :
    destroyWindow s.destroySteps .desktop s = none := by
  obtain ⟨T, tree⟩ := sound.tree
  have member := (tree.live .desktop).mpr tree.live_desktop
  have found : s.deref .desktop = some s.desktopWindow := rfl
  obtain ⟨t, destroyed, _, read⟩ := tree.destroyChildren found member
  have desktop : t.deref .desktop = some { s.desktopWindow with children := none } := by
    rw [read, if_neg (Forest.notMem_under tree.distinct member).1, if_pos rfl]
  have running : s.desktopWindow.hwnd ≠ nullHandle := by
    rw [sound.desktop]
    decide
  have steps : s.destroySteps = (2 * s.windowsArray.length + 3) + 1 := by
    rw [WindowBlock.destroySteps]
    omega
  rw [steps, destroyWindow, found]
  simp only [if_neg running, destroyed, Option.bind_some]
  rw [unlinkWindow, desktop]
  simp [tree.desktop_parent]

/-- Destroying a window does what it is to do exactly where the condition is met. -/
theorem winDestroyWindow_exact (sound : Sound s) (hwnd : Nat) :
    (∃ t out, windowStep s (.destroy hwnd) = some (t, out) ∧ WindowSpec s (.destroy hwnd) t out ∧
      WindowTree t) ↔ DestroyCond hwnd s := by
  cases named : getWindowFromHWND s hwnd with
  | none =>
    -- Without a window there is only an error to record.
    refine iff_of_true ?_ fun win here => by rw [named] at here; cases here
    refine ⟨{ s with lastError := pmerrInvalidHwnd }, .done false,
      by simp [windowStep, winDestroyWindow, named], ?_, (sound.error pmerrInvalidHwnd).windowTree⟩
    simp only [WindowSpec, named, true_and]
    exact leftAlone_error s _
  | some win =>
    by_cases top : win = .desktop
    · subst top
      constructor
      · rintro ⟨t, out, stepped, _, _⟩
        simp [windowStep, winDestroyWindow, named, destroyWindow_desktop sound] at stepped
      · intro met
        exact absurd rfl (met _ named).1
    · obtain ⟨T, tree⟩ := sound.tree
      obtain ⟨t, destroyed, same, kept, tree_t, removed⟩ :=
        tree.destroyWindow_spec (sound.named_live named) top
      have stepped : windowStep s (.destroy hwnd) = some (t, .done true) := by
        simp [windowStep, winDestroyWindow, named, destroyed]
      have spec : WindowSpec s (.destroy hwnd) t (.done true) := by
        simp only [WindowSpec, named, true_and]
        exact removed
      constructor
      · rintro ⟨u, out, stepped', _, good⟩ win' named'
        cases stepped.symm.trans stepped'
        cases named.symm.trans named'
        refine ⟨top, fun ps member used p assigned => ?_⟩
        -- The window of a presentation space is still there.
        obtain ⟨p', assigned', live⟩ := good.spaces ps (same.presSpaces ▸ member) used
        cases assigned.symm.trans assigned'
        exact ((removed.live p).mp live).2
      · intro met
        exact ⟨t, _, stepped, spec,
          (sound.destroyed same kept tree_t removed (met win named).2).windowTree⟩

/-- Destroying a window keeps what the calls keep where the condition is met. -/
theorem winDestroyWindow_kept {out : WindowAnswer} (sound : Sound s) (met : DestroyCond hwnd s)
    (stepped : windowStep s (.destroy hwnd) = some (t, out)) : Sound t := by
  cases named : getWindowFromHWND s hwnd with
  | none =>
    simp only [windowStep, winDestroyWindow, named, Option.map_some, Option.some.injEq,
      Prod.mk.injEq] at stepped
    rw [← stepped.1]
    exact sound.error _
  | some win =>
    obtain ⟨top, unused⟩ := met win named
    obtain ⟨T, tree⟩ := sound.tree
    obtain ⟨u, destroyed, same, kept, tree_u, removed⟩ :=
      tree.destroyWindow_spec (sound.named_live named) top
    simp only [windowStep, winDestroyWindow, named, destroyed, Option.map_some, Option.some.injEq,
      Prod.mk.injEq] at stepped
    rw [← stepped.1]
    exact sound.destroyed same kept tree_u removed unused

end Destroying

section Painting

variable {s : WindowBlock}

/-- The block with other presentation spaces. -/
def withSpaces (s : WindowBlock) (spaces : List PresentationSpace) : WindowBlock :=
  { s with presSpaces := spaces }

/-- The presentation spaces have nothing to do with the windows. -/
theorem withSpaces_same (s : WindowBlock) (spaces : List PresentationSpace) :
    SameWindows s (withSpaces s spaces) :=
  .of_cells fun p => by cases p <;> rfl

/-- The presentation spaces in use after one slot was overwritten. -/
theorem mem_set_space {spaces : List PresentationSpace} {idx : Nat} {new ps : PresentationSpace}
    (fits : SpacesFit spaces)
    (inside : idx < spaces.length) (used : ps.hps ≠ nullHandle) :
    ps ∈ spaces.set idx new ↔ ps = new ∨ ps ∈ spaces ∧ ps.hps ≠ idx + firstHpsValue := by
  simp only [List.mem_iff_getElem?, List.getElem?_set]
  constructor
  · rintro ⟨i, here⟩
    split at here
    · rename_i same
      subst same
      exact .inl (by simpa [inside] using here.symm)
    · rename_i other
      refine .inr ⟨⟨i, here⟩, fun same => other ?_⟩
      have fit := (fits i ps here).resolve_left used
      omega
  · rintro (rfl | ⟨⟨i, here⟩, other⟩)
    · exact ⟨idx, by simp [inside]⟩
    · -- A space in use has the handle of its slot, so this is another slot.
      have fit := (fits i ps here).resolve_left used
      have apart : idx ≠ i := fun same => other (by rw [fit, same])
      exact ⟨i, by rw [if_neg apart, here]⟩

/-- The handles still fit after a slot was overwritten with one that does. -/
theorem fits_set_space {spaces : List PresentationSpace} {idx : Nat} {new : PresentationSpace}
    (fits : SpacesFit spaces)
    (fit : new.hps = nullHandle ∨ new.hps = idx + firstHpsValue) :
    SpacesFit (spaces.set idx new) := by
  intro i ps here
  rw [List.getElem?_set] at here
  split at here
  · rename_i same
    split at here
    · cases here
      rw [← same]
      exact fit
    · cases here
  · exact fits i ps here

/-- The spaces in which one is taken are those in use, and perhaps as many free ones again. -/
structure SpacesOf (s : WindowBlock) (spaces : List PresentationSpace) : Prop where
  fits : SpacesFit spaces
  used : ∀ ps, ps.hps ≠ nullHandle → (ps ∈ spaces ↔ ps ∈ s.presSpaces)

/-- The spaces as they are. -/
theorem spaces_self (sound : Sound s) : SpacesOf s s.presSpaces :=
  ⟨sound.spaceHandles, fun _ _ => .rfl⟩

/-- A slot for a presentation space, if there is memory for it. -/
theorem takePresSpace_spec (sound : Sound s) (realloc : Bool) :
    takePresSpace realloc s = none ∨ ∃ spaces idx,
      takePresSpace realloc s = some (withSpaces s spaces, idx) ∧ idx < spaces.length ∧
      SpacesOf s spaces ∧ ∀ ps, spaces[idx]? = some ps → ps.hps = nullHandle := by
  rw [takePresSpace]
  cases searched : s.presSpaces.findIdx? (·.hps = nullHandle) with
  | some i =>
    obtain ⟨inside, free, _⟩ := List.findIdx?_eq_some_iff_getElem.mp searched
    refine .inr ⟨s.presSpaces, i, rfl, inside, spaces_self sound,
      fun ps here => ?_⟩
    rw [List.getElem?_eq_getElem inside] at here
    cases here
    simpa using free
  | none =>
    cases realloc with
    | false => exact .inl rfl
    | true =>
      have slots := sound.spaceSlots
      refine .inr ⟨s.presSpaces ++ List.replicate s.presSpaces.length ⟨nullHandle, none⟩,
        s.presSpaces.length, rfl,
        by simpa using slots, ⟨fun i ps here => ?_, fun ps used => ?_⟩, fun ps here => ?_⟩
      · rcases Nat.lt_or_ge i s.presSpaces.length with inside | beyond
        · rw [List.getElem?_append_left inside] at here
          exact sound.spaceHandles i ps here
        · -- Behind the old end all slots are free.
          rw [List.getElem?_append_right beyond] at here
          exact .inl (List.eq_of_mem_replicate (List.mem_of_getElem? here) ▸ rfl)
      · rw [List.mem_append]
        refine or_iff_left fun new => used ?_
        exact List.eq_of_mem_replicate new ▸ rfl
      · rw [List.getElem?_append_right le_rfl] at here
        exact List.eq_of_mem_replicate (List.mem_of_getElem? here) ▸ rfl

/-- Other presentation spaces keep what the calls keep if they are for windows that are there. -/
theorem Sound.withSpaces {spaces : List PresentationSpace} (sound : Sound s)
    (live : ∀ ps ∈ spaces, ps.hps ≠ nullHandle → ∃ p, ps.window = some p ∧ IsLive s p)
    (slots : 0 < spaces.length) (fits : SpacesFit spaces) :
    Sound (TwoIne.withSpaces s spaces) := by
  refine sound.sameWindows (withSpaces_same s spaces) rfl le_rfl (fun ps member used => ?_) slots
    fits
  obtain ⟨p, assigned, there⟩ := live ps member used
  exact ⟨p, assigned, ((withSpaces_same s spaces).isLive p).mpr there⟩

/-- A presentation space that is taken for a window is in use for it, and the others are kept. -/
theorem assignSpace_spec {spaces : List PresentationSpace} {idx hwnd : Nat} {win : WinPtr}
    (sound : Sound s) (of_s : SpacesOf s spaces) (inside : idx < spaces.length)
    (named : getWindowFromHWND s hwnd = some win) (realloc : Bool) (hps : Nat) :
    ∃ t rect, assignSpace idx (idx + firstHpsValue) win (withSpaces s spaces) =
        some (t, idx + firstHpsValue, rect) ∧
      WindowSpec s (.beginPaint hwnd hps realloc) t (.painting (idx + firstHpsValue) rect) ∧
      Sound t := by
  have live := sound.named_live named
  obtain ⟨cell, found, running⟩ := live
  have found' : (withSpaces s spaces).deref win = some cell := by
    cases win <;> exact found
  have positive : idx + firstHpsValue ≠ nullHandle := by
    simp only [firstHpsValue, nullHandle]
    omega
  refine ⟨withSpaces s (spaces.set idx ⟨idx + firstHpsValue, some win⟩), _,
    by rw [assignSpace, found']; rfl, ⟨withSpaces_same s _, ?_⟩, ?_⟩
  · rw [if_neg positive]
    refine ⟨win, named, fun ps used => ?_⟩
    refine (mem_set_space of_s.fits inside used).trans (or_congr_right ?_)
    rw [of_s.used ps used]
  · refine sound.withSpaces (fun ps member used => ?_) (by simp; omega)
      (fits_set_space of_s.fits (.inr rfl))
    rcases (mem_set_space of_s.fits inside used).mp member with rfl | ⟨old, _⟩
    · exact ⟨win, rfl, cell, found, running⟩
    · exact sound.spaces ps ((of_s.used ps used).mp old) used

/-- A handle of a presentation space is that of a slot in use. -/
theorem getPresentationSpaceFromHPS_eq_some {hps idx : Nat}
    (named : getPresentationSpaceFromHPS s hps = some idx) :
    hps = idx + firstHpsValue ∧ ∃ ps, s.presSpaces[idx]? = some ps ∧ ps.hps = hps := by
  rw [getPresentationSpaceFromHPS] at named
  split at named
  · split at named
    · cases named
    · rename_i ps slot
      split at named
      · rename_i same
        cases named
        exact ⟨by omega, ps, slot, same⟩
      · cases named
  · cases named

/-- Beginning to paint does what it is to do. -/
theorem winBeginPaint_spec (sound : Sound s) (hwnd hps : Nat) (realloc : Bool) :
    ∃ t out, windowStep s (.beginPaint hwnd hps realloc) = some (t, out) ∧
      WindowSpec s (.beginPaint hwnd hps realloc) t out ∧ Sound t := by
  have refused : ∀ err, WindowSpec s (.beginPaint hwnd hps realloc) { s with lastError := err }
      (.painting nullHandle none) ∧ Sound { s with lastError := err } := by
    intro err
    refine ⟨⟨(leftAlone_error s err).windows, ?_⟩, sound.error err⟩
    rw [if_pos rfl]
  rw [windowStep, winBeginPaint]
  cases named : getWindowFromHWND s hwnd with
  | none => exact ⟨_, _, rfl, refused _⟩
  | some win =>
    by_cases given : hps ≠ nullHandle
    · simp only [if_pos given]
      cases space : getPresentationSpaceFromHPS s hps with
      | none => exact ⟨_, _, rfl, refused _⟩
      | some idx =>
        obtain ⟨rfl, ps, slot, _⟩ := getPresentationSpaceFromHPS_eq_some space
        obtain ⟨t, rect, done, spec⟩ := assignSpace_spec sound (spaces_self sound)
          (List.getElem?_eq_some_iff.mp slot).1 named realloc
          (idx + firstHpsValue)
        have taken : assignSpace idx (idx + firstHpsValue) win s =
            some (t, idx + firstHpsValue, rect) := done
        refine ⟨t, _, ?_, spec⟩
        simp only [taken]
        rfl
    · simp only [if_neg given]
      rcases takePresSpace_spec sound realloc with none | ⟨spaces, idx, taken, inside, of_s, _⟩
      · rw [none]
        exact ⟨_, _, rfl, refused _⟩
      · obtain ⟨t, rect, done, spec⟩ := assignSpace_spec sound of_s inside named realloc hps
        refine ⟨t, _, ?_, spec⟩
        simp only [taken, done]
        rfl

/-- The end of painting does what it is to do. -/
theorem winEndPaint_spec (sound : Sound s) (hps : Nat) :
    ∃ t out, windowStep s (.endPaint hps) = some (t, out) ∧ WindowSpec s (.endPaint hps) t out ∧
      Sound t := by
  rw [windowStep, winEndPaint]
  cases space : getPresentationSpaceFromHPS s hps with
  | none =>
    refine ⟨_, _, rfl, ⟨(leftAlone_error s _).windows, fun ps used => ?_⟩, sound.error _⟩
    refine (and_iff_left_of_imp fun member => ?_).symm
    rintro rfl
    -- A space in use could have been found by its handle.
    obtain ⟨idx, inside, rfl⟩ := List.getElem_of_mem member
    have fit := (sound.spaceHandles idx _ (List.getElem?_eq_getElem inside)).resolve_left used
    rw [getPresentationSpaceFromHPS, if_pos (by omega), fit, Nat.add_sub_cancel,
      List.getElem?_eq_getElem inside] at space
    simp [fit] at space
  | some idx =>
    obtain ⟨rfl, ps, slot, same⟩ := getPresentationSpaceFromHPS_eq_some space
    have inside := (List.getElem?_eq_some_iff.mp slot).1
    have used : ps.hps ≠ nullHandle := by
      rw [same]
      simp only [firstHpsValue, nullHandle]
      omega
    obtain ⟨p, assigned, cell, found, _⟩ := sound.spaces ps (List.mem_of_getElem? slot) used
    refine ⟨withSpaces s (s.presSpaces.set idx {}), .done true, ?_,
      ⟨withSpaces_same s _, fun ps' used' => ?_⟩, ?_⟩
    · simp [slot, assigned, found, withSpaces]
    · refine (mem_set_space sound.spaceHandles inside used').trans ?_
      refine or_iff_right ?_
      rintro rfl
      exact used' rfl
    · refine sound.withSpaces (fun ps' member used' => ?_) (by simpa using sound.spaceSlots)
        (fits_set_space sound.spaceHandles (.inl rfl))
      rcases (mem_set_space sound.spaceHandles inside used').mp member with rfl | ⟨old, _⟩
      · exact absurd rfl used'
      · exact sound.spaces ps' old used'

end Painting

section Runs

/-- A call does what it is to do and leaves a tree exactly where the condition is met. -/
theorem windowStep_exact (s : WindowBlock) (call : WindowCall) (sound : Sound s) :
    (∃ t out, windowStep s call = some (t, out) ∧ WindowSpec s call t out ∧ WindowTree t) ↔
      WindowCond s call := by
  cases call with
  | create call answers =>
    constructor
    · rintro ⟨t, out, stepped, spec, tree⟩
      obtain ⟨⟨u, hwnd⟩, done, same⟩ := Option.map_eq_some_iff.mp stepped
      cases same
      exact winCreateWindow_needed sound done spec tree
    · intro met
      obtain ⟨t, hwnd, done, spec, sound'⟩ := winCreateWindow_enough sound met
      exact ⟨t, .handle hwnd, by simp [windowStep, done], spec, sound'.windowTree⟩
  | destroy hwnd => exact winDestroyWindow_exact sound hwnd
  | beginPaint hwnd hps realloc =>
    obtain ⟨t, out, stepped, spec, sound'⟩ := winBeginPaint_spec sound hwnd hps realloc
    exact iff_of_true ⟨t, out, stepped, spec, sound'.windowTree⟩ trivial
  | endPaint hps =>
    obtain ⟨t, out, stepped, spec, sound'⟩ := winEndPaint_spec sound hps
    exact iff_of_true ⟨t, out, stepped, spec, sound'.windowTree⟩ trivial

/-- A call that meets the condition keeps what the calls keep. -/
theorem windowStep_kept (s : WindowBlock) (call : WindowCall) (t : WindowBlock)
    (out : WindowAnswer) (sound : Sound s) (met : WindowCond s call)
    (stepped : windowStep s call = some (t, out)) : Sound t := by
  cases call with
  | create call answers =>
    obtain ⟨u, hwnd, done, _, sound'⟩ := winCreateWindow_enough sound met
    simp only [windowStep, done, Option.map_some, Option.some.injEq, Prod.mk.injEq] at stepped
    exact stepped.1 ▸ sound'
  | destroy hwnd => exact winDestroyWindow_kept sound met stepped
  | beginPaint hwnd hps realloc =>
    obtain ⟨u, out', stepped', _, sound'⟩ := winBeginPaint_spec sound hwnd hps realloc
    cases stepped.symm.trans stepped'
    exact sound'
  | endPaint hps =>
    obtain ⟨u, out', stepped', _, sound'⟩ := winEndPaint_spec sound hps
    cases stepped.symm.trans stepped'
    exact sound'

/-- At the start there is nothing but the desktop. -/
theorem sound_winInitialize (hmq : Nat) (classes : List WindowClass) (w h : Int) :
    Sound (winInitialize hmq classes w h) := by
  have free : ∀ p cell, (winInitialize hmq classes w h).deref p = some cell →
      p = .desktop ∧ cell = { hwnd := hwndDesktop, w := w, h := h } ∨ cell = {} := by
    intro p cell found
    cases p with
    | desktop =>
      cases found
      exact .inl ⟨rfl, rfl⟩
    | element windows idx =>
      by_cases current : windows = 0
      · have slot : (List.replicate 16 ({} : Window))[idx]? = some cell := by
          simpa only [WindowBlock.deref, winInitialize, current, if_true] using found
        exact .inr (List.eq_of_mem_replicate (List.mem_of_getElem? slot))
      · simp [WindowBlock.deref, winInitialize, current] at found
  have unused : ∀ ps ∈ (winInitialize hmq classes w h).presSpaces, ps.hps = nullHandle := by
    intro ps member
    rw [List.eq_of_mem_replicate member]
  refine ⟨by simp [winInitialize], rfl, fun idx cell found => ?_,
    ⟨.node .desktop .nil .nil, ⟨?_, by simp [Forest.nodes], fun p => ?_, rfl⟩⟩,
    fun p cell found _ => ?_, fun ps member used => absurd (unused ps member) used,
    by simp [winInitialize], fun idx ps here => .inl (unused ps (List.mem_of_getElem? here))⟩
  · rcases free _ cell found with ⟨impossible, _⟩ | rfl
    · cases impossible
    · exact .inl rfl
  · exact ⟨rfl, _, rfl, rfl, rfl, rfl⟩
  · simp only [Forest.nodes, List.append_nil, List.mem_singleton]
    constructor
    · rintro rfl
      exact ⟨_, rfl, show hwndDesktop ≠ nullHandle by decide⟩
    · rintro ⟨cell, found, running⟩
      rcases free p cell found with ⟨here, _⟩ | rfl
      · exact here
      · exact absurd rfl running
  · rcases free p cell found with ⟨_, rfl⟩ | rfl
    · exact .inl rfl
    · exact .inl rfl

/-- A class of windows without data of their own. -/
def plainClass : WindowClass := ⟨[87], 1, 0, 0⟩

/-- A window on the desktop, owned by the window with the given handle. -/
def ownedBy (hwndOwner : Nat) : WindowCall :=
  .create { hwndParent := hwndDesktop, pszClass := .named [87], hwndOwner } {}

end Runs

end TwoIne
