import Mathlib.Data.List.Range
import TwoIne.Proofs.PmWin.WindowCells

/-! The tree of windows: what holds of it between the calls, and what destroying a window does to it. -/

namespace TwoIne

open Chains Forests

/-- A pointer leads to a window that was created, or to the desktop. -/
def IsLive (s : WindowBlock) (p : WinPtr) : Prop :=
  ∃ cell, s.deref p = some cell ∧ cell.hwnd ≠ nullHandle

/-- The parent of a window. -/
def parentOf (s : WindowBlock) (p : WinPtr) : Option WinPtr := (s.deref p).bind Window.parent

/-- The parents of a window lead to another one, or it is that one. -/
def Descends (s : WindowBlock) : WinPtr → WinPtr → Prop :=
  Relation.ReflTransGen fun p q => parentOf s p = some q

/-- The children of a window, in the order of their list. -/
def ChildList (s : WindowBlock) (q : WinPtr) (kids : List WinPtr) : Prop :=
  ∃ cell, s.deref q = some cell ∧ Chain (siblingOf s) cell.children kids

/-- A handle is that of the slot it is in. -/
def HandlesFit (s : WindowBlock) : Prop :=
  ∀ idx cell, s.deref (.element s.windows idx) = some cell →
    cell.hwnd = nullHandle ∨ cell.hwnd = idx + firstHwndValue

/-- Every presentation space in use is for a window that is there. -/
def SpacesLive (s : WindowBlock) : Prop :=
  ∀ ps ∈ s.presSpaces, ps.hps ≠ nullHandle → ∃ p, ps.window = some p ∧ IsLive s p

/-- A handle of a presentation space is that of the slot it is in. -/
def SpacesFit (spaces : List PresentationSpace) : Prop :=
  ∀ idx ps, spaces[idx]? = some ps → ps.hps = nullHandle ∨ ps.hps = idx + firstHpsValue

/--
The windows form a tree below the desktop.

Each of them is once in the list of children of its parent, and in no other list, and all pointers
lead to windows that are there.
-/
structure WindowTree (s : WindowBlock) : Prop where
  desktop : s.desktopWindow.hwnd = hwndDesktop ∧ s.desktopWindow.parent = none
  handles : HandlesFit s
  listed : ∀ q, IsLive s q → ∃ kids, ChildList s q kids ∧ kids.Nodup ∧
    ∀ p, p ∈ kids ↔ IsLive s p ∧ parentOf s p = some q
  parents : ∀ p, IsLive s p → p ≠ .desktop → ∃ q, parentOf s p = some q ∧ IsLive s q
  pointers : ∀ p cell, s.deref p = some cell → cell.hwnd ≠ nullHandle → ∀ q,
    cell.children = some q ∨ cell.sibling = some q ∨ cell.owner = some q → IsLive s q
  rooted : ∀ p, IsLive s p → Descends s p .desktop
  spaces : SpacesLive s

/-- The forest that the pointers of the windows stand for. -/
structure TreeOf (s : WindowBlock) (T : Forest WinPtr) : Prop where
  shape : Shape (linksOf s) none (some .desktop) T
  distinct : T.nodes.Nodup
  live : ∀ p, p ∈ T.nodes ↔ IsLive s p
  alone : s.desktopWindow.sibling = none

/-- What the calls keep, as long as they meet their conditions. -/
structure Sound (s : WindowBlock) : Prop where
  slots : 0 < s.windowsArray.length
  desktop : s.desktopWindow.hwnd = hwndDesktop
  handles : HandlesFit s
  tree : ∃ T, TreeOf s T
  owners : ∀ p cell, s.deref p = some cell → cell.hwnd ≠ nullHandle →
    cell.owner = none ∨ cell.owner = cell.parent
  spaces : SpacesLive s
  spaceSlots : 0 < s.presSpaces.length
  spaceHandles : SpacesFit s.presSpaces

/-- The parents of the windows are those of the forest. -/
theorem climbs_linksOf (s : WindowBlock) : Climbs (linksOf s) = Descends s := by
  unfold Climbs Descends
  congr
  funext p q
  cases found : s.deref p <;> simp [linksOf, parentOf, found, Window.links]

section Reading

variable {s : WindowBlock} {T : Forest WinPtr}

/-- The parent pointer of a window that is there. -/
theorem parentOf_eq {p : WinPtr} {cell : Window} (found : s.deref p = some cell) :
    parentOf s p = cell.parent := by
  rw [parentOf, found]
  rfl

/-- The parent pointers are those of the forest. -/
theorem linksOf_parent (s : WindowBlock) (p : WinPtr) :
    (linksOf s p).bind Links.parent = parentOf s p := by
  cases found : s.deref p <;> simp [linksOf, parentOf, found, Window.links]

/-- A window has a handle unless its slot is free. -/
theorem isLive_iff {p : WinPtr} {cell : Window} (found : s.deref p = some cell) :
    IsLive s p ↔ cell.hwnd ≠ nullHandle := by
  simp [IsLive, found]

/-- The desktop is all there is at the top. -/
theorem TreeOf.roots (tree : TreeOf s T) : T.roots = [.desktop] := by
  have chain := tree.shape.chain
  cases T with
  | nil => cases chain
  | node a kids rest =>
    obtain ⟨start, r, linked, along⟩ := chain
    cases start
    -- The desktop has no sibling.
    have linked' : some r = some s.desktopWindow.sibling := by
      rw [← linked, siblingLink_linksOf]
      rfl
    cases linked'
    rw [tree.alone] at along
    cases roots : rest.roots with
    | nil => simp [Forest.roots, roots]
    | cons b more =>
      rw [roots] at along
      cases along.1

/-- The desktop is in the tree. -/
theorem TreeOf.live_desktop (tree : TreeOf s T) : IsLive s .desktop := by
  rw [← tree.live]
  exact T.roots_subset (by rw [tree.roots]; exact List.mem_singleton_self _)

/-- Every window but the desktop is among the children of its parent. -/
theorem TreeOf.parent (tree : TreeOf s T) {p : WinPtr} (live : IsLive s p) (ne : p ≠ .desktop) :
    ∃ q cell kids, q ∈ T.nodes ∧ s.deref q = some cell ∧
      Shape (linksOf s) (some q) cell.children kids ∧ p ∈ kids.roots ∧ parentOf s p = some q := by
  rcases tree.shape.listed ((tree.live p).mpr live) with top | ⟨q, within, l, kids, linked, down, child⟩
  · rw [tree.roots] at top
    exact absurd (List.mem_singleton.mp top) ne
  · obtain ⟨cell, found, rfl⟩ := linksOf_eq_some.mp linked
    obtain ⟨m, linked_p, above⟩ := down.parent_of_root child
    refine ⟨q, cell, kids, within, found, down, child, ?_⟩
    rw [← linksOf_parent, linked_p]
    exact above

/-- The list of the children of a window. -/
theorem TreeOf.childList (tree : TreeOf s T) {q : WinPtr} (live : IsLive s q) :
    ∃ cell kids, s.deref q = some cell ∧ Shape (linksOf s) (some q) cell.children kids ∧
      Chain (siblingOf s) cell.children kids.roots ∧
      ∀ p, p ∈ kids.roots ↔ IsLive s p ∧ parentOf s p = some q := by
  obtain ⟨l, kids, linked, down, within⟩ := tree.shape.kids ((tree.live q).mpr live)
  obtain ⟨cell, found, rfl⟩ := linksOf_eq_some.mp linked
  refine ⟨cell, kids, found, down, ?_, fun p => ?_⟩
  · rw [← siblingLink_linksOf]
    exact down.chain
  · rw [tree.shape.mem_kids_iff linked down within p, tree.live, linksOf_parent]

/-- The desktop has no parent. -/
theorem TreeOf.desktop_parent (tree : TreeOf s T) : s.desktopWindow.parent = none := by
  obtain ⟨l, linked, above⟩ :=
    tree.shape.parent_of_root (a := .desktop) (by rw [tree.roots]; exact List.mem_singleton_self _)
  cases linked
  exact above

/-- What the calls keep says that the windows form a tree. -/
theorem Sound.windowTree (sound : Sound s) : WindowTree s := by
  obtain ⟨T, tree⟩ := sound.tree
  refine ⟨⟨sound.desktop, tree.desktop_parent⟩, sound.handles, fun q live => ?_,
    fun p live ne => ?_, fun p cell found running q leads => ?_, fun p live => ?_, sound.spaces⟩
  · obtain ⟨cell, kids, found, _, chain, members⟩ := tree.childList live
    exact ⟨kids.roots, ⟨cell, found, chain⟩, Chain.nodup chain, members⟩
  · obtain ⟨q, _, _, within, _, _, _, above⟩ := tree.parent live ne
    exact ⟨q, above, (tree.live q).mp within⟩
  · have live : IsLive s p := ⟨cell, found, running⟩
    rcases leads with leads | leads | leads
    · -- The first child is a child.
      obtain ⟨cell', kids, found', _, chain, members⟩ := tree.childList live
      cases found.symm.trans found'
      have start := Chain.head chain
      rw [leads] at start
      exact ((members q).mp (List.mem_of_head? start.symm)).1
    · -- The desktop has no sibling, and that of another window has the same parent.
      by_cases top : p = .desktop
      · subst top
        cases found
        rw [tree.alone] at leads
        cases leads
      · obtain ⟨r, _, _, within, _, _, _, above⟩ := tree.parent live top
        obtain ⟨cell', kids, _, _, chain, members⟩ := tree.childList ((tree.live r).mp within)
        obtain ⟨front, rest, split⟩ := List.append_of_mem ((members p).mpr ⟨live, above⟩)
        rw [split] at chain
        have next := Chain.next chain
        rw [siblingOf_eq found, leads] at next
        have member : q ∈ rest := List.mem_of_head? (Option.some.inj next).symm
        exact ((members q).mp (by rw [split]; simp [member])).1
    · -- The owner is the parent, if there is one.
      rcases sound.owners p cell found running with none | same
      · rw [none] at leads
        cases leads
      · by_cases top : p = .desktop
        · subst top
          cases found
          rw [same, tree.desktop_parent] at leads
          cases leads
        · obtain ⟨r, _, _, within, _, _, _, above⟩ := tree.parent live top
          rw [parentOf_eq found, ← same, leads] at above
          cases above
          exact (tree.live q).mp within
  · obtain ⟨r, top, path⟩ := tree.shape.climbs ((tree.live p).mpr live)
    rw [tree.roots, List.mem_singleton] at top
    rw [climbs_linksOf, top] at path
    exact path

/-- There are no more windows than slots. -/
theorem length_le_slots {nodes : List WinPtr} (distinct : nodes.Nodup)
    (there : ∀ p ∈ nodes, ∃ cell, s.deref p = some cell) (below : .desktop ∉ nodes) :
    nodes.length ≤ s.windowsArray.length := by
  -- They are different elements of the array.
  have inside : nodes ⊆ (List.range s.windowsArray.length).map (WinPtr.element s.windows) := by
    intro p member
    obtain ⟨cell, found⟩ := there p member
    cases p with
    | desktop => exact absurd member below
    | element windows idx =>
      obtain ⟨rfl, slot⟩ : windows = s.windows ∧ s.windowsArray[idx]? = some cell := by
        simpa [WindowBlock.deref] using found
      have bound := (List.getElem?_eq_some_iff.mp slot).1
      exact List.mem_map.mpr ⟨idx, List.mem_range.mpr bound, rfl⟩
  simpa using List.Nodup.length_le_of_subset distinct inside

/-- The children of a window fit into the array. -/
theorem TreeOf.kids_length (tree : TreeOf s T) {q : WinPtr} {kids : List WinPtr}
    {start : Option WinPtr} (chain : Chain (siblingOf s) start kids)
    (members : ∀ p ∈ kids, IsLive s p ∧ parentOf s p = some q) :
    kids.length ≤ s.windowsArray.length := by
  refine length_le_slots (Chain.nodup chain) (fun p member => ?_) fun top => ?_
  · obtain ⟨cell, found, _⟩ := (members p member).1
    exact ⟨cell, found⟩
  · have above : parentOf s .desktop = s.desktopWindow.parent := rfl
    rw [(members _ top).2, tree.desktop_parent] at above
    cases above

/-- What is below a window: everything from which the parents lead to it. -/
theorem TreeOf.mem_under_iff (tree : TreeOf s T) {win : WinPtr} (live : IsLive s win)
    (p : WinPtr) : p ∈ win :: (T.under win).nodes ↔ IsLive s p ∧ Descends s p win := by
  rw [tree.shape.mem_under_iff tree.distinct ((tree.live win).mpr live), tree.live,
    climbs_linksOf]

end Reading

/--
A window and everything below it are gone, what led to the window leads to its next sibling, and all
else is as it was.
-/
structure Removed (win : WinPtr) (s t : WindowBlock) : Prop where
  live : ∀ p, IsLive t p ↔ IsLive s p ∧ ¬ Descends s p win
  others : ∀ gone, s.deref win = some gone → ∀ p cell, s.deref p = some cell →
    IsLive t p → t.deref p = some (cell.pointPast win gone.sibling)
  presSpaces : t.presSpaces = s.presSpaces

/-- In a list of siblings, only the one in front of a window points to it. -/
theorem getLast?_eq_of_sibling {s : WindowBlock} {start : Option WinPtr} {win b : WinPtr}
    {front rest : List WinPtr} (chain : Chain (siblingOf s) start (front ++ win :: rest))
    (member : b ∈ front ++ win :: rest) (next : siblingOf s b = some (some win)) :
    front.getLast? = some b := by
  have distinct := Chain.nodup chain
  -- The list is split at the sibling, and the window comes right behind it.
  obtain ⟨before, after, split⟩ := List.append_of_mem member
  rw [split] at chain
  have follows := Chain.next chain
  rw [next] at follows
  cases after with
  | nil => simp at follows
  | cons c after =>
    obtain rfl : win = c := by simpa using follows
    -- The window is in the list once, so both splits are the same.
    rw [show before ++ b :: win :: after = (before ++ [b]) ++ win :: after by simp] at split
    rw [split] at distinct
    have absent : win ∉ before ++ [b] := by
      intro again
      exact (List.nodup_append.mp distinct).2.2 win again win List.mem_cons_self rfl
    have absent' : win ∉ after := (List.nodup_cons.mp (List.nodup_append.mp distinct).2.1).1
    have same := (List.append_cons_inj_of_notMem absent absent').mp split.symm
    rw [← same.1, List.getLast?_concat]

section Destroying

variable {s : WindowBlock} {T : Forest WinPtr} {win q : WinPtr} {cell parent : Window}
  {front rest : List WinPtr}

/-- The pointers that lead to a window are those at its place in the list of its siblings. -/
theorem TreeOf.pointPast_eq (tree : TreeOf s T) (found_parent : s.deref q = some parent)
    (above : parentOf s win = some q)
    (chain : Chain (siblingOf s) parent.children (front ++ win :: rest))
    (members : ∀ p, p ∈ front ++ win :: rest ↔ IsLive s p ∧ parentOf s p = some q)
    {b : WinPtr} {old : Window} (found : s.deref b = some old) (live : IsLive s b)
    (next : Option WinPtr) :
    old.pointPast win next =
      { old with
        children := if b = q ∧ front = [] then next else old.children
        sibling := if front.getLast? = some b then next else old.sibling } := by
  have distinct := Chain.nodup chain
  have live_win := ((members win).mp (by simp)).1
  -- A first child has the window that points to it as its parent.
  have children_iff : old.children = some win ↔ b = q ∧ front = [] := by
    constructor
    · intro leads
      obtain ⟨cell', kids, found', _, chain', members'⟩ := tree.childList live
      cases found.symm.trans found'
      have start := Chain.head chain'
      rw [leads] at start
      have child := (members' win).mp (List.mem_of_head? start.symm)
      rw [above] at child
      cases child.2
      cases found.symm.trans found_parent
      have first := Chain.head chain
      rw [leads] at first
      cases front with
      | nil => exact ⟨rfl, rfl⟩
      | cons c front =>
        obtain rfl : win = c := by simpa using first
        simp at distinct
    · rintro ⟨rfl, rfl⟩
      cases found.symm.trans found_parent
      exact Chain.head chain
  -- A sibling has the same parent as the window that points to it.
  have sibling_iff : old.sibling = some win ↔ front.getLast? = some b := by
    constructor
    · intro leads
      have next_b : siblingOf s b = some (some win) := by rw [siblingOf_eq found, leads]
      refine getLast?_eq_of_sibling chain ((members b).mpr ⟨live, ?_⟩) next_b
      have below : b ≠ .desktop := by
        rintro rfl
        cases found
        rw [tree.alone] at leads
        cases leads
      obtain ⟨r, _, _, within, _, _, _, above_b⟩ := tree.parent live below
      obtain ⟨_, kids, _, _, chain', members'⟩ := tree.childList ((tree.live r).mp within)
      obtain ⟨before, after, split⟩ := List.append_of_mem ((members' b).mpr ⟨live, above_b⟩)
      rw [split] at chain'
      have follows := Chain.next chain'
      rw [next_b] at follows
      have inside : win ∈ kids.roots := by
        rw [split]
        simp [List.mem_of_head? (Option.some.inj follows).symm]
      have same := ((members' win).mp inside).2
      rw [above] at same
      rw [above_b, same]
    · intro last
      obtain ⟨before, rfl⟩ := List.getLast?_eq_some_iff.mp last
      rw [List.append_assoc, List.singleton_append] at chain
      have follows := Chain.next chain
      rw [siblingOf_eq found] at follows
      simpa using follows
  simp only [Window.pointPast, children_iff, sibling_iff]

/-- The parent of what is below a window is below it, too, or it is that window. -/
theorem TreeOf.parent_of_under (tree : TreeOf s T) (found : s.deref win = some cell)
    (member : win ∈ T.nodes) {b : WinPtr} (inside : b ∈ (T.under win).nodes) :
    ∃ r ∈ win :: (T.under win).nodes, parentOf s b = some r := by
  have down := tree.shape.under (linksOf_eq found) member
  obtain ⟨l, linked, up⟩ := down.parent_mem inside
  rw [← linksOf_parent, linked]
  rcases up with up | ⟨r, here, up⟩
  · exact ⟨win, List.mem_cons_self, up⟩
  · exact ⟨r, List.mem_cons_of_mem _ here, up⟩

/-- Everything below a window can be destroyed. -/
theorem TreeOf.destroyChildren (tree : TreeOf s T) (found : s.deref win = some cell)
    (member : win ∈ T.nodes) :
    ∃ t, destroyChildren (2 * s.windowsArray.length + 3) cell.children s = some t ∧
      SameBlock s t ∧ ∀ b, t.deref b = if b ∈ (T.under win).nodes then some {}
        else if b = win then some { cell with children := none } else s.deref b := by
  have down := tree.shape.under (linksOf_eq found) member
  have under_nodup := Forest.notMem_under tree.distinct member
  have within := Forest.under_subset tree.distinct member
  have few : (T.under win).nodes.length ≤ s.windowsArray.length := by
    refine length_le_slots under_nodup.2 (fun p inside => ?_) fun top => ?_
    · obtain ⟨cell', found', _⟩ := (tree.live p).mp (within inside)
      exact ⟨cell', found'⟩
    · obtain ⟨r, _, up⟩ := tree.parent_of_under found member top
      have none : parentOf s .desktop = s.desktopWindow.parent := rfl
      rw [up, tree.desktop_parent] at none
      cases none
  exact destroyChildren_spec (by omega) found down under_nodup.2 under_nodup.1
    fun a inside cell' found' => (isLive_iff found').mp ((tree.live a).mp (within inside))

/-- Destroying a window below the desktop comes back, with the cells changed like this. -/
theorem TreeOf.destroyWindow_cells (tree : TreeOf s T) (found : s.deref win = some cell)
    (running : cell.hwnd ≠ nullHandle) (found_parent : s.deref q = some parent)
    (above : cell.parent = some q)
    (chain : Chain (siblingOf s) parent.children (front ++ win :: rest))
    (members : ∀ p, p ∈ front ++ win :: rest ↔ IsLive s p ∧ parentOf s p = some q) :
    ∃ t, destroyWindow s.destroySteps win s = some t ∧ SameBlock s t ∧
      ∀ b, t.deref b = if b ∈ win :: (T.under win).nodes then some {}
        else (s.deref b).map fun old =>
          { old with
            children := if b = q ∧ front = [] then cell.sibling else old.children
            sibling := if front.getLast? = some b then cell.sibling else old.sibling } := by
  have live : IsLive s win := ⟨cell, found, running⟩
  have member := (tree.live win).mpr live
  have down := tree.shape.under (linksOf_eq found) member
  have under_nodup := Forest.notMem_under tree.distinct member
  -- Neither the parent nor a sibling is below the window.
  have q_under : q ∉ (T.under win).nodes :=
    tree.shape.parent_notMem_under tree.distinct member (linksOf_eq found) above
  have q_win : q ≠ win := by
    rintro rfl
    obtain ⟨l, kids, linked, shape_q, inner⟩ := tree.shape.kids member
    cases (linksOf_eq found).symm.trans linked
    have child := (tree.shape.mem_kids_iff linked shape_q inner q).mpr
      ⟨member, by rw [linksOf_parent, parentOf_eq found, above]⟩
    exact under_nodup.1 (shape_q.unique down ▸ kids.roots_subset child)
  have sibling_under : ∀ b ∈ front ++ win :: rest, b ∉ (T.under win).nodes := by
    intro b sibling inside
    obtain ⟨r, here, up⟩ := tree.parent_of_under found member inside
    rw [((members b).mp sibling).2] at up
    cases up
    exact (List.mem_cons.mp here).elim q_win q_under
  -- First everything below the window is destroyed.
  obtain ⟨t, destroyed, same, read⟩ := tree.destroyChildren found member
  have found_t : t.deref win = some { cell with children := none } := by
    rw [read, if_neg under_nodup.1, if_pos rfl]
  have parent_t : t.deref q = some parent := by
    rw [read, if_neg q_under, if_neg q_win, found_parent]
  have chain_t : Chain (siblingOf t) parent.children (front ++ win :: rest) := by
    refine Seg.frame chain fun b sibling => ?_
    rw [siblingOf, siblingOf, read, if_neg (sibling_under b sibling)]
    split
    · rename_i at_win
      rw [at_win, found]
      rfl
    · rfl
  -- Then the window is taken out of its list.
  have short : front.length ≤ t.windowsArray.length + 1 := by
    have bound := tree.kids_length chain fun p sibling => (members p).mp sibling
    rw [same.slots]
    simp only [List.length_append, List.length_cons] at bound
    omega
  obtain ⟨u, unlinked, same', read'⟩ :=
    unlinkWindow_spec found_t above parent_t chain_t q_win short
  refine ⟨u, ?_, same.trans same', fun b => ?_⟩
  · have steps : s.destroySteps = (2 * s.windowsArray.length + 3) + 1 := by
      rw [WindowBlock.destroySteps]
      omega
    rw [steps, destroyWindow]
    simp [found, running, destroyed, unlinked]
  · rw [read', read]
    by_cases at_win : b = win
    · simp [at_win]
    · by_cases inside : b ∈ (T.under win).nodes
      · -- A slot that is clear already is none of those that change.
        have b_q : b ≠ q := fun again => q_under (again ▸ inside)
        have b_front : front.getLast? ≠ some b := fun last =>
          sibling_under b (by simp [List.mem_of_getLast? last]) inside
        simp [at_win, inside, b_q, b_front]
      · simp [at_win, inside]

/-- A window below the desktop has a place in the list of its siblings. -/
theorem TreeOf.place (tree : TreeOf s T) (live : IsLive s win) (below : win ≠ .desktop) :
    ∃ q parent front rest, s.deref q = some parent ∧ IsLive s q ∧ parentOf s win = some q ∧
      Chain (siblingOf s) parent.children (front ++ win :: rest) ∧
      ∀ p, p ∈ front ++ win :: rest ↔ IsLive s p ∧ parentOf s p = some q := by
  obtain ⟨q, _, _, within, _, _, _, above⟩ := tree.parent live below
  have live_q := (tree.live q).mp within
  obtain ⟨parent, kids, found_parent, _, chain, members⟩ := tree.childList live_q
  obtain ⟨front, rest, split⟩ := List.append_of_mem ((members win).mpr ⟨live, above⟩)
  rw [split] at chain
  refine ⟨q, parent, front, rest, found_parent, live_q, above, chain, fun p => ?_⟩
  rw [← split]
  exact members p

/-- What a call keeps of every window that it does not clear. -/
def CellsKept (s t : WindowBlock) : Prop :=
  ∀ p new, t.deref p = some new → new.hwnd ≠ nullHandle → ∃ old, s.deref p = some old ∧
    new.hwnd = old.hwnd ∧ new.parent = old.parent ∧ new.owner = old.owner

/-- Destroying a window below the desktop removes it from the tree, with what is below it. -/
theorem TreeOf.destroyWindow_spec (tree : TreeOf s T) (live : IsLive s win)
    (below : win ≠ .desktop) :
    ∃ t, destroyWindow s.destroySteps win s = some t ∧ SameBlock s t ∧ CellsKept s t ∧
      TreeOf t (T.remove win) ∧ Removed win s t := by
  obtain ⟨q, parent, front, rest, found_parent, live_q, above, chain, members⟩ :=
    tree.place live below
  obtain ⟨cell, found, running⟩ := live
  have live : IsLive s win := ⟨cell, found, running⟩
  have member := (tree.live win).mpr live
  obtain ⟨t, destroyed, same, read⟩ := tree.destroyWindow_cells found running found_parent
    ((parentOf_eq found).symm.trans above) chain members
  -- The windows that are left point past the one that is gone.
  have past : ∀ b old, s.deref b = some old → b ∉ win :: (T.under win).nodes → IsLive s b →
      t.deref b = some (old.pointPast win cell.sibling) := by
    intro b old found_b stays live_b
    rw [read, if_neg stays, found_b,
      tree.pointPast_eq found_parent above chain members found_b live_b]
    rfl
  have live_iff : ∀ p, IsLive t p ↔ IsLive s p ∧ ¬ Descends s p win := by
    intro p
    by_cases gone : p ∈ win :: (T.under win).nodes
    · have descends := (tree.mem_under_iff live p).mp gone
      have cleared : t.deref p = some {} := by rw [read, if_pos gone]
      simp [isLive_iff cleared, descends.2]
    · -- The others keep their handles.
      have stays : IsLive s p → ¬ Descends s p win := fun live_p descends =>
        gone ((tree.mem_under_iff live p).mpr ⟨live_p, descends⟩)
      have kept : IsLive t p ↔ IsLive s p := by
        simp only [IsLive, read, if_neg gone]
        cases s.deref p <;> simp
      rw [kept]
      exact ⟨fun live_p => ⟨live_p, stays live_p⟩, And.left⟩
  refine ⟨t, destroyed, same, ?_, ⟨?_, ?_, ?_, ?_⟩, ⟨live_iff, ?_, same.presSpaces⟩⟩
  · -- A window that has a handle was not cleared.
    intro p new found_p running_p
    rw [read] at found_p
    split at found_p
    · cases found_p
      exact absurd rfl running_p
    · obtain ⟨old, found_old, rfl⟩ := Option.map_eq_some_iff.mp found_p
      exact ⟨old, found_old, rfl, rfl, rfl⟩
  · have shape : Shape (linksOf t) none _ (T.remove win) :=
      tree.shape.remove tree.distinct (linksOf_eq found) fun b stays => by
        obtain ⟨in_tree, stays⟩ := (Forest.mem_remove_iff tree.distinct member b).mp stays
        have live_b := (tree.live b).mp in_tree
        obtain ⟨old, found_b, running_b⟩ := live_b
        rw [linksOf_eq (past b old found_b stays ⟨old, found_b, running_b⟩), linksOf_eq found_b]
        rfl
    rwa [if_neg (by simpa using Ne.symm below)] at shape
  · exact Forest.nodup_remove tree.distinct member
  · intro p
    rw [Forest.mem_remove_iff tree.distinct member, tree.live, live_iff]
    refine and_congr_right fun live_p => not_congr ?_
    rw [tree.mem_under_iff live]
    exact and_iff_right live_p
  · -- The desktop is not below the window, and it has no sibling that could go.
    have stays : .desktop ∉ win :: (T.under win).nodes := by
      intro gone
      have descends := ((tree.mem_under_iff live _).mp gone).2
      rcases Relation.ReflTransGen.cases_head descends with same' | ⟨c, up, _⟩
      · exact below same'.symm
      · have none : parentOf s .desktop = s.desktopWindow.parent := rfl
        rw [up, tree.desktop_parent] at none
        cases none
    have pointed := past .desktop s.desktopWindow rfl stays tree.live_desktop
    have desktop_t : t.desktopWindow = s.desktopWindow.pointPast win cell.sibling :=
      Option.some.inj pointed
    rw [desktop_t]
    simp [Window.pointPast, tree.alone]
  · intro gone found_gone p old found_p live_t
    cases found.symm.trans found_gone
    obtain ⟨live_p, stays⟩ := (live_iff p).mp live_t
    exact past p old found_p (fun inside => stays ((tree.mem_under_iff live p).mp inside).2) live_p

end Destroying

section Linking

variable {s : WindowBlock} {T : Forest WinPtr} {win q : WinPtr} {new : Window}

/-- The cells of a block in which one window was linked into the children of another one. -/
def LinkedCells (s t : WindowBlock) (win q : WinPtr) (new : Window) (front rest : List WinPtr) :
    Prop :=
  ∀ b, t.deref b = if b = win then some { new with sibling := rest.head? }
    else (s.deref b).map fun old =>
      { old with
        children := if b = q ∧ front = [] then some win else old.children
        sibling := if front.getLast? = some b then some win else old.sibling }

/-- Linking a new window into the children of its parent makes one more window in the tree. -/
theorem TreeOf.linked {t : WindowBlock} (tree : TreeOf s T) (fresh : ¬ IsLive s win)
    (below : win ≠ .desktop) (running : new.hwnd ≠ nullHandle) (childless : new.children = none)
    (above : new.parent = some q) {parent : Window} (found_parent : s.deref q = some parent)
    (live_q : IsLive s q) {kids : Forest WinPtr}
    (down : Shape (linksOf s) (some q) parent.children kids) {front rest : List WinPtr}
    (split : kids.roots = front ++ rest)
    (members : ∀ p, p ∈ kids.roots ↔ IsLive s p ∧ parentOf s p = some q)
    (cells : LinkedCells s t win q new front rest) : ∃ T', TreeOf t T' := by
  have q_win : q ≠ win := by
    rintro rfl
    exact fresh live_q
  have found_t : t.deref win = some { new with sibling := rest.head? } := by
    rw [cells, if_pos rfl]
  have chain := down.chain
  rw [split] at chain
  have distinct := Chain.nodup chain
  have member_q := (tree.live q).mpr live_q
  have live_iff : ∀ p, IsLive t p ↔ p = win ∨ IsLive s p := by
    intro p
    by_cases at_win : p = win
    · subst at_win
      simp [isLive_iff found_t, running]
    · simp only [IsLive, cells p, at_win, false_or]
      cases s.deref p <;> simp
  have alone : front.getLast? ≠ some .desktop := by
    intro last
    have inside := (members .desktop).mp (by rw [split]; simp [List.mem_of_getLast? last])
    have none : parentOf s .desktop = s.desktopWindow.parent := rfl
    rw [inside.2, tree.desktop_parent] at none
    cases none
  have desktop_t : t.desktopWindow.sibling = none := by
    have read : t.deref .desktop = some t.desktopWindow := rfl
    rw [cells, if_neg (Ne.symm below), show s.deref .desktop = some s.desktopWindow from rfl] at read
    have same := congrArg Window.sibling (Option.some.inj read)
    rw [← same]
    simp [alone, tree.alone]
  rcases List.eq_nil_or_concat' front with rfl | ⟨front, x, rfl⟩
  · -- The window is the first child now.
    have first : parent.children = rest.head? := by
      rw [Chain.head chain]
      rfl
    have perm := Forest.insertFirst_perm (a := win) tree.distinct member_q
    refine ⟨T.insertFirst q win, ⟨?_, ?_, fun p => ?_, desktop_t⟩⟩
    · refine tree.shape.insertFirst tree.distinct (linksOf_eq found_parent) ?_ ?_ fun b inside ne => ?_
      · rw [linksOf, cells, if_neg q_win, found_parent]
        simp [Window.links]
      · rw [linksOf_eq found_t]
        simp [Window.links, above, childless, first]
      · have b_win : b ≠ win := fun same => fresh (same ▸ (tree.live b).mp inside)
        rw [linksOf, linksOf, cells, if_neg b_win]
        cases s.deref b <;> simp [ne]
    · exact perm.nodup_iff.mpr (List.nodup_cons.mpr ⟨fun again => fresh ((tree.live win).mp again),
        tree.distinct⟩)
    · rw [perm.mem_iff, List.mem_cons, tree.live, live_iff]
  · -- The window comes behind another child.
    have inside_x : x ∈ kids.roots := by
      rw [split]
      simp
    obtain ⟨live_x, above_x⟩ := (members x).mp inside_x
    obtain ⟨before, found_x, running_x⟩ := live_x
    have live_x : IsLive s x := ⟨before, found_x, running_x⟩
    have member_x := (tree.live x).mpr live_x
    have x_win : x ≠ win := fun same => fresh (same ▸ live_x)
    have follows : before.sibling = rest.head? := by
      rw [List.append_assoc, List.singleton_append, siblingLink_linksOf] at chain
      have next := Chain.next chain
      rw [siblingOf_eq found_x] at next
      exact Option.some.inj next
    rw [parentOf_eq found_x] at above_x
    have perm := Forest.insertBehind_perm (a := win) tree.distinct member_x
    refine ⟨T.insertBehind x win, ⟨?_, ?_, fun p => ?_, desktop_t⟩⟩
    · refine tree.shape.insertBehind tree.distinct (linksOf_eq found_x) ?_ ?_ fun b inside ne => ?_
      · rw [linksOf, cells, if_neg x_win, found_x]
        simp [Window.links]
      · rw [linksOf_eq found_t]
        simp [Window.links, above, childless, above_x, follows]
      · have b_win : b ≠ win := fun same => fresh (same ▸ (tree.live b).mp inside)
        have other : ¬x = b := Ne.symm ne
        rw [linksOf, linksOf, cells, if_neg b_win]
        cases s.deref b <;> simp [other]
    · exact perm.nodup_iff.mpr (List.nodup_cons.mpr ⟨fun again => fresh ((tree.live win).mp again),
        tree.distinct⟩)
    · rw [perm.mem_iff, List.mem_cons, tree.live, live_iff]

/-- The new window is at its place in the list of the children. -/
theorem LinkedCells.chain {t : WindowBlock} {parent : Window} {front rest : List WinPtr}
    (cells : LinkedCells s t win q new front rest) (found_parent : s.deref q = some parent)
    (q_win : q ≠ win) (chain : Chain (siblingOf s) parent.children (front ++ rest))
    (absent : win ∉ front ++ rest) : ChildList t q (front ++ win :: rest) := by
  refine ⟨{ parent with
    children := if front = [] then some win else parent.children
    sibling := if front.getLast? = some q then some win else parent.sibling }, ?_, ?_⟩
  · rw [cells, if_neg q_win, found_parent]
    simp
  · refine Chain.insert chain (a := win) ?_ rfl fun b inside => ?_
    · rw [siblingOf, cells, if_pos rfl]
      rfl
    · have b_win : b ≠ win := fun same => absent (same ▸ inside)
      rw [siblingOf, siblingOf, cells, if_neg b_win]
      have live : ∃ cell, s.deref b = some cell := by
        obtain ⟨r, linked⟩ := Seg.live chain inside
        obtain ⟨cell, found, _⟩ := Option.map_eq_some_iff.mp linked
        exact ⟨cell, found⟩
      obtain ⟨cell, found⟩ := live
      rw [found]
      by_cases last : front.getLast? = some b <;> simp [last]

end Linking

end TwoIne
