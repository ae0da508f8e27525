import Mathlib.Data.List.Basic
import TwoIne.Lib.Chains
import TwoIne.Lib.Forests
import TwoIne.PmWin.Windows

/-! What the calls for windows do to single windows, and to the list of siblings they work on. -/

namespace TwoIne

open Chains Forests

/-- The pointer to the next sibling of a window. -/
def siblingOf (s : WindowBlock) (p : WinPtr) : Option (Option WinPtr) :=
  (s.deref p).map Window.sibling

/-- The pointers that make up the tree. -/
def Window.links (cell : Window) : Links WinPtr := ⟨cell.parent, cell.children, cell.sibling⟩

/-- The pointers of all windows that can be reached through a pointer. -/
def linksOf (s : WindowBlock) (p : WinPtr) : Option (Links WinPtr) := (s.deref p).map Window.links

/-- Nothing but the contents of windows changed. -/
structure SameBlock (s t : WindowBlock) : Prop where
  windows : t.windows = s.windows
  slots : t.windowsArray.length = s.windowsArray.length
  presSpaces : t.presSpaces = s.presSpaces

/-- Doing nothing changes nothing. -/
theorem SameBlock.refl (s : WindowBlock) : SameBlock s s := ⟨rfl, rfl, rfl⟩

/-- One change after another. -/
theorem SameBlock.trans {s t u : WindowBlock} (first : SameBlock s t) (second : SameBlock t u) :
    SameBlock s u :=
  ⟨second.windows.trans first.windows, second.slots.trans first.slots,
    second.presSpaces.trans first.presSpaces⟩

/-- The links of a window that is there. -/
theorem linksOf_eq {s : WindowBlock} {p : WinPtr} {cell : Window} (found : s.deref p = some cell) :
    linksOf s p = some cell.links := by
  rw [linksOf, found]
  rfl

/-- The sibling pointers are those among all pointers of the tree. -/
theorem siblingLink_linksOf (s : WindowBlock) : siblingLink (linksOf s) = siblingOf s := by
  funext p
  simp only [siblingLink, linksOf, siblingOf, Option.map_map]
  rfl

/-- A window that is there has a sibling pointer. -/
theorem siblingOf_eq {s : WindowBlock} {p : WinPtr} {cell : Window}
    (found : s.deref p = some cell) : siblingOf s p = some cell.sibling := by
  rw [siblingOf, found]
  rfl

/-- A window with links is there. -/
theorem linksOf_eq_some {s : WindowBlock} {p : WinPtr} {l : Links WinPtr} :
    linksOf s p = some l ↔ ∃ cell, s.deref p = some cell ∧ cell.links = l := by
  simp [linksOf]

/-- Overwriting a window that is there concerns that window alone. -/
theorem deref_store {s : WindowBlock} {p : WinPtr} {cell : Window} (found : s.deref p = some cell)
    (new : Window) (b : WinPtr) :
    (s.store p new).deref b = if b = p then some new else s.deref b := by
  cases p with
  | desktop => cases b <;> rfl
  | element windows idx =>
    -- The pointer leads into the array of today, to a slot that is there.
    obtain ⟨rfl, slot⟩ : windows = s.windows ∧ s.windowsArray[idx]? = some cell := by
      simpa [WindowBlock.deref] using found
    have inside : idx < s.windowsArray.length := (List.getElem?_eq_some_iff.mp slot).1
    cases b with
    | desktop => simp [WindowBlock.store, WindowBlock.deref]
    | element windows' idx' =>
      simp only [WindowBlock.store, WindowBlock.deref, WinPtr.element.injEq, List.getElem?_set]
      grind

/-- Overwriting a window changes nothing but its contents. -/
theorem sameBlock_store (s : WindowBlock) (p : WinPtr) (new : Window) :
    SameBlock s (s.store p new) := by
  cases p with
  | desktop => exact ⟨rfl, rfl, rfl⟩
  | element windows idx => exact ⟨rfl, by simp [WindowBlock.store], rfl⟩

/-- A window that is there can be changed. -/
theorem modify_spec {s : WindowBlock} {p : WinPtr} {cell : Window} (found : s.deref p = some cell)
    (f : Window → Window) :
    ∃ t, s.modify p f = some t ∧ SameBlock s t ∧
      ∀ b, t.deref b = if b = p then some (f cell) else s.deref b :=
  ⟨s.store p (f cell), by simp [WindowBlock.modify, found], sameBlock_store s p _,
    deref_store found _⟩

/-- The loop to the last sibling comes to the end of the list. -/
theorem lastSibling_spec {s : WindowBlock} {p : Option WinPtr} {kids : List WinPtr}
    (prev : Option WinPtr) (chain : Chain (siblingOf s) p kids) {steps : Nat} (enough : kids.length < steps) :
    lastSibling s steps prev p = some (kids.getLast?.or prev) := by
  -- Each sibling costs one step and becomes the last one seen.
  induction kids generalizing p prev steps with
  | nil =>
    have ends : p = none := chain
    obtain ⟨steps, rfl⟩ := Nat.exists_eq_add_of_lt enough
    simp [ends, lastSibling]
  | cons a rest ih =>
    obtain ⟨rfl, r, linked, chain⟩ := chain
    obtain ⟨cell, found, rfl⟩ := Option.map_eq_some_iff.mp linked
    cases steps with
    | zero => simp at enough
    | succ steps =>
      have later := ih (some a) chain (by simpa using enough : rest.length < steps)
      simp only [lastSibling, found, later]
      cases rest with
      | nil => rfl
      | cons b rest => simp [List.getLast?_cons]

/-- The loop for a window that is in no list ends without having found it. -/
theorem unlinkSibling_absent {s : WindowBlock} {win : WinPtr} {p : Option WinPtr}
    {kids : List WinPtr} (next : Option WinPtr) (chain : Chain (siblingOf s) p kids) (absent : win ∉ kids) {steps : Nat}
    (enough : kids.length < steps) : unlinkSibling win next steps p s = some s := by
  induction kids generalizing p steps with
  | nil =>
    have ends : p = none := chain
    obtain ⟨steps, rfl⟩ := Nat.exists_eq_add_of_lt enough
    simp [ends, unlinkSibling]
  | cons a rest ih =>
    obtain ⟨rfl, r, linked, chain⟩ := chain
    obtain ⟨cell, found, rfl⟩ := Option.map_eq_some_iff.mp linked
    simp only [List.mem_cons, not_or] at absent
    cases steps with
    | zero => simp at enough
    | succ steps =>
      -- What follows the sibling is another one, or nothing.
      have apart : cell.sibling ≠ some win := by
        intro same
        rw [Chain.head chain] at same
        exact absent.2 (List.mem_of_head? same)
      rw [unlinkSibling, if_neg (Ne.symm absent.1)]
      simp only [found, if_neg apart]
      exact ih chain absent.2 (by simpa using enough)

/-- The loop makes the sibling in front of a window point past it. -/
theorem unlinkSibling_spec {s : WindowBlock} {win x : WinPtr} {p : Option WinPtr}
    {front rest : List WinPtr} (next : Option WinPtr)
    (chain : Chain (siblingOf s) p (front ++ x :: win :: rest))
    {steps : Nat} (enough : front.length < steps) :
    unlinkSibling win next steps p s = s.modify x fun cell => { cell with sibling := next } := by
  have distinct := Chain.nodup chain
  induction front generalizing p steps with
  | nil =>
    -- The first sibling is the one in front of the window.
    obtain ⟨steps, rfl⟩ := Nat.exists_eq_add_of_lt enough
    obtain ⟨rfl, r, linked, follows, _⟩ := chain
    obtain ⟨cell, found, rfl⟩ := Option.map_eq_some_iff.mp linked
    have apart : x ≠ win := by simp at distinct; grind
    simp [unlinkSibling, apart, found, follows]
  | cons a front ih =>
    obtain ⟨rfl, r, linked, chain⟩ := chain
    obtain ⟨cell, found, rfl⟩ := Option.map_eq_some_iff.mp linked
    cases steps with
    | zero => simp at enough
    | succ steps =>
      have later := (List.nodup_cons.mp distinct).2
      have apart : a ≠ win := by
        rintro rfl
        exact (List.nodup_cons.mp distinct).1 (by simp)
      -- The sibling behind this one comes before the window.
      have other : cell.sibling ≠ some win := by
        intro same
        rw [Chain.head chain] at same
        cases front with
        | nil => simp at same later; grind
        | cons b front => simp at same later; grind
      rw [unlinkSibling, if_neg apart]
      simp only [found, if_neg other]
      exact ih chain (by simpa using enough) later

/-- Pointing past a window, to its next sibling. -/
def Window.pointPast (win : WinPtr) (next : Option WinPtr) (cell : Window) : Window :=
  { cell with
    children := if cell.children = some win then next else cell.children
    sibling := if cell.sibling = some win then next else cell.sibling }

/--
What unlinking a window does: the pointer that led to it from its parent or from the sibling in
front leads past it, and the slot is clear.
-/
theorem unlinkWindow_spec {s : WindowBlock} {win q : WinPtr} {cell parent : Window}
    {front rest : List WinPtr} (found : s.deref win = some cell) (above : cell.parent = some q)
    (found_parent : s.deref q = some parent)
    (chain : Chain (siblingOf s) parent.children (front ++ win :: rest)) (apart : q ≠ win)
    (enough : front.length ≤ s.windowsArray.length + 1) :
    ∃ t, unlinkWindow win s = some t ∧ SameBlock s t ∧
      ∀ b, t.deref b = if b = win then some {} else (s.deref b).map fun old =>
        { old with
          children := if b = q ∧ front = [] then cell.sibling else old.children
          sibling := if front.getLast? = some b then cell.sibling else old.sibling } := by
  have distinct := Chain.nodup chain
  have first := Chain.head chain
  rcases List.eq_nil_or_concat' front with rfl | ⟨front, x, rfl⟩
  · -- The window is the first of the list.
    obtain ⟨t, stored, same, read⟩ :=
      modify_spec found_parent fun parent => { parent with children := cell.sibling }
    have found_t : t.deref win = some cell := by rw [read, if_neg (Ne.symm apart), found]
    obtain ⟨u, cleared, same', read'⟩ := modify_spec found_t fun _ => {}
    refine ⟨u, ?_, same.trans same', fun b => ?_⟩
    · have starts : parent.children = some win := by simpa using first
      simp [unlinkWindow, found, above, found_parent, starts, stored, cleared]
    · rw [read', read]
      by_cases at_win : b = win
      · simp [at_win]
      · by_cases at_parent : b = q
        · simp [at_parent, found_parent, apart]
        · cases s.deref b <;> simp [at_win, at_parent]
  · -- The list starts with another one, and the loop finds the sibling in front of the window.
    rw [List.append_assoc, List.singleton_append] at chain
    obtain ⟨r, _, linked, _⟩ := Chain.split chain
    obtain ⟨before, found_x, _⟩ := Option.map_eq_some_iff.mp linked
    have apart_x : x ≠ win := by simp at distinct; grind
    have starts : parent.children ≠ some win := by
      rw [first]
      cases front <;> simp at distinct ⊢ <;> grind
    obtain ⟨t, stored, same, read⟩ :=
      modify_spec found_x fun before => { before with sibling := cell.sibling }
    have found_t : t.deref win = some cell := by rw [read, if_neg (Ne.symm apart_x), found]
    obtain ⟨u, cleared, same', read'⟩ := modify_spec found_t fun _ => {}
    refine ⟨u, ?_, same.trans same', fun b => ?_⟩
    · have short : front.length < s.windowsArray.length + 1 := by
        simp at enough
        omega
      have walked := unlinkSibling_spec cell.sibling chain short
      simp [unlinkWindow, found, above, found_parent, starts, walked, stored, cleared]
    · rw [read', read]
      by_cases at_win : b = win
      · simp [at_win]
      · by_cases at_x : b = x
        · simp [at_x, found_x, apart_x]
        · have other : ¬x = b := Ne.symm at_x
          cases s.deref b <;> simp [at_win, at_x, other]

/-- Whether a place in a list of siblings is the one that was asked for. -/
def ZOrder.Splits (front rest : List WinPtr) : ZOrder → Prop
  | .top => front = []
  | .bottom => rest = []
  | .behind insertBehind => front.getLast? = some insertBehind

/--
What linking a window does: it gets the sibling that comes behind it, and the pointer at its place
leads to it, from its parent or from the sibling in front.
-/
theorem linkWindow_spec {s : WindowBlock} {win q : WinPtr} {cell parent : Window}
    {kids : List WinPtr} (found : s.deref win = some cell) (alone : cell.sibling = none)
    (found_parent : s.deref q = some parent)
    (chain : Chain (siblingOf s) parent.children kids) (apart : q ≠ win) (absent : win ∉ kids)
    (enough : kids.length ≤ s.windowsArray.length) {place : ZOrder}
    (among : ∀ b, place = .behind b → kids ≠ [] → b ∈ kids) :
    ∃ t front rest, linkWindow win q place s = some t ∧ SameBlock s t ∧ kids = front ++ rest ∧
      (kids ≠ [] → place.Splits front rest) ∧
      ∀ b, t.deref b = if b = win then some { cell with sibling := rest.head? }
        else (s.deref b).map fun old =>
          { old with
            children := if b = q ∧ front = [] then some win else old.children
            sibling := if front.getLast? = some b then some win else old.sibling } := by
  have first := Chain.head chain
  have unlinked : cell = { cell with sibling := none } := by rw [← alone]
  by_cases empty : kids = []
  · -- The window is the only child.
    subst empty
    have starts : parent.children = none := first
    obtain ⟨t, stored, same, read⟩ :=
      modify_spec found_parent fun parent => { parent with children := some win }
    refine ⟨t, [], [], ?_, same, rfl, by simp, fun b => ?_⟩
    · simp [linkWindow, found_parent, starts, stored]
    · rw [read]
      by_cases at_win : b = win
      · rw [at_win, if_neg (Ne.symm apart), found, if_pos rfl]
        exact congrArg some unlinked
      · by_cases at_parent : b = q
        · simp [at_parent, found_parent, apart]
        · cases s.deref b <;> simp [at_win, at_parent]
  · have starts : parent.children ≠ none := by
      rw [first]
      simpa using empty
    cases place with
    | top =>
      obtain ⟨t, stored, same, read⟩ :=
        modify_spec found fun new => { new with sibling := parent.children }
      have found_t : t.deref q = some parent := by rw [read, if_neg apart, found_parent]
      obtain ⟨u, stored', same', read'⟩ :=
        modify_spec found_t fun parent => { parent with children := some win }
      refine ⟨u, [], kids, ?_, same.trans same', rfl, fun _ => rfl, fun b => ?_⟩
      · simp [linkWindow, found_parent, starts, stored, stored']
      · rw [read', read]
        by_cases at_win : b = win
        · simp [at_win, Ne.symm apart, first]
        · by_cases at_parent : b = q
          · simp [at_parent, found_parent, apart]
          · cases s.deref b <;> simp [at_win, at_parent]
    | bottom =>
      obtain ⟨front, x, rfl⟩ := (List.eq_nil_or_concat' kids).resolve_left empty
      obtain ⟨r, _, linked, _⟩ := Chain.split chain
      obtain ⟨before, found_x, _⟩ := Option.map_eq_some_iff.mp linked
      have apart_x : x ≠ win := by
        rintro rfl
        simp at absent
      obtain ⟨t, stored, same, read⟩ :=
        modify_spec found_x fun last => { last with sibling := some win }
      refine ⟨t, front ++ [x], [], ?_, same, by simp, fun _ => rfl, fun b => ?_⟩
      · have walked := lastSibling_spec none chain (Nat.lt_succ_of_le enough)
        simp [linkWindow, found_parent, starts, walked, stored]
      · rw [read]
        by_cases at_win : b = win
        · rw [at_win, if_neg (Ne.symm apart_x), found, if_pos rfl]
          exact congrArg some unlinked
        · by_cases at_x : b = x
          · simp [at_x, found_x, apart_x]
          · have other : ¬x = b := Ne.symm at_x
            cases s.deref b <;> simp [at_win, at_x, other]
    | behind x =>
      obtain ⟨front, rest, rfl⟩ := List.append_of_mem (among x rfl empty)
      have linked : siblingOf s x = some rest.head? := Chain.next chain
      obtain ⟨before, found_x, follows⟩ := Option.map_eq_some_iff.mp linked
      have apart_x : x ≠ win := by
        rintro rfl
        simp at absent
      obtain ⟨t, stored, same, read⟩ :=
        modify_spec found fun new => { new with sibling := before.sibling }
      have found_t : t.deref x = some before := by rw [read, if_neg apart_x, found_x]
      obtain ⟨u, stored', same', read'⟩ :=
        modify_spec found_t fun before => { before with sibling := some win }
      refine ⟨u, front ++ [x], rest, ?_, same.trans same', by simp, fun _ => by
        simp [ZOrder.Splits], fun b => ?_⟩
      · simp [linkWindow, found_parent, starts, found_x, stored, stored']
      · rw [read', read]
        by_cases at_win : b = win
        · simp [at_win, Ne.symm apart_x, follows]
        · by_cases at_x : b = x
          · simp [at_x, found_x, apart_x]
          · have other : ¬x = b := Ne.symm at_x
            cases s.deref b <;> simp [at_win, at_x, other]

/-- A list of siblings is destroyed with everything below them; their parent has no children left. -/
theorem destroyChildren_spec {F : Forest WinPtr} {s : WindowBlock} {q : WinPtr} {parent : Window}
    {steps : Nat} (enough : 2 * F.nodes.length < steps) (found_parent : s.deref q = some parent)
    (shape : Shape (linksOf s) (some q) parent.children F) (distinct : F.nodes.Nodup)
    (apart : q ∉ F.nodes)
    (live : ∀ a ∈ F.nodes, ∀ cell, s.deref a = some cell → cell.hwnd ≠ nullHandle) :
    ∃ t, destroyChildren steps parent.children s = some t ∧ SameBlock s t ∧
      ∀ b, t.deref b = if b ∈ F.nodes then some {}
        else if b = q then some { parent with children := none } else s.deref b := by
  induction F generalizing s q parent steps with
  | nil =>
    have ends : parent.children = none := shape
    obtain ⟨steps, rfl⟩ := Nat.exists_eq_add_of_lt enough
    have unchanged : parent = { parent with children := none } := by rw [← ends]
    refine ⟨s, by simp [ends, destroyChildren], .refl s, fun b => ?_⟩
    by_cases at_parent : b = q
    · rw [at_parent, found_parent, if_neg (by simp [Forest.nodes]), if_pos rfl, ← unchanged]
    · simp [Forest.nodes, at_parent]
  | node a kids rest ih_kids ih_rest =>
    obtain ⟨starts, l, linked, above, down, along⟩ := shape
    obtain ⟨cell, found, rfl⟩ := linksOf_eq_some.mp linked
    obtain ⟨a_kids, a_rest, kids_nodup, rest_nodup, disjoint⟩ := Forest.nodup_node.mp distinct
    simp only [Forest.nodes, List.mem_cons, List.mem_append, not_or] at apart live
    obtain ⟨apart, q_kids, q_rest⟩ := apart
    simp only [Forest.nodes, List.length_cons, List.length_append] at enough
    have running : cell.hwnd ≠ nullHandle := live a (.inl rfl) cell found
    obtain ⟨steps, rfl⟩ : ∃ n, steps = n + 2 := ⟨steps - 2, by omega⟩
    -- First everything below the sibling is destroyed.
    have enough_kids : 2 * kids.nodes.length < steps := by omega
    obtain ⟨t, destroyed, same, read⟩ := ih_kids enough_kids found down kids_nodup a_kids
      fun b member => live b (.inr (.inl member))
    have found_t : t.deref a = some { cell with children := none } := by
      rw [read, if_neg a_kids, if_pos rfl]
    have parent_t : t.deref q = some parent := by
      rw [read, if_neg q_kids, if_neg apart, found_parent]
    -- Then the sibling is unlinked, which is the first of the list now.
    have chain_t : Chain (siblingOf t) parent.children ([] ++ a :: rest.roots) := by
      refine ⟨starts, cell.sibling, by rw [siblingOf_eq found_t], ?_⟩
      have rest_chain := along.chain
      rw [siblingLink_linksOf] at rest_chain
      refine rest_chain.frame fun b member => ?_
      have inside := rest.roots_subset member
      have b_a : b ≠ a := fun again => a_rest (again ▸ inside)
      rw [siblingOf, siblingOf, read, if_neg fun again => disjoint b again inside, if_neg b_a]
    obtain ⟨u, unlinked, same', read'⟩ :=
      unlinkWindow_spec found_t above parent_t chain_t apart (by simp)
    have parent_u : u.deref q = some { parent with children := cell.sibling } := by
      rw [read', if_neg apart, parent_t]
      simp
    have along_u : Shape (linksOf u) (some q) cell.sibling rest := by
      refine along.frame fun b member => ?_
      have b_a : b ≠ a := fun again => a_rest (again ▸ member)
      have b_q : b ≠ q := fun again => q_rest (again ▸ member)
      rw [linksOf, linksOf, read', if_neg b_a, read, if_neg fun again => disjoint b again member,
        if_neg b_a]
      cases s.deref b <;> simp [b_q]
    -- The other siblings are destroyed the same way.
    have enough_rest : 2 * rest.nodes.length < steps + 1 := by omega
    obtain ⟨v, destroyed', same'', read''⟩ := ih_rest enough_rest parent_u along_u rest_nodup
      q_rest fun b member cell' found' => by
        have b_a : b ≠ a := fun again => a_rest (again ▸ member)
        have b_q : b ≠ q := fun again => q_rest (again ▸ member)
        rw [read', if_neg b_a, read, if_neg fun again => disjoint b again member, if_neg b_a]
          at found'
        obtain ⟨old, found_b, rfl⟩ := Option.map_eq_some_iff.mp found'
        exact live b (.inr (.inr member)) old found_b
    refine ⟨v, ?_, (same.trans same').trans same'', fun b => ?_⟩
    · simp only [starts, destroyChildren, found, destroyWindow, if_neg running, destroyed,
        Option.bind_some, unlinked]
      exact destroyed'
    · rw [read'', read', read]
      simp only [Forest.nodes, List.mem_cons, List.mem_append]
      by_cases in_rest : b ∈ rest.nodes
      · simp [in_rest]
      · by_cases b_q : b = q
        · simp [b_q, q_rest, apart, q_kids]
        · by_cases b_a : b = a
          · simp [b_a, a_rest, Ne.symm apart]
          · by_cases in_kids : b ∈ kids.nodes
            · simp [in_rest, b_q, b_a, in_kids]
            · cases s.deref b <;> simp [in_rest, b_q, b_a, in_kids]

end TwoIne
