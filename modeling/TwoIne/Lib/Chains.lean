import Mathlib.Data.List.Nodup

/-! Linked lists given by a partial successor function, singly and doubly linked. -/

namespace Chains

variable {α : Type*} {link other : α → Option (Option α)}

/--
The path from pointer `p` through the listed nodes ends at pointer `q`.

The successor of a node is absent when the node is not live, and the null pointer when it is the
last.
-/
def Seg (link : α → Option (Option α)) : Option α → List α → Option α → Prop
  | p, [], q => p = q
  | p, a :: rest, q => p = some a ∧ ∃ r, link a = some r ∧ Seg link r rest q

/-- A list of nodes that starts at pointer `p` and ends with the null pointer. -/
def Chain (link : α → Option (Option α)) (p : Option α) (nodes : List α) : Prop :=
  Seg link p nodes none

/-- A path through two runs of nodes meets in the middle. -/
theorem Seg.append_iff {p q : Option α} {front back : List α} :
    Seg link p (front ++ back) q ↔ ∃ r, Seg link p front r ∧ Seg link r back q := by
  -- The first run is walked node by node, and the meeting point is where it ends.
  induction front generalizing p with
  | nil => simp [Seg]
  | cons a front ih =>
    simp only [List.cons_append, Seg, ih]
    grind

/-- A path only depends on the successors of its own nodes. -/
theorem Seg.frame {p q : Option α} {nodes : List α} (path : Seg link p nodes q)
    (same : ∀ a ∈ nodes, other a = link a) : Seg other p nodes q := by
  -- Each node of the path is asked for its successor once.
  induction nodes generalizing p with
  | nil => exact path
  | cons a rest ih =>
    obtain ⟨start, r, linked, path⟩ := path
    have here := same a List.mem_cons_self
    exact ⟨start, r, here.trans linked, ih path fun b member =>
      same b (List.mem_cons_of_mem _ member)⟩

/-- Every node of a path is live. -/
theorem Seg.live {p q : Option α} {nodes : List α} (path : Seg link p nodes q) {a : α}
    (member : a ∈ nodes) : ∃ r, link a = some r := by
  -- A path records the successor of every node it goes through.
  induction nodes generalizing p with
  | nil => cases member
  | cons b rest ih =>
    obtain ⟨_, r, linked, path⟩ := path
    rcases List.mem_cons.mp member with same | member
    · exact ⟨r, same ▸ linked⟩
    · exact ih path member

/-- The successors decide which nodes a chain visits. -/
theorem Chain.unique {p : Option α} {nodes others : List α} (left : Chain link p nodes)
    (right : Chain link p others) : nodes = others := by
  -- Both chains leave each node through the same successor.
  induction nodes generalizing p others with
  | nil =>
    cases others with
    | nil => rfl
    -- A chain that ended cannot go on in the other list.
    | cons b rest => cases left; cases right.1
  | cons a nodes ih =>
    obtain ⟨rfl, r, linked, left⟩ := left
    cases others with
    -- Nor can the first go on where the other has ended.
    | nil => cases right
    | cons b rest =>
      obtain ⟨same, s, linked', right⟩ := right
      cases same
      cases linked.symm.trans linked'
      rw [ih left right]

/-- A chain that reaches the null pointer never comes back to a node. -/
theorem Chain.nodup {p : Option α} {nodes : List α} (chain : Chain link p nodes) : nodes.Nodup := by
  -- A second visit would make the rest of the chain its own proper part.
  induction nodes generalizing p with
  | nil => exact List.nodup_nil
  | cons a nodes ih =>
    obtain ⟨rfl, r, linked, rest⟩ := chain
    refine List.nodup_cons.mpr ⟨fun again => ?_, ih rest⟩
    -- The part after the second visit is as long as the part after the first, which is longer.
    obtain ⟨front, back, split⟩ := List.append_of_mem again
    subst split
    obtain ⟨m, _, tail⟩ := Seg.append_iff.mp rest
    obtain ⟨rfl, s, linked', tail⟩ := tail
    cases linked.symm.trans linked'
    have same := Chain.unique rest tail
    have lengths := congrArg List.length same
    simp at lengths
    omega

/-- The pointer a chain starts at is its first node. -/
theorem Chain.head {p : Option α} {nodes : List α} (chain : Chain link p nodes) :
    p = nodes.head? := by
  cases nodes with
  | nil => exact chain
  | cons a rest => exact chain.1

/-- Pushing a node in front of a chain. -/
theorem Chain.push {p : Option α} {nodes : List α} {a : α} (chain : Chain link p nodes)
    (same : ∀ b ∈ nodes, other b = link b) (linked : other a = some p) :
    Chain other (some a) (a :: nodes) :=
  ⟨rfl, p, linked, Seg.frame chain same⟩

/-- Hanging a node that ends the list behind the last node of a chain. -/
theorem Chain.hang {p : Option α} {front : List α} {last a : α}
    (chain : Chain link p (front ++ [last]))
    (same : ∀ b ∈ front, other b = link b) (hung : other last = some (some a))
    (ends : other a = some none) : Chain other p (front ++ [last] ++ [a]) := by
  -- The path up to the last node is untouched, and the rest is spelled out.
  obtain ⟨r, path, start, _, _, _⟩ := Seg.append_iff.mp chain
  rw [List.append_assoc]
  refine Seg.append_iff.mpr ⟨r, path.frame same, start, some a, hung, rfl, none, ends, rfl⟩

/-- Splitting a chain at one of its nodes. -/
theorem Chain.split {p : Option α} {front back : List α} {a : α}
    (chain : Chain link p (front ++ a :: back)) :
    ∃ r, Seg link p front (some a) ∧ link a = some r ∧ Chain link r back := by
  obtain ⟨m, path, rfl, r, linked, rest⟩ := Seg.append_iff.mp chain
  exact ⟨r, path, linked, rest⟩

/-- Making the node before `a` point past it takes `a` out of the chain. -/
theorem Chain.unlink {p r : Option α} {front back : List α} {before a : α}
    (chain : Chain link p (front ++ before :: a :: back)) (linked : link a = some r)
    (same_front : ∀ b ∈ front, other b = link b) (same_back : ∀ b ∈ back, other b = link b)
    (skipped : other before = some r) : Chain other p (front ++ before :: back) := by
  obtain ⟨m, path, rest⟩ := Seg.append_iff.mp chain
  obtain ⟨start, _, _, _, s, linked', tail⟩ := rest
  cases linked.symm.trans linked'
  exact Seg.append_iff.mpr ⟨m, path.frame same_front, start, r, skipped, tail.frame same_back⟩

/-- The node behind a node of a chain is where the rest of the chain starts. -/
theorem Chain.next {p : Option α} {front rest : List α} {a : α}
    (chain : Chain link p (front ++ a :: rest)) : link a = some rest.head? := by
  -- Splitting at the node leaves its successor in front of the rest.
  obtain ⟨r, _, linked, tail⟩ := Chain.split chain
  rw [linked, Chain.head tail]

/-- A node between two runs makes a chain when the last node of the first run points at it. -/
theorem Chain.insert [DecidableEq α] {p p' : Option α} {front rest : List α} {a : α}
    (chain : Chain link p (front ++ rest)) (linked : other a = some rest.head?)
    (start : p' = if front = [] then some a else p)
    (links : ∀ b ∈ front ++ rest,
      other b = if front.getLast? = some b then some (some a) else link b) :
    Chain other p' (front ++ a :: rest) := by
  have distinct := List.nodup_append.mp (Chain.nodup chain)
  obtain ⟨r, path, tail⟩ := Seg.append_iff.mp chain
  have first := Chain.head tail
  -- The second run is untouched, since the last node of the first run is not in it.
  have tail_kept : Chain other rest.head? rest := by
    rw [← first]
    refine Seg.frame tail fun b member => ?_
    rw [links b (List.mem_append_right _ member), if_neg]
    intro last
    exact distinct.2.2 b (List.mem_of_getLast? last) b member rfl
  rcases List.eq_nil_or_concat' front with rfl | ⟨f, x, rfl⟩
  · -- With nothing in front, the list now starts at the node.
    rw [start, if_pos rfl]
    exact ⟨rfl, rest.head?, linked, tail_kept⟩
  · -- Otherwise the last node of the first run points at it.
    obtain ⟨m, path, begins, _, _, _⟩ := Seg.append_iff.mp path
    rw [start, if_neg (by simp), List.append_assoc]
    refine Seg.append_iff.mpr ⟨m, path.frame fun b member => ?_, begins, some a, ?_, rfl,
      rest.head?,
      linked, tail_kept⟩
    · -- The nodes before the last one keep their successors.
      have apart := (List.nodup_append.mp distinct.1).2.2 b member x (List.mem_singleton_self x)
      rw [links b (by simp [member]), if_neg]
      intro last
      rw [List.getLast?_concat, Option.some.injEq] at last
      exact apart last.symm
    · rw [links x (by simp), if_pos (List.getLast?_concat ..)]

/-- Taking a node out of a chain makes the node before it point past it. -/
theorem Chain.remove [DecidableEq α] {p p' : Option α} {front rest : List α} {a : α}
    (chain : Chain link p (front ++ a :: rest)) (start : p' = if front = [] then rest.head? else p)
    (links : ∀ b ∈ front ++ rest,
      other b = if front.getLast? = some b then some rest.head? else link b) :
    Chain other p' (front ++ rest) := by
  have distinct := List.nodup_append.mp (Chain.nodup chain)
  obtain ⟨r, path, linked, tail⟩ := Chain.split chain
  have first := Chain.head tail
  -- The part behind the node is untouched.
  have tail_kept : Chain other rest.head? rest := by
    rw [← first]
    refine Seg.frame tail fun b member => ?_
    rw [links b (List.mem_append_right _ member), if_neg]
    intro last
    exact distinct.2.2 b (List.mem_of_getLast? last) b (List.mem_cons_of_mem _ member) rfl
  rcases List.eq_nil_or_concat' front with rfl | ⟨f, x, rfl⟩
  · -- With nothing in front, the list now starts behind the node.
    rw [start, if_pos rfl]
    exact tail_kept
  · -- Otherwise the last node of the first run points past it.
    obtain ⟨m, path, begins, _, _, _⟩ := Seg.append_iff.mp path
    rw [start, if_neg (by simp), List.append_assoc]
    refine Seg.append_iff.mpr ⟨m, path.frame fun b member => ?_, begins, rest.head?, ?_, tail_kept⟩
    · -- The nodes before the last one keep their successors.
      have apart := (List.nodup_append.mp distinct.1).2.2 b member x (List.mem_singleton_self x)
      rw [links b (by simp [member]), if_neg]
      intro last
      rw [List.getLast?_concat, Option.some.injEq] at last
      exact apart last.symm
    · rw [links x (by simp), if_pos (List.getLast?_concat ..)]

/-- The back pointers of a list: each node points to its predecessor, the first one to `p`. -/
def Backs (back : α → Option (Option α)) : Option α → List α → Prop
  | _, [] => True
  | p, a :: rest => back a = some p ∧ Backs back (some a) rest

variable {back earlier : α → Option (Option α)}

/-- The back pointers of two runs of nodes meet in the middle. -/
theorem Backs.append_iff {p : Option α} {front rest : List α} :
    Backs back p (front ++ rest) ↔ Backs back p front ∧ Backs back (front.getLast?.or p) rest := by
  -- The predecessor of the second run is the last node of the first, if it has one.
  induction front generalizing p with
  | nil => simp [Backs]
  | cons a front ih =>
    have last : (a :: front).getLast?.or p = front.getLast?.or (some a) := by
      cases front <;> simp [List.getLast?_cons]
    rw [List.cons_append, Backs, Backs, ih, last]
    exact and_assoc.symm

/-- Back pointers only depend on the nodes themselves. -/
theorem Backs.frame {p : Option α} {nodes : List α} (backs : Backs back p nodes)
    (same : ∀ a ∈ nodes, earlier a = back a) : Backs earlier p nodes := by
  -- Each node is asked for its predecessor once.
  induction nodes generalizing p with
  | nil => trivial
  | cons a rest ih =>
    refine ⟨(same a List.mem_cons_self).trans backs.1, ih backs.2 fun b member => ?_⟩
    exact same b (List.mem_cons_of_mem _ member)

/-- A list that is linked forth and back, starting at pointer `p`. -/
structure Dll (link back : α → Option (Option α)) (p : Option α) (nodes : List α) : Prop where
  forth : Chain link p nodes
  backs : Backs back none nodes

/-- The empty list is linked forth and back. -/
theorem Dll.nil : Dll link back none [] := ⟨rfl, trivial⟩

/-- A doubly linked list only depends on the links of its own nodes. -/
theorem Dll.frame {p : Option α} {nodes : List α} (list : Dll link back p nodes)
    (same : ∀ a ∈ nodes, other a = link a) (same_back : ∀ a ∈ nodes, earlier a = back a) :
    Dll other earlier p nodes :=
  ⟨Seg.frame list.forth same, list.backs.frame same_back⟩

/-- A node of a doubly linked list points back to its predecessor. -/
theorem Dll.prev {p : Option α} {front rest : List α} {a : α}
    (list : Dll link back p (front ++ a :: rest)) : back a = some front.getLast? := by
  -- The node follows the first run, so it points back to the last node of it.
  have backs := (Backs.append_iff.mp list.backs).2
  simpa using backs.1

/-- The node that a doubly linked list starts at is the one without a predecessor. -/
theorem Dll.first_iff {p prev : Option α} {front rest : List α} {a : α}
    (list : Dll link back p (front ++ a :: rest)) (backed : back a = some prev) :
    p = some a ↔ prev = none := by
  cases list.prev.symm.trans backed
  -- The predecessor is the last node in front, and there is none exactly when nothing is in front.
  have start := Chain.head list.forth
  have distinct := Chain.nodup list.forth
  cases front with
  | nil => simp [start]
  | cons b front =>
    -- The list starts at another node.
    have other : b ≠ a := by
      rintro rfl
      simp at distinct
    simp [start, other, List.getLast?_cons]

/-- Pushing a node in front links the old first node back to it. -/
theorem Dll.push [DecidableEq α] {p : Option α} {nodes : List α} {a : α}
    (list : Dll link back p nodes)
    (linked : other a = some p) (backed : earlier a = some none)
    (same : ∀ b ∈ nodes, other b = link b)
    (same_back : ∀ b ∈ nodes, earlier b = if p = some b then some (some a) else back b) :
    Dll other earlier (some a) (a :: nodes) := by
  refine ⟨list.forth.push same linked, backed, ?_⟩
  -- Only the old first node gets a new predecessor.
  cases nodes with
  | nil => trivial
  | cons b rest =>
    have start : p = some b := Chain.head list.forth
    have distinct := List.nodup_cons.mp (Chain.nodup list.forth)
    refine ⟨by rw [same_back b List.mem_cons_self, if_pos start],
      list.backs.2.frame fun c member => ?_⟩
    rw [same_back c (List.mem_cons_of_mem _ member), if_neg]
    intro same
    cases start.symm.trans same
    exact distinct.1 member

/--
Unlinking a node makes its neighbours point past it.

The successor of its predecessor becomes its successor, or the list starts there, and the other way
round.
-/
theorem Dll.unlink [DecidableEq α] {p p' next prev : Option α} {front rest : List α} {a : α}
    (list : Dll link back p (front ++ a :: rest)) (linked : link a = some next)
    (backed : back a = some prev) (start : p' = if prev = none then next else p)
    (links : ∀ b, b ≠ a → other b = if prev = some b then some next else link b)
    (backs : ∀ b, b ≠ a → earlier b = if next = some b then some prev else back b) :
    Dll other earlier p' (front ++ rest) := by
  cases list.prev.symm.trans backed
  have linked' := Chain.next list.forth
  cases linked'.symm.trans linked
  have distinct := List.nodup_append.mp (Chain.nodup list.forth)
  obtain ⟨front_nodup, after_nodup, apart⟩ := distinct
  obtain ⟨a_rest, rest_nodup⟩ := List.nodup_cons.mp after_nodup
  have front_ne : ∀ b ∈ front, b ≠ a := fun b member => apart b member a List.mem_cons_self
  have rest_ne : ∀ b ∈ rest, b ≠ a := fun b member same => a_rest (same ▸ member)
  have across : ∀ b ∈ front, ∀ c ∈ rest, b ≠ c := fun b in_front c in_rest =>
    apart b in_front c (List.mem_cons_of_mem _ in_rest)
  constructor
  · -- Forth, this is taking the node out of a chain.
    have empty : front.getLast? = none ↔ front = [] := List.getLast?_eq_none_iff
    refine Chain.remove list.forth (by rw [start]; simp only [empty]) fun b member => links b ?_
    rcases List.mem_append.mp member with member | member
    · exact front_ne b member
    · exact rest_ne b member
  · -- Only the successor gets a new predecessor.
    obtain ⟨front_backs, _, rest_backs⟩ := Backs.append_iff.mp list.backs
    refine Backs.append_iff.mpr ⟨front_backs.frame fun b member => ?_, ?_⟩
    · rw [backs b (front_ne b member), if_neg]
      intro first
      exact across b member b (List.mem_of_head? first) rfl
    · cases rest with
      | nil => trivial
      | cons y ys =>
        refine ⟨by rw [backs y (rest_ne y List.mem_cons_self), List.head?_cons, if_pos rfl,
          Option.or_none], ?_⟩
        refine rest_backs.2.frame fun c member => ?_
        rw [backs c (rest_ne c (List.mem_cons_of_mem _ member)), if_neg]
        intro first
        cases first
        exact (List.nodup_cons.mp rest_nodup).1 member

end Chains
