import Mathlib.Data.List.Nodup
import Mathlib.Logic.Relation
import TwoIne.Lib.Chains

/-!
Trees in memory: nodes that point to their parent, to their first child and to their next sibling.
-/

namespace Forests

open Chains

/-- The nodes of a list of siblings, each with what is below it. -/
inductive Forest (α : Type*) where
  | nil
  | node (root : α) (kids rest : Forest α)

variable {α : Type*}

namespace Forest

/-- All nodes, each in front of what is below it. -/
def nodes : Forest α → List α
  | nil => []
  | node a kids rest => a :: (kids.nodes ++ rest.nodes)

/-- The siblings at the top. -/
def roots : Forest α → List α
  | nil => []
  | node a _ rest => a :: rest.roots

variable [DecidableEq α]

/-- What is below a node. -/
def under (a : α) : Forest α → Forest α
  | nil => nil
  | node b kids rest =>
    if b = a then kids
    else if a ∈ kids.nodes then kids.under a
    else rest.under a

/-- The forest without a node and what is below it. -/
def remove (a : α) : Forest α → Forest α
  | nil => nil
  | node b kids rest => if b = a then rest else node b (kids.remove a) (rest.remove a)

/-- A new leaf as the first child of a node. -/
def insertFirst (q a : α) : Forest α → Forest α
  | nil => nil
  | node b kids rest =>
    if b = q then node b (node a nil kids) rest
    else node b (kids.insertFirst q a) (rest.insertFirst q a)

/-- A new leaf behind one of its siblings. -/
def insertBehind (x a : α) : Forest α → Forest α
  | nil => nil
  | node b kids rest =>
    if b = x then node b kids (node a nil rest)
    else node b (kids.insertBehind x a) (rest.insertBehind x a)

end Forest

/-- The pointers of a node. -/
@[ext] structure Links (α : Type*) where
  parent : Option α
  children : Option α
  sibling : Option α
  deriving DecidableEq

/--
The forest that a pointer leads to, whose top nodes have the given parent.

A node without links is not live.
-/
def Shape (links : α → Option (Links α)) (parent : Option α) : Option α → Forest α → Prop
  | p, .nil => p = none
  | p, .node a kids rest =>
    p = some a ∧ ∃ l, links a = some l ∧ l.parent = parent ∧
      Shape links (some a) l.children kids ∧ Shape links parent l.sibling rest

/-- A node is somewhere below another one, or it is that one. -/
def Climbs (links : α → Option (Links α)) : α → α → Prop :=
  Relation.ReflTransGen fun a b => (links a).bind Links.parent = some b

/-- The pointer to the next sibling of a live node. -/
def siblingLink (links : α → Option (Links α)) (a : α) : Option (Option α) :=
  (links a).map Links.sibling

section Reading

variable {links other : α → Option (Links α)} {parent p : Option α} {F : Forest α}

/-- The top nodes are nodes. -/
theorem Forest.roots_subset (F : Forest α) : F.roots ⊆ F.nodes := by
  -- Each sibling is in front of what is below it.
  induction F with
  | nil => simp [Forest.roots]
  | node a kids rest _ ih =>
    intro b member
    rcases List.mem_cons.mp member with rfl | member
    · exact List.mem_cons_self
    · exact List.mem_cons_of_mem _ (List.mem_append_right _ (ih member))

/-- The two parts of a forest with distinct nodes have no node in common. -/
theorem Forest.nodup_node {b : α} {kids rest : Forest α} :
    (node b kids rest).nodes.Nodup ↔ b ∉ kids.nodes ∧ b ∉ rest.nodes ∧ kids.nodes.Nodup ∧
      rest.nodes.Nodup ∧ ∀ x ∈ kids.nodes, x ∉ rest.nodes := by
  simp only [Forest.nodes, List.nodup_cons, List.nodup_append, List.mem_append, not_or]
  grind

/-- A forest only depends on the links of its own nodes. -/
theorem Shape.frame (shape : Shape links parent p F) (same : ∀ a ∈ F.nodes, other a = links a) :
    Shape other parent p F := by
  -- Each node is asked for its links once.
  induction F generalizing parent p with
  | nil => exact shape
  | node a kids rest ih_kids ih_rest =>
    obtain ⟨start, l, linked, above, down, along⟩ := shape
    refine ⟨start, l, (same a (by simp [Forest.nodes])).trans linked, above, ?_, ?_⟩
    · exact ih_kids down fun b member => same b (by simp [Forest.nodes, member])
    · exact ih_rest along fun b member => same b (by simp [Forest.nodes, member])

/-- Every node of a forest is live. -/
theorem Shape.live (shape : Shape links parent p F) {a : α} (member : a ∈ F.nodes) :
    ∃ l, links a = some l := by
  -- The forest records the links of every node it goes through.
  induction F generalizing parent p with
  | nil => cases member
  | node b kids rest ih_kids ih_rest =>
    obtain ⟨_, l, linked, _, down, along⟩ := shape
    simp only [Forest.nodes, List.mem_cons, List.mem_append] at member
    rcases member with rfl | member | member
    · exact ⟨l, linked⟩
    · exact ih_kids down member
    · exact ih_rest along member

/-- The links decide which forest a pointer leads to. -/
theorem Shape.unique {G : Forest α} {above : Option α} (left : Shape links parent p F)
    (right : Shape links above p G) : F = G := by
  -- Both forests leave each node through the same links.
  induction F generalizing parent above p G with
  | nil =>
    cases G with
    | nil => rfl
    | node b kids rest => cases left; cases right.1
  | node a kids rest ih_kids ih_rest =>
    obtain ⟨rfl, l, linked, _, down, along⟩ := left
    cases G with
    | nil => cases right
    | node b kids' rest' =>
      obtain ⟨same, l', linked', _, down', along'⟩ := right
      cases same
      cases linked.symm.trans linked'
      rw [ih_kids down down', ih_rest along along']

/-- The siblings at the top are a chain. -/
theorem Shape.chain (shape : Shape links parent p F) : Chain (siblingLink links) p F.roots := by
  induction F generalizing parent p with
  | nil => exact shape
  | node a kids rest _ ih =>
    obtain ⟨start, l, linked, _, _, along⟩ := shape
    exact ⟨start, l.sibling, by rw [siblingLink, linked]; rfl, ih along⟩

/-- A pointer to a forest is null or leads to one of its nodes. -/
theorem Shape.start (shape : Shape links parent p F) : p = F.roots.head? :=
  shape.chain.head

/-- The siblings at the top have the parent of the forest. -/
theorem Shape.parent_of_root (shape : Shape links parent p F) {a : α} (member : a ∈ F.roots) :
    ∃ l, links a = some l ∧ l.parent = parent := by
  induction F generalizing parent p with
  | nil => cases member
  | node b kids rest _ ih =>
    obtain ⟨_, l, linked, above, _, along⟩ := shape
    rcases List.mem_cons.mp member with rfl | member
    · exact ⟨l, linked, above⟩
    · exact ih along member

/-- What is below a node is a forest of its own, within the whole one. -/
theorem Shape.kids (shape : Shape links parent p F) {q : α} (member : q ∈ F.nodes) :
    ∃ l kids, links q = some l ∧ Shape links (some q) l.children kids ∧ kids.nodes ⊆ F.nodes := by
  induction F generalizing parent p with
  | nil => cases member
  | node b kids rest ih_kids ih_rest =>
    obtain ⟨_, l, linked, _, down, along⟩ := shape
    simp only [Forest.nodes, List.mem_cons, List.mem_append] at member
    -- The node is at the top, or it is below the first of the siblings or among the others.
    rcases member with rfl | member | member
    · refine ⟨l, kids, linked, down, fun b member => ?_⟩
      simp [Forest.nodes, member]
    · obtain ⟨l', found, linked', shape', within⟩ := ih_kids down member
      refine ⟨l', found, linked', shape', fun b member => ?_⟩
      simp [Forest.nodes, within member]
    · obtain ⟨l', found, linked', shape', within⟩ := ih_rest along member
      refine ⟨l', found, linked', shape', fun b member => ?_⟩
      simp [Forest.nodes, within member]

/-- Every node is at the top or is a child of another node. -/
theorem Shape.listed (shape : Shape links parent p F) {a : α} (member : a ∈ F.nodes) :
    a ∈ F.roots ∨ ∃ q ∈ F.nodes, ∃ l kids, links q = some l ∧
      Shape links (some q) l.children kids ∧ a ∈ kids.roots := by
  induction F generalizing parent p with
  | nil => cases member
  | node b kids rest ih_kids ih_rest =>
    obtain ⟨_, l, linked, _, down, along⟩ := shape
    simp only [Forest.nodes, List.mem_cons, List.mem_append] at member
    rcases member with rfl | member | member
    · exact .inl List.mem_cons_self
    · right
      rcases ih_kids down member with top | ⟨q, within, found⟩
      · exact ⟨b, by simp [Forest.nodes], l, kids, linked, down, top⟩
      · exact ⟨q, by simp [Forest.nodes, within], found⟩
    · rcases ih_rest along member with top | ⟨q, within, found⟩
      · exact .inl (List.mem_cons_of_mem _ top)
      · exact .inr ⟨q, by simp [Forest.nodes, within], found⟩

/-- The children of a node are the nodes that have it as their parent. -/
theorem Shape.mem_kids_iff (shape : Shape links none p F) {q : α} {l : Links α} {kids : Forest α}
    (linked : links q = some l) (down : Shape links (some q) l.children kids)
    (within : kids.nodes ⊆ F.nodes) (a : α) :
    a ∈ kids.roots ↔ a ∈ F.nodes ∧ (links a).bind Links.parent = some q := by
  constructor
  · intro member
    obtain ⟨l', linked', above⟩ := down.parent_of_root member
    exact ⟨within (kids.roots_subset member), by rw [linked']; exact above⟩
  · rintro ⟨member, above⟩
    -- A node at the top of everything has no parent, so it is the child of its own one.
    rcases shape.listed member with top | ⟨q', _, l', kids', linked', down', child⟩
    · obtain ⟨l', linked', above'⟩ := shape.parent_of_root top
      rw [linked', Option.bind_some, above'] at above
      cases above
    · obtain ⟨m, linked_a, above'⟩ := down'.parent_of_root child
      rw [linked_a, Option.bind_some, above'] at above
      cases above
      cases linked.symm.trans linked'
      cases down.unique down'
      exact child

/-- From every node the parents lead to a node at the top. -/
theorem Shape.climbs (shape : Shape links parent p F) {a : α} (member : a ∈ F.nodes) :
    ∃ r ∈ F.roots, Climbs links a r := by
  induction F generalizing parent p with
  | nil => cases member
  | node b kids rest ih_kids ih_rest =>
    obtain ⟨_, l, linked, _, down, along⟩ := shape
    simp only [Forest.nodes, List.mem_cons, List.mem_append] at member
    rcases member with rfl | member | member
    · exact ⟨a, List.mem_cons_self, .refl⟩
    · -- From the top of what is below the node it is one step to the node.
      obtain ⟨r, top, path⟩ := ih_kids down member
      obtain ⟨m, linked_r, above⟩ := down.parent_of_root top
      exact ⟨b, List.mem_cons_self, path.tail (by rw [linked_r]; exact above)⟩
    · obtain ⟨r, top, path⟩ := ih_rest along member
      exact ⟨r, List.mem_cons_of_mem _ top, path⟩

/-- The parent of a node is a node, unless it is the parent of the whole forest. -/
theorem Shape.parent_mem (shape : Shape links parent p F) {a : α} (member : a ∈ F.nodes) :
    ∃ l, links a = some l ∧ (l.parent = parent ∨ ∃ q ∈ F.nodes, l.parent = some q) := by
  rcases shape.listed member with top | ⟨q, within, m, kids, _, shape_q, child⟩
  · obtain ⟨l, linked, above⟩ := shape.parent_of_root top
    exact ⟨l, linked, .inl above⟩
  · obtain ⟨l, linked, above⟩ := shape_q.parent_of_root child
    exact ⟨l, linked, .inr ⟨q, within, above⟩⟩

end Reading

section Below

variable [DecidableEq α] {links other : α → Option (Links α)} {parent p : Option α} {F : Forest α}

/-- What is below a node of the forest is what its own pointer to its children leads to. -/
theorem Shape.under (shape : Shape links parent p F) {a : α} {l : Links α}
    (linked : links a = some l) (member : a ∈ F.nodes) :
    Shape links (some a) l.children (F.under a) := by
  induction F generalizing parent p with
  | nil => cases member
  | node b kids rest ih_kids ih_rest =>
    obtain ⟨_, l', linked', _, down, along⟩ := shape
    rw [Forest.under]
    split
    · -- The node is the first at the top.
      rename_i same
      subst same
      cases linked.symm.trans linked'
      exact down
    · rename_i apart
      split
      · exact ih_kids down (by assumption)
      · rename_i outside
        refine ih_rest along ?_
        simpa [Forest.nodes, Ne.symm apart, outside] using member

/-- Without the node, there is nothing to remove. -/
theorem Forest.remove_of_notMem {a : α} (absent : a ∉ F.nodes) : F.remove a = F := by
  induction F with
  | nil => rfl
  | node b kids rest ih_kids ih_rest =>
    simp only [Forest.nodes, List.mem_cons, List.mem_append, not_or] at absent
    rw [Forest.remove, if_neg (Ne.symm absent.1), ih_kids absent.2.1, ih_rest absent.2.2]

/-- A forest is a node, what is below it, and the rest. -/
theorem Forest.nodes_perm {a : α} (distinct : F.nodes.Nodup) (member : a ∈ F.nodes) :
    F.nodes.Perm (a :: ((F.under a).nodes ++ (F.remove a).nodes)) := by
  induction F with
  | nil => cases member
  | node b kids rest ih_kids ih_rest =>
    obtain ⟨_, _, kids_nodup, rest_nodup, apart⟩ := Forest.nodup_node.mp distinct
    by_cases same : b = a
    · subst same
      simp [Forest.nodes, Forest.under, Forest.remove]
    · simp only [Forest.under, Forest.remove, if_neg same, Forest.nodes]
      -- The nodes are counted on both sides.
      refine List.perm_iff_count.mpr fun x => ?_
      by_cases inside : a ∈ kids.nodes
      · -- The node is below the first at the top, and nowhere else.
        have outside : a ∉ rest.nodes := apart a inside
        have counts := (ih_kids kids_nodup inside).count_eq x
        rw [if_pos inside, Forest.remove_of_notMem outside]
        simp only [List.count_cons, List.count_append] at counts ⊢
        omega
      · have within : a ∈ rest.nodes := by
          simpa [Forest.nodes, Ne.symm same, inside] using member
        have counts := (ih_rest rest_nodup within).count_eq x
        rw [if_neg inside, Forest.remove_of_notMem inside]
        simp only [List.count_cons, List.count_append] at counts ⊢
        omega

/-- Removing a node keeps nodes distinct. -/
theorem Forest.nodup_remove {a : α} (distinct : F.nodes.Nodup) (member : a ∈ F.nodes) :
    (F.remove a).nodes.Nodup := by
  have split := (Forest.nodes_perm distinct member).nodup_iff.mp distinct
  exact (List.nodup_append.mp (List.nodup_cons.mp split).2).2.1

/-- The nodes that stay are the ones that are neither the node nor below it. -/
theorem Forest.mem_remove_iff {a : α} (distinct : F.nodes.Nodup) (member : a ∈ F.nodes) (b : α) :
    b ∈ (F.remove a).nodes ↔ b ∈ F.nodes ∧ b ∉ a :: (F.under a).nodes := by
  have perm := Forest.nodes_perm distinct member
  have split := perm.nodup_iff.mp distinct
  rw [← List.cons_append] at perm split
  -- No node is in both parts.
  have apart := (List.nodup_append.mp split).2.2
  rw [perm.mem_iff, List.mem_append]
  constructor
  · exact fun stays => ⟨.inr stays, fun gone => apart b gone b stays rfl⟩
  · exact fun ⟨either, stays⟩ => either.resolve_left stays

/-- A node is not below itself. -/
theorem Forest.notMem_under {a : α} (distinct : F.nodes.Nodup) (member : a ∈ F.nodes) :
    a ∉ (F.under a).nodes ∧ (F.under a).nodes.Nodup := by
  have split := (Forest.nodes_perm distinct member).nodup_iff.mp distinct
  obtain ⟨absent, split⟩ := List.nodup_cons.mp split
  exact ⟨fun again => absent (List.mem_append_left _ again), (List.nodup_append.mp split).1⟩

/-- What is below a node are nodes of the forest. -/
theorem Forest.under_subset {a : α} (distinct : F.nodes.Nodup) (member : a ∈ F.nodes) :
    (F.under a).nodes ⊆ F.nodes := by
  intro b within
  rw [(Forest.nodes_perm distinct member).mem_iff]
  simp [within]

/-- The nodes from which the parents lead to a node are that node and what is below it. -/
theorem Shape.mem_under_iff (shape : Shape links none p F) (distinct : F.nodes.Nodup) {a : α}
    (member : a ∈ F.nodes) (b : α) :
    b ∈ a :: (F.under a).nodes ↔ b ∈ F.nodes ∧ Climbs links b a := by
  obtain ⟨l, linked⟩ := shape.live member
  have down := shape.under linked member
  constructor
  · intro inside
    rcases List.mem_cons.mp inside with rfl | inside
    · exact ⟨member, .refl⟩
    · -- The parents lead to a child of the node, and from there to the node.
      obtain ⟨r, top, path⟩ := down.climbs inside
      obtain ⟨m, linked_r, above⟩ := down.parent_of_root top
      exact ⟨Forest.under_subset distinct member inside,
        path.tail (by rw [linked_r]; exact above)⟩
  · rintro ⟨within, path⟩
    -- The path is followed from its end.
    induction path using Relation.ReflTransGen.head_induction_on with
    | refl => exact List.mem_cons_self
    | head step _ ih =>
      rename_i b c
      rcases shape.listed within with top | ⟨q, member_q, m, kids, linked_q, shape_q, child⟩
      · -- At the top there is no parent to go to.
        obtain ⟨m, linked_b, above⟩ := shape.parent_of_root top
        rw [linked_b, Option.bind_some, above] at step
        cases step
      · obtain ⟨m', linked_b, above⟩ := shape_q.parent_of_root child
        rw [linked_b, Option.bind_some, above] at step
        cases step
        refine List.mem_cons_of_mem _ ?_
        rcases List.mem_cons.mp (ih member_q) with rfl | inside
        · -- The parent is the node itself.
          cases linked.symm.trans linked_q
          rw [down.unique shape_q]
          exact kids.roots_subset child
        · obtain ⟨m'', kids', linked_q', shape_q', inner⟩ := down.kids inside
          cases linked_q.symm.trans linked_q'
          cases shape_q.unique shape_q'
          exact inner (kids.roots_subset child)

/-- The parent of a node is not below it. -/
theorem Shape.parent_notMem_under (shape : Shape links none p F) (distinct : F.nodes.Nodup)
    {a q : α} {l : Links α} (member : a ∈ F.nodes) (linked : links a = some l)
    (above : l.parent = some q) : q ∉ (F.under a).nodes := by
  intro inside
  -- Else the node would be a child of something below it, and so below itself.
  have down := shape.under linked member
  have within := Forest.under_subset distinct member
  obtain ⟨m, kids, linked_q, shape_q, inner⟩ := down.kids inside
  have child := (shape.mem_kids_iff linked_q shape_q (fun b here => within (inner here)) a).mpr
    ⟨member, by rw [linked]; exact above⟩
  exact (Forest.notMem_under distinct member).1 (inner (kids.roots_subset child))

end Below

section Updates

variable [DecidableEq α] {links other : α → Option (Links α)} {parent p : Option α} {F : Forest α}

/-- Pointing past a node, to its next sibling. -/
def bypass (a : α) (next : Option α) (l : Links α) : Links α where
  parent := l.parent
  children := if l.children = some a then next else l.children
  sibling := if l.sibling = some a then next else l.sibling

/-- Pointing past a node takes it out, together with what is below it. -/
theorem Shape.remove (shape : Shape links parent p F) (distinct : F.nodes.Nodup) {a : α}
    {l : Links α} (linked : links a = some l)
    (past : ∀ b ∈ (F.remove a).nodes, other b = (links b).map (bypass a l.sibling)) :
    Shape other parent (if p = some a then l.sibling else p) (F.remove a) := by
  induction F generalizing parent p with
  | nil =>
    cases shape
    rfl
  | node b kids rest ih_kids ih_rest =>
    obtain ⟨rfl, m, linked_b, above, down, along⟩ := shape
    obtain ⟨_, absent, kids_nodup, rest_nodup, _⟩ := Forest.nodup_node.mp distinct
    simp only [Forest.remove] at past ⊢
    by_cases same : b = a
    · -- What pointed to the node now points to its next sibling.
      subst same
      cases linked.symm.trans linked_b
      have gone := Forest.remove_of_notMem absent
      rw [if_pos rfl] at past ⊢
      have later := ih_rest along rest_nodup fun c member => past c (gone ▸ member)
      rw [gone] at later
      simpa using later
    · rw [if_neg same] at past
      rw [if_neg same, if_neg (by simpa using same)]
      have here := past b (by simp [Forest.nodes])
      rw [linked_b] at here
      refine ⟨rfl, bypass a l.sibling m, here, above, ?_, ?_⟩
      · exact ih_kids down kids_nodup fun c member => past c (by simp [Forest.nodes, member])
      · exact ih_rest along rest_nodup fun c member => past c (by simp [Forest.nodes, member])

/-- Without the parent, no child is inserted. -/
theorem Forest.insertFirst_of_notMem {q a : α} (absent : q ∉ F.nodes) : F.insertFirst q a = F := by
  induction F with
  | nil => rfl
  | node b kids rest ih_kids ih_rest =>
    simp only [Forest.nodes, List.mem_cons, List.mem_append, not_or] at absent
    rw [Forest.insertFirst, if_neg (Ne.symm absent.1), ih_kids absent.2.1, ih_rest absent.2.2]

/-- A first child is one more node. -/
theorem Forest.insertFirst_perm {q a : α} (distinct : F.nodes.Nodup) (member : q ∈ F.nodes) :
    (F.insertFirst q a).nodes.Perm (a :: F.nodes) := by
  induction F with
  | nil => cases member
  | node b kids rest ih_kids ih_rest =>
    obtain ⟨_, _, kids_nodup, rest_nodup, apart⟩ := Forest.nodup_node.mp distinct
    refine List.perm_iff_count.mpr fun x => ?_
    rw [Forest.insertFirst]
    by_cases same : b = q
    · simp only [if_pos same, Forest.nodes, List.count_cons, List.count_append, List.nil_append]
      omega
    · rw [if_neg same]
      simp only [Forest.nodes, List.mem_cons, List.mem_append, Ne.symm same, false_or] at member
      -- The parent is on one side only, and the other side stays as it is.
      rcases member with inside | inside
      · have counts := (ih_kids kids_nodup inside).count_eq x
        rw [Forest.insertFirst_of_notMem (apart q inside)]
        simp only [Forest.nodes, List.count_cons, List.count_append] at counts ⊢
        omega
      · have counts := (ih_rest rest_nodup inside).count_eq x
        rw [Forest.insertFirst_of_notMem (F := kids) fun again => apart q again inside]
        simp only [Forest.nodes, List.count_cons, List.count_append] at counts ⊢
        omega

/-- A leaf in front of the children of a node. -/
theorem Shape.insertFirst (shape : Shape links parent p F) (distinct : F.nodes.Nodup) {q a : α}
    {l : Links α} (linked : links q = some l) (first : other q = some { l with children := some a })
    (leaf : other a = some ⟨some q, none, l.children⟩)
    (same : ∀ b ∈ F.nodes, b ≠ q → other b = links b) :
    Shape other parent p (F.insertFirst q a) := by
  induction F generalizing parent p with
  | nil => exact shape
  | node b kids rest ih_kids ih_rest =>
    obtain ⟨rfl, m, linked_b, above, down, along⟩ := shape
    obtain ⟨b_kids, b_rest, kids_nodup, rest_nodup, _⟩ := Forest.nodup_node.mp distinct
    have same_kids : ∀ c ∈ kids.nodes, c ≠ q → other c = links c := fun c member =>
      same c (by simp [Forest.nodes, member])
    have same_rest : ∀ c ∈ rest.nodes, c ≠ q → other c = links c := fun c member =>
      same c (by simp [Forest.nodes, member])
    rw [Forest.insertFirst]
    split
    · -- The children of the parent follow the new one, and nothing else changes.
      rename_i here
      subst here
      cases linked.symm.trans linked_b
      refine ⟨rfl, _, first, above, ⟨rfl, _, leaf, rfl, rfl, down.frame fun c member => ?_⟩,
        along.frame fun c member => ?_⟩
      · exact same_kids c member fun again => b_kids (again ▸ member)
      · exact same_rest c member fun again => b_rest (again ▸ member)
    · rename_i apart
      exact ⟨rfl, m, (same b (by simp [Forest.nodes]) apart).trans linked_b, above,
        ih_kids down kids_nodup same_kids, ih_rest along rest_nodup same_rest⟩

/-- Without the sibling, nothing is inserted behind it. -/
theorem Forest.insertBehind_of_notMem {x a : α} (absent : x ∉ F.nodes) :
    F.insertBehind x a = F := by
  induction F with
  | nil => rfl
  | node b kids rest ih_kids ih_rest =>
    simp only [Forest.nodes, List.mem_cons, List.mem_append, not_or] at absent
    rw [Forest.insertBehind, if_neg (Ne.symm absent.1), ih_kids absent.2.1, ih_rest absent.2.2]

/-- A sibling is one more node. -/
theorem Forest.insertBehind_perm {x a : α} (distinct : F.nodes.Nodup) (member : x ∈ F.nodes) :
    (F.insertBehind x a).nodes.Perm (a :: F.nodes) := by
  induction F with
  | nil => cases member
  | node b kids rest ih_kids ih_rest =>
    obtain ⟨_, _, kids_nodup, rest_nodup, apart⟩ := Forest.nodup_node.mp distinct
    refine List.perm_iff_count.mpr fun y => ?_
    rw [Forest.insertBehind]
    by_cases same : b = x
    · simp only [if_pos same, Forest.nodes, List.count_cons, List.count_append, List.nil_append]
      omega
    · rw [if_neg same]
      simp only [Forest.nodes, List.mem_cons, List.mem_append, Ne.symm same, false_or] at member
      rcases member with inside | inside
      · have counts := (ih_kids kids_nodup inside).count_eq y
        rw [Forest.insertBehind_of_notMem (apart x inside)]
        simp only [Forest.nodes, List.count_cons, List.count_append] at counts ⊢
        omega
      · have counts := (ih_rest rest_nodup inside).count_eq y
        rw [Forest.insertBehind_of_notMem (F := kids) fun again => apart x again inside]
        simp only [Forest.nodes, List.count_cons, List.count_append] at counts ⊢
        omega

/-- A leaf behind a node, with the same parent. -/
theorem Shape.insertBehind (shape : Shape links parent p F) (distinct : F.nodes.Nodup) {x a : α}
    {l : Links α} (linked : links x = some l) (before : other x = some { l with sibling := some a })
    (leaf : other a = some ⟨l.parent, none, l.sibling⟩)
    (same : ∀ b ∈ F.nodes, b ≠ x → other b = links b) :
    Shape other parent p (F.insertBehind x a) := by
  induction F generalizing parent p with
  | nil => exact shape
  | node b kids rest ih_kids ih_rest =>
    obtain ⟨rfl, m, linked_b, above, down, along⟩ := shape
    obtain ⟨b_kids, b_rest, kids_nodup, rest_nodup, _⟩ := Forest.nodup_node.mp distinct
    have same_kids : ∀ c ∈ kids.nodes, c ≠ x → other c = links c := fun c member =>
      same c (by simp [Forest.nodes, member])
    have same_rest : ∀ c ∈ rest.nodes, c ≠ x → other c = links c := fun c member =>
      same c (by simp [Forest.nodes, member])
    rw [Forest.insertBehind]
    split
    · -- The siblings behind the node follow the new one, and nothing else changes.
      rename_i here
      subst here
      cases linked.symm.trans linked_b
      refine ⟨rfl, _, before, above, down.frame fun c member => ?_,
        ⟨rfl, _, leaf, above, rfl, along.frame fun c member => ?_⟩⟩
      · exact same_kids c member fun again => b_kids (again ▸ member)
      · exact same_rest c member fun again => b_rest (again ▸ member)
    · rename_i apart
      exact ⟨rfl, m, (same b (by simp [Forest.nodes]) apart).trans linked_b, above,
        ih_kids down kids_nodup same_kids, ih_rest along rest_nodup same_rest⟩

end Updates

end Forests
