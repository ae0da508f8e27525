import Mathlib.Data.List.Basic
import Mathlib.Data.List.Perm.Basic
import Mathlib.Data.List.Count

/-! Nodes that depend on each other, listed so that each precedes what it depends on. -/

namespace Dependencies

variable {α : Type*} {deps other : α → List α}

/-- Every node of the list precedes the nodes it depends on, all of which are listed. -/
def Layered (deps : α → List α) : List α → Prop
  | [] => True
  | a :: rest => (∀ b ∈ deps a, b ∈ rest) ∧ Layered deps rest

/-- Only the dependencies of the listed nodes matter. -/
theorem Layered.congr {nodes : List α} (layered : Layered deps nodes)
    (same : ∀ a ∈ nodes, other a = deps a) : Layered other nodes := by
  -- The list is walked front to back, one node at a time.
  induction nodes with
  | nil => trivial
  | cons a rest ih =>
    refine ⟨?_, ih layered.2 fun b member => same b (List.mem_cons_of_mem _ member)⟩
    rw [same a List.mem_cons_self]
    exact layered.1

/-- A node precedes its dependencies wherever it stands. -/
theorem Layered.precedes {front rest : List α} {a b : α}
    (layered : Layered deps (front ++ a :: rest))
    (depends : b ∈ deps a) : b ∈ rest := by
  -- Dropping the nodes in front leaves a layered list.
  induction front with
  | nil => exact layered.1 b depends
  | cons c front ih => exact ih layered.2

/-- The dependencies of a listed node are listed. -/
theorem Layered.closed {nodes : List α} {a b : α} (layered : Layered deps nodes)
    (listed : a ∈ nodes)
    (depends : b ∈ deps a) : b ∈ nodes := by
  -- The dependency stands in the part of the list behind the node.
  obtain ⟨front, rest, rfl⟩ := List.append_of_mem listed
  exact List.mem_append_right _ (List.mem_cons_of_mem _ (layered.precedes depends))

/-- A node that no node in front of it depends on can be taken out. -/
theorem Layered.remove {front rest : List α} {a : α} (layered : Layered deps (front ++ a :: rest))
    (unused : ∀ b ∈ front, a ∉ deps b) : Layered deps (front ++ rest) := by
  -- The induction is on the nodes in front, which the condition keeps independent of the node.
  induction front with
  | nil => exact layered.2
  | cons b front ih =>
    obtain ⟨first, later⟩ := layered
    refine ⟨fun c depends => ?_, ih later fun c member => unused c (List.mem_cons_of_mem _ member)⟩
    -- What the first node depends on is listed behind it, and is not the node taken out.
    have listed := first c depends
    rcases List.mem_append.mp listed with member | member
    · exact List.mem_append_left _ member
    · rcases List.mem_cons.mp member with rfl | member
      · exact absurd depends (unused b List.mem_cons_self)
      · exact List.mem_append_right _ member

/-- No listed node depends on the first one. -/
theorem Layered.first_unused {rest : List α} {a b : α} (layered : Layered deps (a :: rest))
    (distinct : (a :: rest).Nodup) (listed : b ∈ a :: rest) : a ∉ deps b := by
  -- A dependency of any listed node stands behind the first.
  intro depends
  obtain ⟨front, tail, split⟩ := List.append_of_mem listed
  have behind : a ∈ tail := (split ▸ layered).precedes depends
  rw [List.nodup_cons] at distinct
  cases front with
  | nil =>
    -- The node is the first one itself, which would then stand behind itself.
    obtain ⟨rfl, rfl⟩ := List.cons_eq_cons.mp split
    exact distinct.1 behind
  | cons c front =>
    -- The node stands behind the first one, which would then stand behind it again.
    obtain ⟨rfl, rfl⟩ := List.cons_eq_cons.mp split
    exact distinct.1 (by simp [behind])

/-- All references that a list of owners makes, one for each dependency of each owner. -/
def references (deps : α → List α) (owners : List α) : List α := owners.flatMap deps

/-- A reference is made by one of the owners. -/
theorem mem_references {owners : List α} {b : α} :
    b ∈ references deps owners ↔ ∃ a ∈ owners, b ∈ deps a := List.mem_flatMap

/-- Only the dependencies of the owners matter. -/
theorem references_congr {owners : List α} (same : ∀ a ∈ owners, other a = deps a) :
    references other owners = references deps owners := by
  -- The owners are walked one by one.
  induction owners with
  | nil => rfl
  | cons a rest ih =>
    have later := ih fun b member => same b (List.mem_cons_of_mem _ member)
    simp only [references, List.flatMap_cons] at later ⊢
    rw [later, same a List.mem_cons_self]

/-- An owner that is taken out takes its own references with it. -/
theorem references_remove [DecidableEq α] (deps : α → List α) (front rest : List α) (a b : α) :
    (references deps (front ++ a :: rest)).count b =
      (deps a).count b + (references deps (front ++ rest)).count b := by
  -- The references of the owner stand between those of the owners around it.
  simp only [references, List.flatMap_append, List.flatMap_cons, List.count_append]
  omega

/-- Owners leave a list one by one, each after all owners that depend on it. -/
def FirstOut (deps : α → List α) (owners gone : List α) : Prop :=
  ∀ front b back, gone = front ++ b :: back → ∀ a ∈ owners, b ∈ deps a → a ∈ front

/-- Nobody leaves. -/
theorem FirstOut.nil {owners : List α} : FirstOut deps owners [] := by
  -- There is no last node of an empty list.
  intro front b back split
  simp at split

/-- A node leaves first when no owner depends on it, and what it depends on may then leave. -/
theorem FirstOut.cons {owners later gone : List α} {a : α} (leaves : FirstOut other later gone)
    (unused : ∀ b ∈ owners, a ∉ deps b)
    (stays : ∀ b ∈ owners, b = a ∨ b ∈ later ∧ other b = deps b) :
    FirstOut deps owners (a :: gone) := by
  intro front b back split c owns depends
  rcases List.cons_eq_append_iff.mp split with ⟨rfl, parts⟩ | ⟨tail, rfl, parts⟩
  · obtain ⟨rfl, rfl⟩ := List.cons_eq_cons.mp parts
    -- The node that leaves first is the one asked about, and nobody depends on it.
    exact absurd depends (unused c owns)
  · rcases stays c owns with rfl | ⟨kept, same⟩
    · exact List.mem_cons_self
    · exact List.mem_cons_of_mem _ (leaves tail b back parts c kept (same ▸ depends))

/-- Two rounds of leaving make one. -/
theorem FirstOut.append {owners later gone more : List α} (first : FirstOut deps owners gone)
    (second : FirstOut other later more)
    (stays : ∀ b ∈ owners, b ∈ gone ∨ b ∈ later ∧ other b = deps b) :
    FirstOut deps owners (gone ++ more) := by
  intro front b back split c owns depends
  rcases List.append_eq_append_iff.mp split with ⟨middle, rfl, parts⟩ | ⟨middle, rfl, parts⟩
  · -- The node leaves in the second round.
    rcases stays c owns with left | ⟨kept, same⟩
    · exact List.mem_append_left _ left
    · exact List.mem_append_right _ (second middle b back parts c kept (same ▸ depends))
  · -- The node leaves in the first round, or it is the first of the second.
    rcases List.cons_eq_append_iff.mp parts with ⟨rfl, parts'⟩ | ⟨tail, rfl, _⟩
    · rcases stays c owns with left | ⟨kept, same⟩
      · simpa using left
      · have none := second [] b back (by simpa using parts') c kept (same ▸ depends)
        simp at none
    · exact first front b tail rfl c owns depends

/-- Among the nodes with a property, each still leaves after those of them that depend on it. -/
theorem FirstOut.filter {owners gone front back : List α} {b : α}
    (leaves : FirstOut deps owners gone)
    (chosen : α → Bool) (split : gone.filter chosen = front ++ b :: back) {a : α}
    (owns : a ∈ owners)
    (depends : b ∈ deps a) (picked : chosen a = true) : a ∈ front := by
  -- The nodes between the two runs are the ones without the property.
  obtain ⟨first, second, rfl, fronts, backs⟩ := List.filter_eq_append_iff.mp split
  obtain ⟨skipped, rest, rfl, none, _⟩ := List.filter_eq_cons_iff.mp backs
  have before := leaves (first ++ skipped) b rest (by simp) a owns depends
  rcases List.mem_append.mp before with member | member
  · rw [← fronts]
    exact List.mem_filter.mpr ⟨member, picked⟩
  · exact absurd picked (none a member)

end Dependencies
