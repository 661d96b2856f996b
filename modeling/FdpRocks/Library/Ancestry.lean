import Mathlib
import FdpRocks.Library.Loop

/-! # Ancestry

A finite acyclic relation between nodes and lists of their parents.  Who has no
parents is a root; there may be several above one node.

* `climb_total` — going up by first parents ends at one of the roots.
-/

namespace FdpRocks.Library

variable {Node : Type}

structure Ancestry (Node : Type) where
  parents : Node → List Node
  /-- All nodes with parents, and perhaps others. -/
  known : List Node
  finite : ∀ node, parents node ≠ [] → node ∈ known
  acyclic : ∀ node, ¬ Relation.TransGen (fun child parent => parent ∈ parents child) node node

namespace Ancestry

variable (ancestry : Ancestry Node)

/-- A node itself, its parents, and so on. -/
def Reaches : Node → Node → Prop :=
  Relation.ReflTransGen fun child parent => parent ∈ ancestry.parents child

def roots (node : Node) : Set Node := {root | ancestry.Reaches node root ∧ ancestry.parents root = []}

/-- One step up, to the first parent. -/
def firstParent (node : Node) : Loop.Turn Node Node :=
  match ancestry.parents node with
  | [] => .done node
  | parent :: _ => .again parent

def climb (node : Node) : Option Node :=
  Loop.run ancestry.firstParent (ancestry.known.length + 1) node

/-- How many nodes with parents there are above a node. -/
noncomputable def height (node : Node) : ℕ :=
  {above | above ∈ ancestry.known ∧ ancestry.Reaches node above}.ncard

theorem known_finite (holds : Node → Prop) : {node | node ∈ ancestry.known ∧ holds node}.Finite :=
  ancestry.known.finite_toSet.subset fun _ member => member.1

theorem height_le (node : Node) : ancestry.height node ≤ ancestry.known.length := by
  classical
  have inKnown : {above | above ∈ ancestry.known ∧ ancestry.Reaches node above} ⊆
      (ancestry.known.toFinset : Set Node) := by
    intro above member
    simpa using member.1
  calc ancestry.height node ≤ (ancestry.known.toFinset : Set Node).ncard :=
        Set.ncard_le_ncard inKnown (Finset.finite_toSet _)
    _ = ancestry.known.toFinset.card := Set.ncard_coe_finset _
    _ ≤ ancestry.known.length := List.toFinset_card_le _

theorem height_lt {node parent : Node} (isParent : parent ∈ ancestry.parents node) :
    ancestry.height parent < ancestry.height node := by
  refine Set.ncard_lt_ncard (Set.ssubset_iff_of_subset ?_ |>.2 ?_) (ancestry.known_finite _)
  · exact fun above member => ⟨member.1, .head isParent member.2⟩
  · -- the node is above itself, but not above its parent
    refine ⟨node, ⟨ancestry.finite node (List.ne_nil_of_mem isParent), .refl⟩, fun below => ?_⟩
    exact ancestry.acyclic node (Relation.TransGen.head' isParent below.2)

theorem climb_total (node : Node) : ∃ root ∈ ancestry.roots node, ancestry.climb node = some root := by
  have total := Loop.run_total ancestry.firstParent (ancestry.Reaches node)
    ancestry.height (fun root => root ∈ ancestry.roots node) ?_ ?_
    .refl (Nat.lt_succ_of_le (ancestry.height_le node))
  · -- the climb stays above the node and gets closer to a root with every step
    obtain ⟨root, returns, isRoot⟩ := total
    exact ⟨root, isRoot, returns⟩
  · intro current next reached goesOn
    cases parents : ancestry.parents current with
    | nil => simp [firstParent, parents] at goesOn
    | cons parent rest =>
      have isParent : next ∈ ancestry.parents current := by
        simp only [firstParent, parents, Loop.Turn.again.injEq] at goesOn
        simp [parents, goesOn]
      exact ⟨reached.tail isParent, ancestry.height_lt isParent⟩
  · intro current root reached leaves
    cases parents : ancestry.parents current with
    | nil =>
      simp only [firstParent, parents, Loop.Turn.done.injEq] at leaves
      exact leaves ▸ ⟨reached, parents⟩
    | cons parent rest => simp [firstParent, parents] at leaves

theorem mem_roots {node root : Node} :
    root ∈ ancestry.roots node ↔
      (ancestry.parents node = [] ∧ root = node) ∨
        ∃ parent ∈ ancestry.parents node, root ∈ ancestry.roots parent := by
  constructor
  · rintro ⟨reached, isRoot⟩
    cases Relation.ReflTransGen.cases_head_iff.1 reached with
    | inl same => exact .inl ⟨same ▸ isRoot, same.symm⟩
    | inr step =>
      obtain ⟨parent, isParent, rest⟩ := step
      exact .inr ⟨parent, isParent, rest, isRoot⟩
  · rintro (⟨isRoot, rfl⟩ | ⟨parent, isParent, reached, isRoot⟩)
    · exact ⟨.refl, isRoot⟩
    · exact ⟨.head isParent reached, isRoot⟩

theorem roots_of_nil {node : Node} (isRoot : ancestry.parents node = []) :
    ancestry.roots node = {node} := by
  ext root
  rw [mem_roots, isRoot]
  simp

theorem roots_of_single {node parent : Node} (single : ancestry.parents node = [parent]) :
    ancestry.roots node = ancestry.roots parent := by
  ext root
  rw [mem_roots, single]
  simp

/-- Where parents have no parents themselves there is no cycle. -/
theorem acyclic_of_flat {parents : Node → List Node}
    (flat : ∀ node, ∀ parent ∈ parents node, parents parent = []) (node : Node) :
    ¬ Relation.TransGen (fun child parent => parent ∈ parents child) node node := by
  intro cycle
  obtain ⟨parent, isParent, _⟩ := Relation.TransGen.head'_iff.1 cycle
  -- the node would be a parent and have one
  obtain ⟨child, _, isChild⟩ := Relation.TransGen.tail'_iff.1 cycle
  rw [flat child node isChild] at isParent
  cases isParent

end Ancestry

end FdpRocks.Library
