import Mathlib.Algebra.GroupWithZero.Nat
import Mathlib.Data.List.Nodup
import Mathlib.Data.List.Flatten

/-!
# Trees with lists of children

The nodes of a tree in pre-order, and the position that each of them has.
-/

inductive RoseTree (α : Type) where
  | node (value : α) (children : List (RoseTree α))

namespace RoseTree

variable {α : Type}

def value : RoseTree α → α
  | .node value _ => value

def children : RoseTree α → List (RoseTree α)
  | .node _ children => children

-- -----
-- The order
-- -----

mutual
/-- A node comes before what is below it, and its children in their order. -/
def preorder : RoseTree α → List (RoseTree α)
  | .node value children => .node value children :: preorderAll children

def preorderAll : List (RoseTree α) → List (RoseTree α)
  | [] => []
  | tree :: rest => preorder tree ++ preorderAll rest
end

def size (tree : RoseTree α) : Nat := tree.preorder.length

theorem preorderAll_eq (trees : List (RoseTree α)) : preorderAll trees = trees.flatMap preorder := by
  induction trees with
  | nil => rfl
  | cons tree rest ih => rw [preorderAll, ih, List.flatMap_cons]

theorem preorder_eq (tree : RoseTree α) :
    tree.preorder = tree :: tree.children.flatMap preorder := by
  obtain ⟨value, children⟩ := tree
  rw [preorder, preorderAll_eq]
  rfl

theorem size_eq (tree : RoseTree α) : tree.size = (tree.children.map size).sum + 1 := by
  rw [size, preorder_eq, List.length_cons, List.length_flatMap]
  rfl

-- -----
-- Positions
-- -----

/-- The node at a position: the child to take from each node on the way. -/
def at? : RoseTree α → List Nat → Option (RoseTree α)
  | tree, [] => some tree
  | tree, i :: path => tree.children[i]?.bind (·.at? path)

mutual
/-- The positions of a tree in pre-order. -/
def positions : RoseTree α → List (List Nat)
  | .node _ children => [] :: positionsAll 0 children

/-- Those of the children from the `i`-th on. -/
def positionsAll (i : Nat) : List (RoseTree α) → List (List Nat)
  | [] => []
  | tree :: rest => (positions tree).map (i :: ·) ++ positionsAll (i + 1) rest
end

/-- The node at a position, of the children from the `i`-th on. -/
def atFrom? (i : Nat) (trees : List (RoseTree α)) : List Nat → Option (RoseTree α)
  | [] => none
  | j :: path => if i ≤ j then trees[j - i]?.bind (·.at? path) else none

theorem at?_cons (tree : RoseTree α) (i : Nat) (path : List Nat) :
    tree.at? (i :: path) = tree.children[i]?.bind (·.at? path) := rfl

theorem atFrom?_head (i : Nat) (tree : RoseTree α) (rest : List (RoseTree α)) (path : List Nat) :
    atFrom? i (tree :: rest) (i :: path) = tree.at? path := by
  simp [atFrom?]

theorem atFrom?_tail {i j : Nat} (tree : RoseTree α) (rest : List (RoseTree α)) (path : List Nat)
    (hj : j ≠ i) : atFrom? i (tree :: rest) (j :: path) = atFrom? (i + 1) rest (j :: path) := by
  rcases Nat.lt_or_gt_of_ne hj with below | above
  · simp [atFrom?, Nat.not_le.mpr below, Nat.not_le.mpr (Nat.lt_succ_of_lt below)]
  · obtain ⟨k, rfl⟩ := Nat.exists_eq_add_of_lt above
    have hk : i + k + 1 - i = k + 1 := by omega
    have hk' : i + k + 1 - (i + 1) = k := by omega
    simp [atFrom?, hk, hk', Nat.le_add_right, show i ≤ i + k + 1 by omega]

theorem le_of_mem_positionsAll {i : Nat} {trees : List (RoseTree α)} {path : List Nat}
    (h : path ∈ positionsAll i trees) : ∃ j rest, path = j :: rest ∧ i ≤ j := by
  induction trees generalizing i with
  | nil => cases h
  | cons tree trees ih =>
    rw [positionsAll, List.mem_append, List.mem_map] at h
    rcases h with ⟨below, -, rfl⟩ | later
    · exact ⟨i, below, rfl, Nat.le_refl i⟩
    · obtain ⟨j, rest, rfl, hij⟩ := ih later
      exact ⟨j, rest, rfl, by omega⟩

mutual
/-- The pre-order lists at each position the node that is there. -/
theorem map_at?_positions : ∀ tree : RoseTree α,
    tree.positions.map tree.at? = tree.preorder.map some
  | .node value children => by
    have below : ∀ path ∈ positionsAll 0 children,
        (RoseTree.node value children).at? path = atFrom? 0 children path := by
      intro path hp
      obtain ⟨j, rest, rfl, -⟩ := le_of_mem_positionsAll hp
      simp [atFrom?, at?_cons, RoseTree.children]
    rw [positions, preorder, List.map_cons, List.map_cons, List.map_congr_left below,
      map_atFrom?_positionsAll 0 children]
    rfl

theorem map_atFrom?_positionsAll : ∀ (i : Nat) (trees : List (RoseTree α)),
    (positionsAll i trees).map (atFrom? i trees) = (preorderAll trees).map some
  | _, [] => rfl
  | i, tree :: rest => by
    have later : ∀ path ∈ positionsAll (i + 1) rest,
        atFrom? i (tree :: rest) path = atFrom? (i + 1) rest path := by
      intro path hp
      obtain ⟨j, below, rfl, hij⟩ := le_of_mem_positionsAll hp
      exact atFrom?_tail tree rest below (by omega)
    have here : atFrom? i (tree :: rest) ∘ (i :: ·) = tree.at? := by
      funext path
      exact atFrom?_head i tree rest path
    rw [positionsAll, preorderAll, List.map_append, List.map_append, List.map_map, here,
      map_at?_positions tree, List.map_congr_left later, map_atFrom?_positionsAll (i + 1) rest]
end

mutual
theorem nodup_positions : ∀ tree : RoseTree α, tree.positions.Nodup
  | .node value children => by
    rw [positions, List.nodup_cons]
    refine ⟨?_, nodup_positionsAll 0 children⟩
    intro h
    obtain ⟨j, rest, heq, -⟩ := le_of_mem_positionsAll h
    cases heq

theorem nodup_positionsAll : ∀ (i : Nat) (trees : List (RoseTree α)), (positionsAll i trees).Nodup
  | _, [] => List.nodup_nil
  | i, tree :: rest => by
    rw [positionsAll, List.nodup_append]
    refine ⟨(nodup_positions tree).map fun _ _ h => (List.cons.inj h).2,
      nodup_positionsAll (i + 1) rest, ?_⟩
    -- the first child's begin with `i`, those of the others with more
    rintro path here path' later rfl
    obtain ⟨below, -, rfl⟩ := List.mem_map.mp here
    obtain ⟨j, rest, heq, hij⟩ := le_of_mem_positionsAll later
    cases heq
    omega
end

mutual
theorem mem_positions : ∀ (tree : RoseTree α) (path : List Nat),
    path ∈ tree.positions ↔ (tree.at? path).isSome
  | .node value children, [] => by simp [positions, at?]
  | .node value children, j :: path => by
    have h := mem_positionsAll 0 children j path
    simpa [positions, at?_cons, RoseTree.children, atFrom?] using h

theorem mem_positionsAll : ∀ (i : Nat) (trees : List (RoseTree α)) (j : Nat) (path : List Nat),
    j :: path ∈ positionsAll i trees ↔ (atFrom? i trees (j :: path)).isSome
  | i, [], j, path => by simp [positionsAll, atFrom?]
  | i, tree :: rest, j, path => by
    rw [positionsAll, List.mem_append, mem_positionsAll (i + 1) rest j path]
    by_cases hj : j = i
    · subst hj
      simp [mem_positions tree path, show ¬ j + 1 ≤ j by omega, atFrom?]
    · simp [atFrom?_tail tree rest path hj, Ne.symm hj]
end

end RoseTree
