import PiEnv.Lib.RoseTree

/-!
# The walk over a syntax tree

`walkNodes` keeps the nodes still to visit on a stack of its own. A node's
children are pushed in source order and then turned round, so that the first of
them is on top.
-/

namespace PiEnv.Analyze

variable {α β σ : Type}

-- -----
-- The generator
-- -----

/-- The callback gets each child in source order, until it returns something truthy. -/
def forEachChild (node : RoseTree α) (callback : σ → RoseTree α → σ × Bool) (state : σ) : σ :=
  go node.children state
where
  go : List (RoseTree α) → σ → σ
    | [], state => state
    | child :: rest, state =>
      match callback state child with
      | (state, true) => state
      | (state, false) => go rest state

/-- The callback's body has braces around it: it returns nothing. -/
def pushChild (pending : Array (RoseTree α)) (child : RoseTree α) : Array (RoseTree α) × Bool :=
  (pending.push child, false)

/-- `right` is one less than the length, which is 0 only where the loop does not run. -/
def swapInward (pending : Array β) (left right : Nat) : Array β :=
  if left < right then swapInward (pending.swapIfInBounds left right) (left + 1) (right - 1)
  else pending
termination_by right - left

/-- What is pending once the popped node has been visited. -/
def visit (popped : Array (RoseTree α)) (node : RoseTree α) : Array (RoseTree α) :=
  let start := popped.size
  let pending := forEachChild node pushChild popped
  swapInward pending start (pending.size - 1)

-- -----
-- One visit
-- -----

theorem forEachChild_pushChild (node : RoseTree α) (pending : Array (RoseTree α)) :
    (forEachChild node pushChild pending).toList = pending.toList ++ node.children := by
  unfold forEachChild
  induction node.children generalizing pending with
  | nil => simp [forEachChild.go]
  | cons child rest ih => simp [forEachChild.go, pushChild, ih]

theorem getElem?_swapIfInBounds {pending : Array β} {left right : Nat} (i : Nat)
    (hl : left < pending.size) (hr : right < pending.size) :
    (pending.swapIfInBounds left right)[i]? =
      pending[if i = left then right else if i = right then left else i]? := by
  rw [Array.swapIfInBounds, dif_pos hl, dif_pos hr, Array.getElem?_swap]
  grind

/-- From `left` to `right` the order is the other way round; the rest stays. -/
theorem swapInward_getElem? (pending : Array β) (left right i : Nat) (hr : right < pending.size) :
    (swapInward pending left right)[i]? =
      pending[if left ≤ i ∧ i ≤ right then left + right - i else i]? := by
  fun_induction swapInward pending left right with
  | case1 pending left right hlt ih =>
    rw [ih (by rw [Array.size_swapIfInBounds]; omega),
      getElem?_swapIfInBounds _ (by omega) hr]
    congr 1
    grind
  | case2 pending left right hge =>
    congr 1
    grind

theorem swapInward_toList (before behind : List β) (pending : Array β)
    (h : pending.toList = before ++ behind) :
    (swapInward pending before.length (pending.size - 1)).toList = before ++ behind.reverse := by
  have hsize : pending.size = before.length + behind.length := by
    rw [← Array.length_toList, h, List.length_append]
  rcases Nat.eq_zero_or_pos pending.size with empty | nonempty
  · have hbefore : before = [] := List.length_eq_zero_iff.mp (by omega)
    have hbehind : behind = [] := List.length_eq_zero_iff.mp (by omega)
    subst hbefore hbehind
    rw [swapInward, if_neg (by simp [empty]), h]
    rfl
  · refine List.ext_getElem? fun i => ?_
    have hget : ∀ j, pending[j]? = (before ++ behind)[j]? := fun j => by rw [← h, Array.getElem?_toList]
    rw [Array.getElem?_toList, swapInward_getElem? _ _ _ _ (by omega), hget]
    split
    case isTrue inside =>
      -- `i` is in the part turned round
      rw [List.getElem?_append_right (by omega), List.getElem?_append_right inside.1,
        List.getElem?_reverse (by omega)]
      congr 1
      omega
    case isFalse outside =>
      rcases Nat.lt_or_ge i before.length with low | high
      · rw [List.getElem?_append_left low, List.getElem?_append_left low]
      · rw [List.getElem?_eq_none (by simp; omega), List.getElem?_eq_none (by simp; omega)]

@[simp] theorem visit_toList (popped : Array (RoseTree α)) (node : RoseTree α) :
    (visit popped node).toList = popped.toList ++ node.children.reverse := by
  have h := swapInward_toList popped.toList node.children _ (forEachChild_pushChild node popped)
  rw [Array.length_toList] at h
  exact h

-- -----
-- The traversal
-- -----

/-- How many visits the pending nodes stand for. -/
def ahead (pending : Array (RoseTree α)) : Nat := (pending.toList.map RoseTree.size).sum

theorem pop_back {pending : Array (RoseTree α)} {node : RoseTree α} (h : pending.back? = some node) :
    pending.toList = pending.pop.toList ++ [node] := by
  have hne : pending.toList ≠ [] := by
    rintro empty
    rw [← Array.getLast?_toList, empty] at h
    cases h
  have hlast : pending.toList.getLast hne = node := by
    rw [← Array.getLast?_toList, List.getLast?_eq_some_getLast hne] at h
    exact Option.some.inj h
  rw [Array.toList_pop, ← hlast, List.dropLast_append_getLast hne]

theorem ahead_visit {pending : Array (RoseTree α)} {node : RoseTree α}
    (h : pending.back? = some node) : ahead (visit pending.pop node) < ahead pending := by
  have hsize := node.size_eq
  rw [ahead, ahead, pop_back h, visit_toList]
  simp only [List.map_append, List.sum_append, List.map_reverse, List.sum_reverse, List.map_cons,
    List.map_nil, List.sum_cons, List.sum_nil]
  omega

/-- The generator's loop, with the nodes it yields. -/
def walk (pending : Array (RoseTree α)) : List (RoseTree α) :=
  match _h : pending.back? with
  | none => []
  | some node => node :: walk (visit pending.pop node)
termination_by ahead pending
decreasing_by exact ahead_visit _h

def walkNodes (root : RoseTree α) : List (RoseTree α) := walk #[root]

/-- The loop visits what is below each pending node, from the top of the stack down. -/
theorem walk_eq (pending : Array (RoseTree α)) :
    walk pending = pending.toList.reverse.flatMap RoseTree.preorder := by
  fun_induction walk pending with
  | case1 pending h =>
    have empty : pending.toList = [] := by
      rw [← Array.getLast?_toList] at h
      exact List.getLast?_eq_none_iff.mp h
    rw [empty]
    rfl
  | case2 pending node h ih =>
    rw [ih, visit_toList, pop_back h, List.reverse_append, List.reverse_append, List.reverse_reverse,
      List.flatMap_append, List.flatMap_append, List.reverse_singleton, List.flatMap_singleton,
      RoseTree.preorder_eq, List.cons_append]

/-- `walkNodes` yields the nodes in pre-order, and so each position of the tree once. -/
theorem walkNodes_preorder (root : RoseTree α) :
    walkNodes root = root.preorder ∧
      (walkNodes root).map some = root.positions.map root.at? ∧
      root.positions.Nodup ∧ ∀ path, path ∈ root.positions ↔ (root.at? path).isSome := by
  have heq : walkNodes root = root.preorder := by
    rw [walkNodes, walk_eq]
    simp
  refine ⟨heq, ?_, root.nodup_positions, root.mem_positions⟩
  rw [heq, root.map_at?_positions]

end PiEnv.Analyze
