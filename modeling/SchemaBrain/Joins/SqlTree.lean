import Mathlib.Data.List.Basic

/-!
# Parse trees of statements

The tree that the SQL parser returns, with the node classes that the mining of joins tells
apart, the breadth-first walk over it, and the nodes of one query without those of the queries
nested in it.
-/

namespace SchemaBrain.Joins

/-- The class of a node, with the texts that the mining reads from it. -/
inductive SqlKind
  | select
  | setOperation
  | join
  | table (name db aliasOrName : String)
  | column (name table : String)
  | other
  deriving DecidableEq, Repr

/-- A node with its arguments in order; a list argument stands as one item for each of its
elements. -/
inductive SqlNode
  | node (kind : SqlKind) (args : List (String × SqlNode))
  | and (left right : SqlNode)
  | paren (this : SqlNode)
  | eq (left right : SqlNode)

namespace SqlNode

/-- The class of a node. -/
def kind : SqlNode → SqlKind
  | node kind _ => kind
  | and _ _ | paren _ | eq _ _ => .other

/-- `node.args.get(key)`. -/
def arg : SqlNode → String → Option SqlNode
  | node _ args, key => (args.find? (·.1 = key)).map (·.2)
  | and _ _, _ | paren _, _ | eq _ _, _ => none

/-- `node.args.get(key) or []`. -/
def argList : SqlNode → String → List SqlNode
  | node _ args, key => (args.filter (·.1 = key)).map (·.2)
  | and _ _, _ | paren _, _ | eq _ _, _ => []

/-- The nodes in the arguments. -/
def children : SqlNode → List SqlNode
  | node _ args => args.map (·.2)
  | and left right => [left, right]
  | paren this => [this]
  | eq left right => [left, right]

/-! ## The walk -/

mutual

/-- The height of a tree. -/
def depth : SqlNode → Nat
  | node _ args => depthArgs args + 1
  | and left right => max left.depth right.depth + 1
  | paren this => this.depth + 1
  | eq left right => max left.depth right.depth + 1

/-- The greatest height of the arguments. -/
def depthArgs : List (String × SqlNode) → Nat
  | [] => 0
  | (_, child) :: rest => max child.depth (depthArgs rest)

end

/-- The nodes level by level, over the nodes that `next` goes on to. -/
def layers (next : SqlNode → List SqlNode) : Nat → List SqlNode → List SqlNode
  | 0, _ => []
  | n + 1, layer => layer ++ layers next n (layer.flatMap next)

/-- `node.walk()`, breadth first. -/
def walk (tree : SqlNode) : List SqlNode := layers children tree.depth [tree]

/-- `node.find_all(cls)`. -/
def findAll (tree : SqlNode) (p : SqlNode → Bool) : List SqlNode := tree.walk.filter p

/-- A node stands in a tree. -/
inductive Below (tree : SqlNode) : SqlNode → Prop
  | refl : Below tree tree
  | child {n c : SqlNode} (h : Below tree n) (hc : c ∈ n.children) : Below tree c

variable {tree n c : SqlNode}

theorem Below.trans (h : Below tree n) (h' : Below n c) : Below tree c := by
  induction h' with
  | refl => exact h
  | child _ hc ih => exact ih.child hc

theorem depth_le_depthArgs {args : List (String × SqlNode)} (h : c ∈ args.map (·.2)) :
    c.depth ≤ depthArgs args := by
  induction args with
  | nil => cases h
  | cons arg args ih =>
    obtain ⟨key, child⟩ := arg
    rw [depthArgs]
    rcases List.mem_cons.1 h with rfl | hrest
    · exact Nat.le_max_left _ _
    · exact Nat.le_trans (ih hrest) (Nat.le_max_right _ _)

theorem depth_lt_of_mem_children (h : c ∈ n.children) : c.depth < n.depth := by
  cases n with
  | node kind args =>
    rw [depth]
    exact Nat.lt_succ_of_le (depth_le_depthArgs h)
  | and left right =>
    rw [depth]
    rcases List.mem_pair.1 h with rfl | rfl <;> omega
  | paren this =>
    rw [depth, List.mem_singleton.1 h]
    exact Nat.lt_succ_self _
  | eq left right =>
    rw [depth]
    rcases List.mem_pair.1 h with rfl | rfl <;> omega

theorem depth_pos (n : SqlNode) : 0 < n.depth := by cases n <;> simp [depth]

private theorem mem_layers_of_below {fuel : Nat} {layer : List SqlNode} (hmem : tree ∈ layer)
    (hfuel : tree.depth ≤ fuel) (h : Below tree n) :
    ∃ layer' fuel', n ∈ layer' ∧ n.depth ≤ fuel' ∧
      layers children fuel' layer' ⊆ layers children fuel layer := by
  induction h with
  | refl => exact ⟨layer, fuel, hmem, hfuel, fun _ hx => hx⟩
  | child _ hc ih =>
    obtain ⟨layer', fuel', hmem', hfuel', hsub⟩ := ih
    have hlt := depth_lt_of_mem_children hc
    cases fuel' with
    | zero => omega
    | succ fuel' =>
      refine ⟨layer'.flatMap children, fuel', List.mem_flatMap.2 ⟨_, hmem', hc⟩, by omega, ?_⟩
      exact fun x hx => hsub (List.mem_append_right _ hx)

private theorem below_of_mem_layers {fuel : Nat} {layer : List SqlNode}
    (h : n ∈ layers children fuel layer) : ∃ root ∈ layer, Below root n := by
  induction fuel generalizing layer with
  | zero => cases h
  | succ fuel ih =>
    rcases List.mem_append.1 h with hnow | hlater
    · exact ⟨n, hnow, .refl⟩
    · obtain ⟨c, hc, hbelow⟩ := ih hlater
      obtain ⟨root, hroot, hchild⟩ := List.mem_flatMap.1 hc
      exact ⟨root, hroot, (Below.refl.child hchild).trans hbelow⟩

/-- The walk meets the nodes of the tree. -/
theorem mem_walk : n ∈ tree.walk ↔ Below tree n := by
  constructor
  · intro h
    obtain ⟨root, hroot, hbelow⟩ := below_of_mem_layers h
    rwa [List.mem_singleton.1 hroot] at hbelow
  · intro h
    obtain ⟨layer, fuel, hmem, hfuel, hsub⟩ :=
      mem_layers_of_below (List.mem_singleton_self tree) (Nat.le_refl _) h
    have hpos := depth_pos n
    cases fuel with
    | zero => omega
    | succ fuel => exact hsub (List.mem_append_left _ hmem)

theorem mem_findAll {p : SqlNode → Bool} : n ∈ tree.findAll p ↔ Below tree n ∧ p n = true := by
  rw [findAll, List.mem_filter, mem_walk]

theorem layers_nil {next : SqlNode → List SqlNode} (fuel : Nat) : layers next fuel [] = [] := by
  induction fuel with
  | zero => rfl
  | succ fuel ih => exact ih

/-- Below the last level there is nothing more. -/
theorem layers_add {fuel : Nat} {layer : List SqlNode} (h : ∀ n ∈ layer, n.depth ≤ fuel)
    (k : Nat) : layers children (fuel + k) layer = layers children fuel layer := by
  induction fuel generalizing layer with
  | zero =>
    have hempty : layer = [] := List.eq_nil_iff_forall_not_mem.2 fun n hn => by
      have hpos := depth_pos n
      have hfuel := h n hn
      omega
    rw [hempty, layers_nil, layers_nil]
  | succ fuel ih =>
    rw [Nat.succ_add, layers, layers, ih]
    intro c hc
    obtain ⟨n, hn, hchild⟩ := List.mem_flatMap.1 hc
    have hlt := depth_lt_of_mem_children hchild
    have hfuel := h n hn
    omega

/-! ## The nodes of one query -/

/-- The node opens a query with names of its own. -/
def isQuery (n : SqlNode) : Bool := n.kind = .select || n.kind = .setOperation

/-- The walk that does not enter the queries nested in the tree. -/
def scopeWalk (tree : SqlNode) : List SqlNode :=
  layers (fun n => if n.isQuery then [] else n.children) tree.depth [tree]

end SqlNode

end SchemaBrain.Joins
