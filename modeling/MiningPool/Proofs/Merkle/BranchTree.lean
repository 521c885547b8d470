/-
Module: MiningPool.Proofs.Merkle.BranchTree
Purpose: the readings of a branch agree with each other and with the binary tree that the branch is.
Main exports: NodeTree, NodeTree.IsPath, NodeTree.isPath_iff, Path.tree, Branch.acceptAll, Branch.Shows,
  NodeTree.Shows, Branch.Agrees, Branch.agrees_of_accepted
-/
import MiningPool.Proofs.Merkle.Root

/-!
A branch is a binary tree in which a way leads down to the leaf. In such a tree anything may stand beside
the way: the list of siblings has room for single nodes only and passes over what is larger, while the list
of nodes and the combined root take in all of it. The readings agree where nothing but single nodes stands
beside the way. The trees of this kind are the paths, and accepting siblings leads to no others.
-/

namespace MiningPool

variable {ε ν : Type}

/-- A binary tree with a way from the top down to one of its leaves. -/
inductive NodeTree (ν : Type) where
  | leaf (node : ν)
  /-- Two subtrees and which of them the way goes on in. -/
  | inner (left right : NodeTree ν) (leafOnLeft : Bool)
deriving Repr, DecidableEq

namespace Sibling

/-- A node beside the way as a tree. -/
def asTree (sibling : Sibling ν) : Sibling (NodeTree ν) := ⟨sibling.side, .leaf sibling.node⟩

/-- A tree beside the way as a node, if it is a single one. -/
def single? : Sibling (NodeTree ν) → Option (Sibling ν)
  | ⟨side, .leaf node⟩ => some ⟨side, node⟩
  | ⟨_, .inner _ _ _⟩ => none

theorem single?_asTree (sibling : Sibling ν) : sibling.asTree.single? = some sibling := rfl

theorem isSome_single?_iff (sibling : Sibling (NodeTree ν)) :
    sibling.single?.isSome ↔ ∃ node, sibling.node = .leaf node := by
  obtain ⟨side, subtree⟩ := sibling
  cases subtree with
  | leaf node => simp [single?]
  | inner left right leafOnLeft => simp [single?]

end Sibling

namespace NodeTree

/-! ### Readings of any tree -/

/-- The leaf that the way leads to. -/
def bottom : NodeTree ν → ν
  | leaf node => node
  | inner left _ true => left.bottom
  | inner _ right false => right.bottom

/-- All nodes, first those of the subtree that the way goes on in. -/
def nodes : NodeTree ν → List ν
  | leaf node => [node]
  | inner left right true => left.nodes ++ right.nodes
  | inner left right false => right.nodes ++ left.nodes

/-- The subtrees beside the way, from the top down. -/
def beside : NodeTree ν → List (Sibling (NodeTree ν))
  | leaf _ => []
  | inner left right true => ⟨.right, right⟩ :: left.beside
  | inner left right false => ⟨.left, left⟩ :: right.beside

/-- The single nodes beside the way, from the bottom up. -/
def siblings (tree : NodeTree ν) : List (Sibling ν) :=
  tree.beside.reverse.filterMap Sibling.single?

/-- The node that the whole tree combines to. -/
def combined [TreeNode ε ν] : NodeTree ν → ν
  | leaf node => node
  | inner left right _ => TreeNode.combine left.combined right.combined

/-- The node that the leaf and the single nodes beside the way combine to. -/
def computeRoot [TreeNode ε ν] (tree : NodeTree ν) : ν :=
  tree.siblings.foldl Branch.climb tree.bottom

/-- The tree after it has been combined with a single node. -/
def accept (tree : NodeTree ν) (sibling : Sibling ν) : NodeTree ν :=
  match sibling.side with
  | .left => inner (leaf sibling.node) tree false
  | .right => inner tree (leaf sibling.node) true

/-- Nothing but single nodes stands beside the way. -/
def IsPath (tree : NodeTree ν) : Prop := ∀ sibling ∈ tree.beside, ∃ node, sibling.node = leaf node

/-- The list of siblings passes over nothing exactly if nothing but single nodes stands beside the way. -/
theorem isPath_iff_length (tree : NodeTree ν) :
    tree.IsPath ↔ tree.siblings.length = tree.beside.length := by
  have reversed : tree.beside.reverse.length = tree.beside.length := List.length_reverse
  rw [siblings, ← reversed, List.filterMap_length_eq_length]
  simp only [Sibling.isSome_single?_iff, List.mem_reverse]
  rfl

example : (inner (leaf 1) (inner (leaf 2) (leaf 3) true) true : NodeTree Nat).nodes = [1, 2, 3] ∧
    (inner (leaf 1) (inner (leaf 2) (leaf 3) true) true : NodeTree Nat).siblings = [] := by decide

end NodeTree

/-! ### Paths are trees -/

namespace Path

/-- The path as a tree. -/
def tree : Path ν → NodeTree ν
  | leaf node => .leaf node
  | afterNode sibling below => .inner (.leaf sibling) below.tree false
  | beforeNode below sibling => .inner below.tree (.leaf sibling) true

theorem bottom_tree (path : Path ν) : path.tree.bottom = path.bottom := by
  induction path with
  | leaf node => rfl
  | afterNode sibling below ih => exact ih
  | beforeNode below sibling ih => exact ih

theorem nodes_tree (path : Path ν) : path.tree.nodes = path.nodes := by
  induction path with
  | leaf node => rfl
  | afterNode sibling below ih => exact congrArg (· ++ [sibling]) ih
  | beforeNode below sibling ih => exact congrArg (· ++ [sibling]) ih

/-- On the way down the siblings are met in the opposite order. -/
theorem beside_tree (path : Path ν) :
    path.tree.beside = (path.siblings.map Sibling.asTree).reverse := by
  induction path with
  | leaf node => rfl
  | afterNode sibling below ih => simp [tree, NodeTree.beside, siblings, Sibling.asTree, ih]
  | beforeNode below sibling ih => simp [tree, NodeTree.beside, siblings, Sibling.asTree, ih]

/-- None of the siblings is passed over. -/
theorem siblings_tree (path : Path ν) : path.tree.siblings = path.siblings := by
  have none_left_out : Sibling.single? ∘ Sibling.asTree = (some : Sibling ν → Option (Sibling ν)) :=
    funext Sibling.single?_asTree
  rw [NodeTree.siblings, beside_tree, List.reverse_reverse, List.filterMap_map, none_left_out,
    List.filterMap_some]

end Path

/-- The siblings lead from the leaf to the node that the whole tree combines to. -/
theorem Branch.combined_tree [TreeNode ε ν] (branch : Branch ε ν) :
    branch.path.tree.combined = branch.computeRoot := by
  obtain ⟨element, path⟩ := branch
  induction path with
  | leaf node => rfl
  | afterNode sibling below ih =>
      calc (Path.afterNode sibling below).tree.combined
        _ = TreeNode.combine sibling below.tree.combined := rfl
        _ = TreeNode.combine sibling (⟨element, below⟩ : Branch ε ν).computeRoot := by rw [ih]
        _ = (acceptLeft ⟨element, below⟩ sibling : Branch ε ν).computeRoot :=
          (computeRoot_acceptLeft ⟨element, below⟩ sibling).symm
  | beforeNode below sibling ih =>
      calc (Path.beforeNode below sibling).tree.combined
        _ = TreeNode.combine below.tree.combined sibling := rfl
        _ = TreeNode.combine (⟨element, below⟩ : Branch ε ν).computeRoot sibling := by rw [ih]
        _ = (acceptRight ⟨element, below⟩ sibling : Branch ε ν).computeRoot :=
          (computeRoot_acceptRight ⟨element, below⟩ sibling).symm

theorem Branch.computeRoot_tree [TreeNode ε ν] (branch : Branch ε ν) :
    branch.path.tree.computeRoot = branch.computeRoot := by
  rw [NodeTree.computeRoot, Path.siblings_tree, Path.bottom_tree]
  rfl

/-- The trees beside whose way nothing but single nodes stands are the paths. -/
theorem NodeTree.isPath_iff (tree : NodeTree ν) : tree.IsPath ↔ ∃ path : Path ν, path.tree = tree := by
  constructor
  · intro isPath
    induction tree with
    | leaf node => exact ⟨.leaf node, rfl⟩
    | inner left right leafOnLeft leftIh rightIh =>
        cases leafOnLeft with
        | true =>
            obtain ⟨node, single⟩ := isPath ⟨.right, right⟩ List.mem_cons_self
            obtain ⟨below, same⟩ :=
              leftIh fun sibling member => isPath sibling (List.mem_cons_of_mem _ member)
            refine ⟨.beforeNode below node, ?_⟩
            rw [Path.tree, same, ← single]
        | false =>
            obtain ⟨node, single⟩ := isPath ⟨.left, left⟩ List.mem_cons_self
            obtain ⟨below, same⟩ :=
              rightIh fun sibling member => isPath sibling (List.mem_cons_of_mem _ member)
            refine ⟨.afterNode node below, ?_⟩
            rw [Path.tree, same, ← single]
  · rintro ⟨path, rfl⟩ sibling member
    rw [path.beside_tree, List.mem_reverse, List.mem_map] at member
    obtain ⟨single, _, rfl⟩ := member
    exact ⟨single.node, rfl⟩

/-! ### Accepting siblings -/

/-- The tree after all these nodes, the lowest one first. -/
def NodeTree.acceptAll (tree : NodeTree ν) (accepted : List (Sibling ν)) : NodeTree ν :=
  accepted.foldl accept tree

/-- The readings of a tree that began with a leaf and has accepted siblings. -/
structure NodeTree.Shows (node : ν) (accepted : List (Sibling ν)) (tree : NodeTree ν) : Prop where
  bottom : tree.bottom = node
  /-- On the way down each accepted node is met by itself. -/
  beside : tree.beside = (accepted.map Sibling.asTree).reverse
  /-- Nothing that is met is passed over. -/
  complete : tree.siblings.length = tree.beside.length
  siblings : tree.siblings = accepted
  nodes : tree.nodes = node :: accepted.map (·.node)

namespace Branch

/-- The branch after its subtree has been combined with a node on either side. -/
def accept (branch : Branch ε ν) (sibling : Sibling ν) : Branch ε ν :=
  match sibling.side with
  | .left => branch.acceptLeft sibling.node
  | .right => branch.acceptRight sibling.node

/-- The branch after all these siblings, the lowest one first. -/
def acceptAll (branch : Branch ε ν) (accepted : List (Sibling ν)) : Branch ε ν :=
  accepted.foldl accept branch

/-- The readings of a branch that began with an element and a leaf and has accepted siblings. -/
structure Shows (given : ε) (node : ν) (accepted : List (Sibling ν)) (branch : Branch ε ν) : Prop where
  element : branch.element = given
  leaf : branch.leaf = node
  siblings : branch.siblings = accepted
  nodes : branch.nodes = node :: accepted.map (·.node)
  depth : branch.depth = accepted.length

theorem element_accept (branch : Branch ε ν) (sibling : Sibling ν) :
    (branch.accept sibling).element = branch.element := by
  obtain ⟨side, node⟩ := sibling
  cases side <;> rfl

theorem leaf_accept (branch : Branch ε ν) (sibling : Sibling ν) :
    (branch.accept sibling).leaf = branch.leaf := by
  obtain ⟨side, node⟩ := sibling
  cases side <;> rfl

theorem siblings_accept (branch : Branch ε ν) (sibling : Sibling ν) :
    (branch.accept sibling).siblings = branch.siblings ++ [sibling] := by
  obtain ⟨side, node⟩ := sibling
  cases side <;> rfl

theorem nodes_accept (branch : Branch ε ν) (sibling : Sibling ν) :
    (branch.accept sibling).nodes = branch.nodes ++ [sibling.node] := by
  obtain ⟨side, node⟩ := sibling
  cases side <;> rfl

/-- The tree of a branch grows along with it. -/
theorem tree_accept (branch : Branch ε ν) (sibling : Sibling ν) :
    (branch.accept sibling).path.tree = branch.path.tree.accept sibling := by
  obtain ⟨side, node⟩ := sibling
  cases side <;> rfl

theorem tree_acceptAll (branch : Branch ε ν) (accepted : List (Sibling ν)) :
    (branch.acceptAll accepted).path.tree = branch.path.tree.acceptAll accepted := by
  induction accepted generalizing branch with
  | nil => rfl
  | cons sibling later ih =>
      calc (branch.acceptAll (sibling :: later)).path.tree
        _ = ((branch.accept sibling).acceptAll later).path.tree := rfl
        _ = (branch.accept sibling).path.tree.acceptAll later := ih (branch.accept sibling)
        _ = (branch.path.tree.accept sibling).acceptAll later := by rw [tree_accept]

variable {given : ε} {node : ν} {accepted : List (Sibling ν)} {branch : Branch ε ν}

theorem shows_start (given : ε) (node : ν) : (start given node).Shows given node [] :=
  ⟨rfl, rfl, rfl, rfl, rfl⟩

theorem Shows.accept (shows : branch.Shows given node accepted) (sibling : Sibling ν) :
    (branch.accept sibling).Shows given node (accepted ++ [sibling]) where
  element := (element_accept branch sibling).trans shows.element
  leaf := (leaf_accept branch sibling).trans shows.leaf
  siblings := by rw [siblings_accept, shows.siblings]
  nodes := by rw [nodes_accept, shows.nodes, List.map_append, List.cons_append, List.map_singleton]
  depth := by rw [Branch.depth, siblings_accept, shows.siblings]

theorem Shows.acceptAll (shows : branch.Shows given node accepted) (later : List (Sibling ν)) :
    (branch.acceptAll later).Shows given node (accepted ++ later) := by
  induction later generalizing branch accepted with
  | nil =>
      rw [List.append_nil]
      exact shows
  | cons sibling later ih =>
      rw [List.append_cons]
      exact ih (shows.accept sibling)

/-- The tree of a branch shows what the branch shows. -/
theorem Shows.tree (shows : branch.Shows given node accepted) : branch.path.tree.Shows node accepted where
  bottom := branch.path.bottom_tree.trans shows.leaf
  beside := by
    rw [← shows.siblings]
    exact branch.path.beside_tree
  complete := by
    rw [← NodeTree.isPath_iff_length, NodeTree.isPath_iff]
    exact ⟨branch.path, rfl⟩
  siblings := branch.path.siblings_tree.trans shows.siblings
  nodes := branch.path.nodes_tree.trans shows.nodes

/-- A branch and a binary tree have the same readings, those of the siblings that have been accepted, and the
siblings lead from the leaf to the node that the whole tree combines to. -/
structure Agrees [TreeNode ε ν] (given : ε) (node : ν) (accepted : List (Sibling ν)) (branch : Branch ε ν)
    (tree : NodeTree ν) : Prop where
  stored : branch.path.tree = tree
  ofBranch : branch.Shows given node accepted
  ofTree : tree.Shows node accepted
  branchRoot : branch.computeRoot = tree.combined
  treeRoot : tree.computeRoot = tree.combined

theorem Shows.agrees [TreeNode ε ν] (shows : branch.Shows given node accepted) :
    Agrees given node accepted branch branch.path.tree where
  stored := rfl
  ofBranch := shows
  ofTree := shows.tree
  branchRoot := branch.combined_tree.symm
  treeRoot := branch.computeRoot_tree.trans branch.combined_tree.symm

/-- Whatever siblings a branch accepts, on whichever sides, all its readings agree with each other and with
those of the tree that has accepted the same siblings. -/
theorem agrees_of_accepted [TreeNode ε ν] (given : ε) (node : ν) (accepted : List (Sibling ν)) :
    Agrees given node accepted ((start given node).acceptAll accepted)
      ((NodeTree.leaf node).acceptAll accepted) := by
  have shows : ((start given node).acceptAll accepted).Shows given node accepted :=
    (shows_start given node).acceptAll accepted
  have stored : ((start given node).acceptAll accepted).path.tree = (NodeTree.leaf node).acceptAll accepted :=
    tree_acceptAll (start given node) accepted
  rw [← stored]
  exact shows.agrees

example : (((start () 1).acceptRight 2).acceptLeft 3 : Branch Unit Nat).siblings =
    [⟨.right, 2⟩, ⟨.left, 3⟩] := rfl

end Branch

end MiningPool
