/-
Module: MiningPool.Proofs.Merkle.Binding
Purpose: trees of one size that agree at the root agree at the leaves, or a collision is at hand.
Main exports: HashedNode, Traced, Merkle.hashedStrings, Merkle.Collision, Merkle.Binding,
  Merkle.forall₂_of_root
-/
import MiningPool.Merkle.NodeHash
import MiningPool.Proofs.Merkle.Elements

/-!
Nothing is assumed of the hash. A tree is built a second time with nodes that write down which byte
strings have been hashed for them. If two roots agree and no two of these strings collide, then what was
hashed for the roots agrees, hence what it says of the children, and so on down to the leaves.
-/

namespace MiningPool

/-- Nodes that carry the hash of a byte string, which is made of the element or of the two children. -/
class HashedNode (ε : outParam Type) (ν : Type) [TreeNode ε ν] where
  hash : ν → NodeHash
  leafInput : ε → List UInt8
  parentInput : ν → ν → List UInt8
  hash_leaf : ∀ element, hash (TreeNode.leaf element) = truncatedKeccak (leafInput element)
  hash_combine : ∀ left right,
    hash (TreeNode.combine left right) = truncatedKeccak (parentInput left right)

/-- A node with the byte strings that have been hashed to make it. -/
structure Traced (ν : Type) where
  node : ν
  hashed : List (List UInt8)

variable {ε ν : Type} [TreeNode ε ν] [HashedNode ε ν]

instance : TreeNode ε (Traced ν) where
  leaf element := ⟨TreeNode.leaf element, [HashedNode.leafInput ν element]⟩
  combine left right :=
    ⟨TreeNode.combine left.node right.node,
      HashedNode.parentInput left.node right.node :: (left.hashed ++ right.hashed)⟩

namespace Traced

@[simp] theorem node_leaf (element : ε) :
    (TreeNode.leaf element : Traced ν).node = TreeNode.leaf element := rfl

@[simp] theorem node_combine (left right : Traced ν) :
    (TreeNode.combine left right).node = TreeNode.combine left.node right.node := rfl

end Traced

namespace Merkle

variable (ν) in
/-- The byte strings that are hashed while the tree over elements is built. -/
def hashedStrings (elements : List ε) : List (List UInt8) :=
  match (Tree.ofElements [] elements : Except Error (Tree ε (Traced ν))) with
  | .ok tree => tree.root.hashed
  | .error _ => []

/-- Two different strings of the list have one hash. -/
def Collision (strings : List (List UInt8)) : Prop :=
  ∃ first ∈ strings, ∃ second ∈ strings,
    first ≠ second ∧ truncatedKeccak first = truncatedKeccak second

/-- What the parts of a parent have in common with those of another parent of the same hash, unless the
strings that were hashed collide. -/
structure Binding (same : ν → ν → Prop) : Prop where
  hash : ∀ {left right}, same left right → HashedNode.hash left = HashedNode.hash right
  children : ∀ {left right left' right' : ν},
    HashedNode.parentInput left right = HashedNode.parentInput left' right' →
    same left left' ∧ same right right'

/-! ### The second building -/

theorem map_node_pairUp (nodes : List (Traced ν)) :
    (pairUp nodes).map Traced.node = pairUp (nodes.map Traced.node) := by
  fun_induction pairUp nodes with
  | case1 => rfl
  | case2 last => rfl
  | case3 left right rest ih =>
      rw [List.map_cons, ih]
      rfl

/-- Writing the strings down does not change the tree. -/
theorem map_node_level (elements : List ε) (height : Nat) :
    (level (leaves elements : List (Traced ν)) height).map Traced.node =
      level (leaves elements) height := by
  induction height with
  | zero => exact List.map_map ..
  | succ height ih => rw [level_succ, map_node_pairUp, ih, level_succ]

theorem root_eq_of_traced {elements : List ε} {kept others : Nat → Prop} {tree : Tree ε ν}
    {traced : Tree ε (Traced ν)} (complete : Complete elements kept tree)
    (tracedComplete : Complete elements others traced) : traced.root.node = tree.root := by
  have root := map_node_level (ν := ν) elements (Nat.clog 2 elements.length)
  rw [tracedComplete.root, complete.root] at root
  exact (List.cons.inj root).1

/-! ### From the root down -/

section

variable {same : ν → ν → Prop} {strings : List (List UInt8)}

/-- All strings of some nodes are in the list. -/
def Logged (strings : List (List UInt8)) (nodes : List (Traced ν)) : Prop :=
  ∀ node ∈ nodes, ∀ string ∈ node.hashed, string ∈ strings

/-- The relation between nodes, whatever was hashed for them. -/
def Alike (same : ν → ν → Prop) (left right : List (Traced ν)) : Prop :=
  List.Forall₂ (fun own other => same own.node other.node) left right

theorem Logged.singleton {root : Traced ν} (inside : ∀ string ∈ root.hashed, string ∈ strings) :
    Logged strings [root] := by
  intro node member
  rw [List.mem_singleton.1 member]
  exact inside

theorem Logged.of_pairUp {nodes : List (Traced ν)} (logged : Logged strings (pairUp nodes)) :
    Logged strings nodes := by
  fun_induction pairUp nodes with
  | case1 => exact logged
  | case2 last =>
      intro node member string hashed
      cases List.mem_singleton.1 member
      apply logged _ List.mem_cons_self
      exact .tail _ (List.mem_append_left _ hashed)
  | case3 left right rest ih =>
      have above := logged _ List.mem_cons_self
      have later := ih fun node member => logged node (.tail _ member)
      intro node member string hashed
      rcases List.mem_cons.1 member with rfl | member
      · exact above _ (.tail _ (List.mem_append_left _ hashed))
      · rcases List.mem_cons.1 member with rfl | member
        · exact above _ (.tail _ (List.mem_append_right _ hashed))
        · exact later node member string hashed

/-- Without a collision, equal hashes are hashes of equal strings. -/
theorem eq_of_hash_eq (safe : ¬Collision strings) {first second : List UInt8}
    (firstLogged : first ∈ strings) (secondLogged : second ∈ strings)
    (hashes : truncatedKeccak first = truncatedKeccak second) : first = second := by
  by_contra different
  exact safe ⟨first, firstLogged, second, secondLogged, different, hashes⟩

/-- The children of two parents that are alike. -/
theorem same_of_combine (binding : Binding same) (safe : ¬Collision strings)
    {left right left' right' : Traced ν}
    (logged : ∀ string ∈ (TreeNode.combine left right : Traced ν).hashed, string ∈ strings)
    (logged' : ∀ string ∈ (TreeNode.combine left' right' : Traced ν).hashed, string ∈ strings)
    (alike : same (TreeNode.combine left right).node (TreeNode.combine left' right').node) :
    same left.node left'.node ∧ same right.node right'.node := by
  have hashes := binding.hash alike
  rw [Traced.node_combine, Traced.node_combine, HashedNode.hash_combine,
    HashedNode.hash_combine] at hashes
  apply binding.children
  exact eq_of_hash_eq safe (logged _ List.mem_cons_self) (logged' _ List.mem_cons_self) hashes

/-- One level down. -/
theorem Alike.of_pairUp (binding : Binding same) (safe : ¬Collision strings)
    {left right : List (Traced ν)} (count : left.length = right.length)
    (logged : Logged strings (pairUp left)) (logged' : Logged strings (pairUp right))
    (alike : Alike same (pairUp left) (pairUp right)) : Alike same left right := by
  fun_induction pairUp left generalizing right with
  | case1 =>
      cases List.length_eq_zero_iff.1 count.symm
      exact .nil
  | case2 last =>
      obtain ⟨other, rfl⟩ := List.length_eq_one_iff.1 count.symm
      cases alike with
      | cons here there =>
          obtain ⟨children, _⟩ := same_of_combine binding safe (logged _ List.mem_cons_self)
            (logged' _ List.mem_cons_self) here
          exact .cons children .nil
  | case3 first second rest ih =>
      rcases right with _ | ⟨first', _ | ⟨second', rest'⟩⟩
      · cases count
      · cases count
      · cases alike with
        | cons here there =>
            obtain ⟨firsts, seconds⟩ := same_of_combine binding safe
              (logged _ List.mem_cons_self) (logged' _ List.mem_cons_self) here
            have later := ih (Nat.succ.inj (Nat.succ.inj count))
              (fun node member => logged node (.tail _ member))
              (fun node member => logged' node (.tail _ member)) there
            exact .cons firsts (.cons seconds later)

/-- All levels down. -/
theorem Alike.of_level (binding : Binding same) (safe : ¬Collision strings)
    {left right : List (Traced ν)} (count : left.length = right.length) {height : Nat}
    (logged : Logged strings (level left height)) (logged' : Logged strings (level right height))
    (alike : Alike same (level left height) (level right height)) :
    Alike same left right ∧ Logged strings left ∧ Logged strings right := by
  induction height with
  | zero => exact ⟨alike, logged, logged'⟩
  | succ height ih =>
      have lower := Alike.of_pairUp binding safe (length_level_congr count height) logged logged' alike
      exact ih logged.of_pairUp logged'.of_pairUp lower

/-- Leaves that are alike are hashes of equal strings. -/
theorem leafInput_eq_of_alike (binding : Binding same) (safe : ¬Collision strings)
    {left right : List ε} (logged : Logged strings (leaves left : List (Traced ν)))
    (logged' : Logged strings (leaves right : List (Traced ν)))
    (alike : Alike same (leaves left : List (Traced ν)) (leaves right)) :
    List.Forall₂ (fun own other : ε => same (TreeNode.leaf own) (TreeNode.leaf other) ∧
      HashedNode.leafInput ν own = HashedNode.leafInput ν other) left right := by
  have pairs := List.forall₂_map_right_iff.1 (List.forall₂_map_left_iff.1 alike)
  clear alike
  induction pairs with
  | nil => exact .nil
  | @cons own other left right here there ih =>
      have hashes := binding.hash here
      rw [Traced.node_leaf, Traced.node_leaf, HashedNode.hash_leaf, HashedNode.hash_leaf] at hashes
      have strings_eq := eq_of_hash_eq safe (logged _ List.mem_cons_self _ List.mem_cons_self)
        (logged' _ List.mem_cons_self _ List.mem_cons_self) hashes
      exact .cons ⟨here, strings_eq⟩ (ih (fun node member => logged node (.tail _ member))
        (fun node member => logged' node (.tail _ member)))

end

/-- Trees over equally many elements whose roots are alike have leaves that are alike and hashes of equal
strings, or two of the strings that were hashed collide. -/
theorem forall₂_of_root {same : ν → ν → Prop} (binding : Binding same) {left right : List ε}
    {kept others : Nat → Prop} {tree tree' : Tree ε ν} (complete : Complete left kept tree)
    (complete' : Complete right others tree') (nonempty : 0 < left.length)
    (count : left.length = right.length) (root : same tree.root tree'.root) :
    List.Forall₂ (fun own other : ε => same (TreeNode.leaf own) (TreeNode.leaf other) ∧
      HashedNode.leafInput ν own = HashedNode.leafInput ν other) left right ∨
    Collision (hashedStrings ν left ++ hashedStrings ν right) := by
  rw [or_iff_not_imp_right]
  intro safe
  obtain ⟨traced, built, _, tracedComplete⟩ := ofElements_eq_ok (ν := Traced ν) nonempty []
  obtain ⟨traced', built', _, tracedComplete'⟩ :=
    ofElements_eq_ok (ν := Traced ν) (count ▸ nonempty : 0 < right.length) []
  rw [hashedStrings, hashedStrings, built, built'] at safe
  have top := tracedComplete.root
  have top' := tracedComplete'.root
  rw [← count] at top'
  have alike : Alike same [traced.root] [traced'.root] := by
    apply List.Forall₂.cons _ .nil
    rw [root_eq_of_traced complete tracedComplete, root_eq_of_traced complete' tracedComplete']
    exact root
  have logged : Logged (traced.root.hashed ++ traced'.root.hashed) [traced.root] :=
    .singleton fun string hashed => List.mem_append_left _ hashed
  have logged' : Logged (traced.root.hashed ++ traced'.root.hashed) [traced'.root] :=
    .singleton fun string hashed => List.mem_append_right _ hashed
  rw [← top] at alike logged
  rw [← top'] at alike logged'
  obtain ⟨bottom, bottomLogged, bottomLogged'⟩ :=
    Alike.of_level binding safe (by rw [length_leaves, length_leaves, count]) logged logged' alike
  exact leafInput_eq_of_alike binding safe bottomLogged bottomLogged' bottom

end Merkle

end MiningPool
