import CodeIndex.Chunk.Outline
import Mathlib.Data.List.Basic
/-!
# The outline with a stack

The walk over a tree can keep the nodes that are still to be visited on a stack, each with the
position, among the chunks found so far, of the nearest chunk above it. It finds the chunks of the
outline, in the same order.
-/

namespace CodeIndex

open Text Syntax

namespace Outline

/-! ## The walk -/

/-- A node still to be visited, with the position of the nearest chunk above it. -/
abbrev Pending := Syntax.Place × Option Nat

/-- The named nodes among children of a node, from position `i` on, below one nearest chunk. -/
def pendingAmong (owner : Option Nat) (parent : Node) (above : List (Node × Nat)) (i : Nat)
    (children : List Node) : List Pending :=
  ((children.zipIdx i).filter (·.1.named)).map fun (c, j) => (⟨c, (parent, j) :: above⟩, owner)

/-- The named children of a node below one nearest chunk. -/
def pendingBelow (owner : Option Nat) (p : Syntax.Place) : List Pending :=
  pendingAmong owner p.node p.above 0 p.node.children

mutual

/-- The number of nodes of a tree. -/
def nodeCount : Node → Nat
  | .mk _ _ _ _ _ children => 1 + nodeCounts children

def nodeCounts : List Node → Nat
  | [] => 0
  | c :: cs => nodeCount c + nodeCounts cs

end

/-- The number of nodes still to be visited. -/
def pendingCount : List Pending → Nat
  | [] => 0
  | e :: stack => nodeCount e.1.node + pendingCount stack

theorem pendingCount_append (as bs : List Pending) :
    pendingCount (as ++ bs) = pendingCount as + pendingCount bs := by
  induction as with
  | nil => exact (Nat.zero_add _).symm
  | cons e as ih => rw [List.cons_append, pendingCount, pendingCount, ih, Nat.add_assoc]

theorem pendingAmong_cons (owner : Option Nat) (parent : Node) (above : List (Node × Nat))
    (i : Nat) (c : Node) (cs : List Node) :
    pendingAmong owner parent above i (c :: cs) =
      (if c.named then [(⟨c, (parent, i) :: above⟩, owner)] else []) ++
        pendingAmong owner parent above (i + 1) cs := by
  rw [pendingAmong, List.zipIdx_cons]
  cases hc : c.named with
  | false =>
      rw [List.filter_cons_of_neg (by simp [hc])]
      rfl
  | true =>
      rw [List.filter_cons_of_pos (by simp [hc])]
      rfl

theorem pendingCount_among_le (owner : Option Nat) (parent : Node) (above : List (Node × Nat))
    (i : Nat) (children : List Node) :
    pendingCount (pendingAmong owner parent above i children) ≤ nodeCounts children := by
  induction children generalizing i with
  | nil => exact Nat.zero_le _
  | cons c cs ih =>
      have hrest := ih (i + 1)
      rw [pendingAmong_cons, pendingCount_append, nodeCounts]
      split
      · rw [pendingCount]
        exact Nat.add_le_add (Nat.le_refl _) hrest
      · exact Nat.le_trans (Nat.le_of_eq (Nat.zero_add _)) (Nat.le_add_left_of_le hrest)

theorem pendingCount_below_lt (owner : Option Nat) (p : Syntax.Place) :
    pendingCount (pendingBelow owner p) < nodeCount p.node := by
  obtain ⟨⟨named, kind, field, start, stop, children⟩, above⟩ := p
  have hle :=
    pendingCount_among_le owner (.mk named kind field start stop children) above 0 children
  rw [nodeCount, Nat.add_comm]
  exact Nat.lt_succ_of_le hle

/-- Visits the nodes on the stack. The root becomes no chunk; any other node is judged below its
nearest chunk, and is the nearest chunk of the nodes below it if it becomes one. -/
def walk (l : Language) (source : List Char) (founds : List Found) : List Pending → List Found
  | [] => founds
  | (p, owner) :: stack =>
    match if p.above.isEmpty then none else found? l source (owner.bind (founds[·]?)) p with
    | some f => walk l source (founds ++ [f]) (pendingBelow (some founds.length) p ++ stack)
    | none => walk l source founds (pendingBelow owner p ++ stack)
termination_by stack => pendingCount stack
decreasing_by
  all_goals
    rw [pendingCount_append, pendingCount]
    exact Nat.add_lt_add_right (pendingCount_below_lt _ p) _

/-! ## The same chunks -/

section Same

variable (l : Language) (source : List Char)

/-- The chunks of a pending node and of what is below it, after those found so far. -/
def chunksOf (founds : List Found) (e : Pending) : List Found :=
  collectAt l source (e.2.bind (founds[·]?)) e.1.above e.1.node

theorem flatMap_pendingAmong (founds : List Found) (owner : Option Nat) (parent : Node)
    (above : List (Node × Nat)) (i : Nat) (children : List Node) :
    (pendingAmong owner parent above i children).flatMap (chunksOf l source founds) =
      collectAmong l source (owner.bind (founds[·]?)) parent above i children := by
  induction children generalizing i with
  | nil => rfl
  | cons c cs ih =>
      rw [pendingAmong_cons, List.flatMap_append, ih (i + 1), collectAmong]
      congr 1
      split
      · exact List.flatMap_singleton _ _
      · rfl

/-- The owner of a pending node stands in the list of the chunks found so far. -/
def IsOwned (founds : List Found) (e : Pending) : Prop :=
  ∀ i, e.2 = some i → i < founds.length

theorem chunksOf_append {founds : List Found} {e : Pending} (he : IsOwned founds e)
    (more : List Found) : chunksOf l source (founds ++ more) e = chunksOf l source founds e := by
  unfold chunksOf
  congr 1
  cases hi : e.2 with
  | none => rfl
  | some i => exact List.getElem?_append_left (he i hi)

theorem isOwned_pendingBelow {founds : List Found} {owner : Option Nat} {p : Syntax.Place}
    (howner : ∀ i, owner = some i → i < founds.length) :
    ∀ e ∈ pendingBelow owner p, e.1.above ≠ [] ∧ IsOwned founds e := by
  intro e he
  obtain ⟨⟨c, j⟩, -, rfl⟩ := List.mem_map.1 he
  exact ⟨List.cons_ne_nil _ _, howner⟩

theorem collectAt_of_found? {p : Syntax.Place} {owner : Option Found} {f : Found}
    (hf : found? l source owner p = some f) :
    collectAt l source owner p.above p.node =
      f :: collectAmong l source (some f) p.node p.above 0 p.node.children := by
  obtain ⟨⟨named, kind, field, start, stop, children⟩, above⟩ := p
  rw [collectAt, hf]
  rfl

theorem collectAt_of_not_found? {p : Syntax.Place} {owner : Option Found}
    (hf : found? l source owner p = none) :
    collectAt l source owner p.above p.node =
      collectAmong l source owner p.node p.above 0 p.node.children := by
  obtain ⟨⟨named, kind, field, start, stop, children⟩, above⟩ := p
  rw [collectAt, hf]
  rfl

/-- What a stack of nodes below the root adds to the chunks found so far. Growing the list at its
end leaves the owners of the nodes deeper in the stack where they are. -/
theorem walk_eq (founds : List Found) (stack : List Pending)
    (hstack : ∀ e ∈ stack, e.1.above ≠ [] ∧ IsOwned founds e) :
    walk l source founds stack = founds ++ stack.flatMap (chunksOf l source founds) := by
  fun_induction walk l source founds stack with
  | case1 founds => simp
  | case2 founds p owner stack f hf ih =>
      obtain ⟨⟨hp, howner⟩, hrest⟩ := List.forall_mem_cons.1 hstack
      rw [List.isEmpty_eq_false_iff.2 hp, dif_neg Bool.false_ne_true] at hf
      have hlast : (some founds.length).bind ((founds ++ [f])[·]?) = some f := by simp
      have hdeeper : stack.flatMap (chunksOf l source (founds ++ [f])) =
          stack.flatMap (chunksOf l source founds) :=
        List.flatMap_congr fun e he => chunksOf_append l source (hrest e he).2 [f]
      have hbelow : (pendingBelow (some founds.length) p).flatMap
          (chunksOf l source (founds ++ [f])) =
            collectAmong l source (some f) p.node p.above 0 p.node.children := by
        rw [pendingBelow, flatMap_pendingAmong, hlast]
      have hhere : chunksOf l source founds (p, owner) =
          f :: collectAmong l source (some f) p.node p.above 0 p.node.children :=
        collectAt_of_found? l source hf
      rw [ih, List.flatMap_append, hbelow, hdeeper, List.flatMap_cons, hhere]
      · simp
      · intro e he
        rcases List.mem_append.1 he with he | he
        · exact isOwned_pendingBelow (by simp) e he
        · refine ⟨(hrest e he).1, fun i hi => ?_⟩
          have hlt := (hrest e he).2 i hi
          rw [List.length_append]
          omega
  | case3 founds p owner stack hf ih =>
      obtain ⟨⟨hp, howner⟩, hrest⟩ := List.forall_mem_cons.1 hstack
      rw [List.isEmpty_eq_false_iff.2 hp, dif_neg Bool.false_ne_true] at hf
      have hhere : chunksOf l source founds (p, owner) =
          (pendingBelow owner p).flatMap (chunksOf l source founds) := by
        rw [pendingBelow, flatMap_pendingAmong]
        exact collectAt_of_not_found? l source hf
      rw [ih, List.flatMap_append, List.flatMap_cons, hhere]
      intro e he
      rcases List.mem_append.1 he with he | he
      · exact isOwned_pendingBelow howner e he
      · exact hrest e he

/-- From the root the walk with a stack finds the outline. -/
theorem walk_root (root : Node) :
    walk l source [] [(Place.root root, none)] = collect l source root := by
  rw [walk]
  change walk l source [] (pendingBelow none (Place.root root) ++ []) = _
  rw [List.append_nil, walk_eq l source [] _ (isOwned_pendingBelow (by simp)), List.nil_append]
  exact flatMap_pendingAmong l source [] none root [] 0 root.children

end Same

end Outline

end CodeIndex
