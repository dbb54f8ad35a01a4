import BemOutline.Arena.Basic

/-! Reading an arena in document order, by a stack of the nodes that are still to be visited. -/

namespace BemOutline

structure Visit where
  node : NodeId
  level : Nat
deriving DecidableEq, Repr

namespace Arena

/-- The visits directly below. Without a cycle no path has more nodes than the arena, so that
nothing is lost by stopping at that level. -/
def below (a : Arena) (v : Visit) : List Visit :=
  match a.node? v.node with
  | none => []
  | some n => if v.level < a.size then n.children.map (⟨·, v.level + 1⟩) else []

def fanOut (a : Arena) : Nat := (a.nodes.toList.map fun n => n.children.length).foldr max 0

/-- No tree of so many levels whose nodes have at most `fan` children has more nodes than this. -/
def treeBound (fan : Nat) : Nat → Nat
  | 0 => 1
  | levels + 1 => 1 + fan * treeBound fan levels

def weight (a : Arena) (v : Visit) : Nat := treeBound a.fanOut (a.size - v.level)

def stackWeight (a : Arena) : List Visit → Nat
  | [] => 0
  | v :: stack => a.weight v + a.stackWeight stack

theorem length_children_le_fanOut {a : Arena} {id : NodeId} {n : Node}
    (h : a.node? id = some n) : n.children.length ≤ a.fanOut := by
  have hm : n.children.length ∈ a.nodes.toList.map fun n => n.children.length := by
    apply List.mem_map_of_mem
    rw [Array.mem_toList_iff]
    exact Array.mem_of_getElem? h
  unfold fanOut
  generalize a.nodes.toList.map (fun n => n.children.length) = l at hm
  induction l with
  | nil => simp at hm
  | cons x xs ih =>
    rcases List.mem_cons.1 hm with rfl | hx
    · exact Nat.le_max_left ..
    · exact Nat.le_trans (ih hx) (Nat.le_max_right ..)

theorem stackWeight_map (a : Arena) (level : Nat) (ids : List NodeId) :
    a.stackWeight (ids.map (⟨·, level⟩)) = ids.length * treeBound a.fanOut (a.size - level) := by
  induction ids with
  | nil => simp [stackWeight]
  | cons c cs ih =>
    rw [List.map_cons, stackWeight, ih, List.length_cons, Nat.succ_mul, weight, Nat.add_comm]

theorem stackWeight_below_lt (a : Arena) (v : Visit) : a.stackWeight (a.below v) < a.weight v := by
  have pos : 0 < a.weight v := by
    unfold weight
    cases a.size - v.level with
    | zero => exact Nat.one_pos
    | succ levels => exact Nat.lt_of_lt_of_le Nat.one_pos (Nat.le_add_right ..)
  unfold below
  split
  · simpa [stackWeight] using pos
  · next n hn =>
    split
    · next hl =>
      rw [stackWeight_map]
      have hs : a.size - v.level = a.size - (v.level + 1) + 1 := by omega
      have hle := Nat.mul_le_mul_right (treeBound a.fanOut (a.size - (v.level + 1)))
        (length_children_le_fanOut hn)
      rw [weight, hs, treeBound]
      omega
    · simpa [stackWeight] using pos

theorem stackWeight_append (a : Arena) (s t : List Visit) :
    a.stackWeight (s ++ t) = a.stackWeight s + a.stackWeight t := by
  induction s with
  | nil => simp [stackWeight]
  | cons v s ih => rw [List.cons_append, stackWeight, ih, stackWeight, Nat.add_assoc]

theorem stackWeight_cons (a : Arena) (v : Visit) (s : List Visit) :
    a.stackWeight (v :: s) = a.weight v + a.stackWeight s := rfl

/-- Puts the visits of the stack and everything below them in front of those already made. -/
def walk (a : Arena) (made : List Visit) (stack : List Visit) : List Visit :=
  match stack with
  | [] => made
  | v :: rest => a.walk (v :: made) (a.below v ++ rest)
termination_by a.stackWeight stack
decreasing_by
  rw [stackWeight_append, stackWeight_cons]
  have := a.stackWeight_below_lt v
  omega

def isNode (a : Arena) (id : NodeId) : Bool := (a.node? id).isSome

def iter (a : Arena) : List NodeId :=
  ((a.walk [] (a.root.map (⟨·, 0⟩)).toList).reverse.map (·.node)).filter a.isNode

end Arena

end BemOutline
