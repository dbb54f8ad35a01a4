import BemOutline.Arena.Basic

/-! Lists of children in which a number often follows itself. What is found out about a child then
holds for all the entries that repeat it. -/

namespace BemOutline.Arena

section Fold
variable {α : Type} (f : NodeId → α) (op : α → α → α)

@[specialize]
def foldAfter (last : NodeId) (value : α) : α → List NodeId → α
  | acc, [] => acc
  | acc, c :: cs =>
    if c = last then foldAfter last value (op acc value) cs
    else
      let v := f c
      foldAfter c v (op acc v) cs

/-- Combines the values of the entries from the left. An entry that follows itself is not looked at
again. -/
@[specialize]
def foldRepeats (start : α) : List NodeId → α
  | [] => start
  | c :: cs =>
    let v := f c
    foldAfter f op c v (op start v) cs

theorem foldAfter_eq_foldl (last : NodeId) (acc : α) (cs : List NodeId) :
    foldAfter f op last (f last) acc cs = cs.foldl (fun acc c => op acc (f c)) acc := by
  induction cs generalizing last acc with
  | nil => rfl
  | cons c cs ih =>
    rw [foldAfter, List.foldl_cons]
    split
    · next h => rw [ih, h]
    · exact ih ..

theorem foldRepeats_eq_foldl (start : α) (cs : List NodeId) :
    foldRepeats f op start cs = cs.foldl (fun acc c => op acc (f c)) start := by
  cases cs with
  | nil => rfl
  | cons c cs => exact foldAfter_eq_foldl ..

end Fold

section Search
variable {α : Type} (find : Nat → NodeId → Option α)

@[specialize]
def searchAfter (last : NodeId) : Nat → List NodeId → Option α
  | _, [] => none
  | i, c :: cs =>
    if c = last then searchAfter last (i + 1) cs
    else
      match find i c with
      | some r => some r
      | none => searchAfter c (i + 1) cs

/-- What is found first among the entries and their positions. Where nothing was found, nothing is
sought at the entries that repeat it. -/
@[specialize]
def searchRepeats : List NodeId → Option α
  | [] => none
  | c :: cs =>
    match find 0 c with
    | some r => some r
    | none => searchAfter find c 1 cs

end Search

end BemOutline.Arena
