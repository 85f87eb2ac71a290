/-!
# Stable sorting

Sorts a list by a strict comparison: a leading run is taken as it is, and every further element is
put in place by bisection. Where elements have no order among them the result depends on the
comparisons that are made, and so the procedure is fixed here.
-/
namespace Crosstab.Sorting

variable {α : Type} (less : α → α → Bool)

/-- The longest front of the list that does not fall below what stands before it, and the rest. -/
def risingRun (last : α) : List α → List α × List α
  | [] => ([], [])
  | x :: rest =>
    if less x last then ([], x :: rest)
    else
      let (run, rest) := risingRun x rest
      (x :: run, rest)

/-- The longest front of the list in which each element falls below the one before, and the rest. -/
def fallingRun (last : α) : List α → List α × List α
  | [] => ([], [])
  | x :: rest =>
    if less x last then
      let (run, rest) := fallingRun x rest
      (x :: run, rest)
    else ([], x :: rest)

/-- Puts an element into a sorted list by bisection, behind the elements that it is not less than. -/
def insert (x : α) (sorted : List α) : List α :=
  match h : sorted.drop (sorted.length / 2) with
  | [] => [x]
  | middle :: back =>
    have : (sorted.take (sorted.length / 2)).length < sorted.length := by
      have := congrArg List.length h
      simp at this ⊢
      omega
    have : back.length < sorted.length := by
      have := congrArg List.length h
      simp at this
      omega
    if less x middle then insert x (sorted.take (sorted.length / 2)) ++ middle :: back
    else sorted.take (sorted.length / 2) ++ middle :: insert x back
termination_by sorted.length

/-- The list in ascending order; equal elements keep their places among each other. -/
def ascending : List α → List α
  | a :: b :: rest =>
    let (start, rest) :=
      if less b a then
        let (run, rest) := fallingRun less b rest
        ((a :: b :: run).reverse, rest)
      else
        let (run, rest) := risingRun less b rest
        (a :: b :: run, rest)
    rest.foldl (fun sorted x => insert less x sorted) start
  | short => short

/-- The list in descending order; here too, equal elements keep their places among each other. -/
def descending (list : List α) : List α := (ascending less list.reverse).reverse

/-- Puts an element before the first one that it may stand before. -/
def place (before : α → α → Bool) (x : α) : List α → List α
  | [] => [x]
  | y :: rest => if before x y then x :: y :: rest else y :: place before x rest

/-- The list in a total order; equal elements keep their places among each other. -/
def arrange (before : α → α → Bool) (list : List α) : List α := list.foldr (place before) []

end Crosstab.Sorting
