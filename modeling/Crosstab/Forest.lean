/-!
# Forests

Ordered forests, written as a first tree with the forest of its children and the forest of its
siblings.
-/
namespace Crosstab

inductive Forest (α : Type) where
  | nil
  | cons (node : α) (children siblings : Forest α)
  deriving Repr

/-- A node met on a walk: the nodes above it, from the root down, and the forest below it. -/
structure Visit (α : Type) where
  above : List α
  node : α
  below : Forest α

namespace Forest

variable {α β : Type}

def isEmpty : Forest α → Bool
  | nil => true
  | cons .. => false

def size : Forest α → Nat
  | nil => 0
  | cons _ children siblings => 1 + children.size + siblings.size

def leafCount : Forest α → Nat
  | nil => 0
  | cons _ nil siblings => 1 + siblings.leafCount
  | cons _ children siblings => children.leafCount + siblings.leafCount

/-- The number of leaves at a node with these children; without children it is a leaf itself. -/
def span (children : Forest α) : Nat := if children.isEmpty then 1 else children.leafCount

def map (f : α → β) : Forest α → Forest β
  | nil => nil
  | cons node children siblings => cons (f node) (children.map f) (siblings.map f)

def append : Forest α → Forest α → Forest α
  | nil, right => right
  | cons node children siblings, right => cons node children (siblings.append right)

def mapLeaves (f : α → α) : Forest α → Forest α
  | nil => nil
  | cons node nil siblings => cons (f node) nil (siblings.mapLeaves f)
  | cons node children siblings => cons node (children.mapLeaves f) (siblings.mapLeaves f)

/-- Puts a forest below every leaf; `below` gets the position of the leaf in reading order, counted
from `start`. -/
def graft (below : Nat → Forest α) : Nat → Forest α → Forest α
  | _, nil => nil
  | start, cons node nil siblings => cons node (below start) (graft below (start + 1) siblings)
  | start, cons node children siblings =>
    cons node (graft below start children) (graft below (start + children.leafCount) siblings)

def heads : Forest α → List α
  | nil => []
  | cons node _ siblings => node :: siblings.heads

/-- Every chain from a root to a leaf, in reading order. -/
def branches : Forest α → List (List α)
  | nil => []
  | cons node nil siblings => [node] :: siblings.branches
  | cons node children siblings => children.branches.map (node :: ·) ++ siblings.branches

/-- Every node with its surroundings, parents before children and left before right. -/
def visits (above : List α) : Forest α → List (Visit α)
  | nil => []
  | cons node children siblings =>
    ⟨above, node, children⟩ :: (children.visits (above ++ [node]) ++ siblings.visits above)

/-- The nodes, parents before children and left before right. -/
def walk : Forest α → List α
  | nil => []
  | cons node children siblings => node :: (children.walk ++ siblings.walk)

end Forest

namespace Visit

variable {α : Type}

def parent? (visit : Visit α) : Option α := visit.above.getLast?

def depth (visit : Visit α) : Nat := visit.above.length

def children (visit : Visit α) : List α := visit.below.heads

end Visit

end Crosstab
