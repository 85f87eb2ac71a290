import Crosstab.Proofs.Outcome
import Crosstab.Source
import Mathlib.Algebra.BigOperators.Group.List.Basic
import Mathlib.Algebra.GroupWithZero.Nat
import Mathlib.Algebra.Ring.Int.Defs
import Mathlib.Data.Int.Order.Basic
import Mathlib.Data.List.ReduceOption

/-!
# Aggregates of integers

Over integers and nulls, sums and extremes are those of the integers, and they can be taken in
parts.
-/
namespace Crosstab

open List Value

def Value.ofInt? : Option Int → Value
  | some n => .int n
  | none => .null

instance (v : Value) : Decidable (∃ n, v = ofInt? n) :=
  match v with
  | .null => isTrue ⟨none, rfl⟩
  | .int n => isTrue ⟨some n, rfl⟩
  | .bool _ | .real _ | .text _ | .date _ | .list _ | .record _ =>
    isFalse (by rintro ⟨_ | _, same⟩ <;> cases same)

/-- The sum of some integers, if there are any. -/
def total? : List Int → Option Int
  | [] => none
  | numbers => some numbers.sum

/-! ### Folds in parts -/

/-- A fold that does not depend on the order of numbers, and that can take the result of some
numbers in their place. -/
structure Merges (fold : List Int → Option Int) : Prop where
  perm : ∀ {xs ys : List Int}, xs.Perm ys → fold xs = fold ys
  front : ∀ xs ys : List Int, fold (xs ++ ys) = fold ((fold xs).toList ++ ys)

namespace Merges

variable {fold : List Int → Option Int}

theorem fold_append_flatten (merges : Merges fold) (xs : List Int) (parts : List (List Int)) :
    fold (xs ++ parts.flatten) = fold (xs ++ (parts.map fold).reduceOption) := by
  induction parts generalizing xs with
  | nil => rfl
  | cons part parts ih =>
    have whole : (part :: parts).flatten = part ++ parts.flatten := rfl
    have results : ((part :: parts).map fold).reduceOption =
        (fold part).toList ++ (parts.map fold).reduceOption := by
      cases result : fold part <;> simp [reduceOption, result]
    calc fold (xs ++ (part :: parts).flatten)
        = fold (part ++ (xs ++ parts.flatten)) := by
          exact merges.perm (perm_append_comm_assoc _ _ _)
      _ = fold ((fold part).toList ++ (xs ++ parts.flatten)) := merges.front _ _
      _ = fold ((xs ++ (fold part).toList) ++ parts.flatten) := by
          rw [append_assoc]
          exact merges.perm (perm_append_comm_assoc _ _ _)
      _ = fold (xs ++ ((part :: parts).map fold).reduceOption) := by
          rw [ih, results, append_assoc]

end Merges

/-- Some numbers put together from left to right, if there are any. -/
def foldWith (op : Int → Int → Int) : List Int → Option Int
  | [] => none
  | first :: rest => some (rest.foldl op first)

private theorem merges_foldWith (op : Int → Int → Int) [associative : Std.Associative op]
    [commutative : Std.Commutative op] : Merges (foldWith op) where
  perm {xs ys} arranged := by
    induction arranged with
    | nil => rfl
    | cons x arranged _ => exact congrArg some arranged.foldl_op_eq
    | swap x y rest =>
      show some (rest.foldl op (op y x)) = some (rest.foldl op (op x y))
      rw [commutative.comm]
    | trans _ _ first second => exact first.trans second
  front xs ys := by
    cases xs with
    | nil => rfl
    | cons x xs => simp [foldWith]

private theorem foldWith_add : foldWith (· + ·) = total? := by
  funext numbers
  cases numbers with
  | nil => rfl
  | cons n numbers => simp [foldWith, total?, sum_eq_foldl]

private theorem foldWith_min : foldWith min = min? := by
  funext numbers
  cases numbers with
  | nil => rfl
  | cons n numbers => rw [min?_cons', foldWith]

private theorem foldWith_max : foldWith max = max? := by
  funext numbers
  cases numbers with
  | nil => rfl
  | cons n numbers => rw [max?_cons', foldWith]

/-! ### Values that are integers -/

namespace Value

private theorem foldlM_add_integers (start : Int) (numbers : List Int) :
    (numbers.map int).foldlM add (int start) = .ok (int (start + numbers.sum)) := by
  induction numbers generalizing start with
  | nil => simp
  | cons n numbers ih =>
    have step : add (int start) (int n) = .ok (int (start + n)) := rfl
    rw [map_cons, foldlM_cons, step, Outcome.ok_bind, ih, sum_cons, add_assoc]

private theorem less?_integers (a b : Int) : (int a).less? (int b) = some (decide (a < b)) := by
  have rationals : (int a).less? (int b) = some (decide ((a : Rat) < (b : Rat))) := rfl
  rw [rationals]
  simp only [Rat.intCast_lt_intCast]

private theorem extreme_integers (greatest : Bool) (first : Int) (rest : List Int) :
    extreme greatest (int first) (rest.map int) =
      .ok (int (rest.foldl (if greatest then max else min) first)) := by
  unfold extreme
  induction rest generalizing first with
  | nil => rfl
  | cons n rest ih =>
    rw [map_cons, foldl_cons, ← ih]
    -- Of equal numbers it does not matter which one stays.
    cases greatest with
    | true =>
      by_cases below : first < n
      · simp [less?_integers, below, max_eq_right (le_of_lt below)]
      · simp [less?_integers, below, max_eq_left (not_lt.mp below)]
    | false =>
      by_cases below : n < first
      · simp [less?_integers, below, min_eq_right (le_of_lt below)]
      · simp [less?_integers, below, min_eq_left (not_lt.mp below)]

end Value

namespace Source

def integers (field : String) (rows : List Row) : List Int :=
  rows.filterMap fun row =>
    match row.get field with
    | .int n => some n
    | _ => none

variable {field name : String} {rows others : List Row} {fold : List Int → Option Int}

theorem integers_flatMap (field : String) (rowsIn : Row → List Row) (records : List Row) :
    integers field (records.flatMap rowsIn) =
      (records.map fun record => integers field (rowsIn record)).flatten := by
  unfold integers
  rw [filterMap_flatMap, flatMap_def]

def HoldsIntegers (field : String) (rows : List Row) : Prop :=
  ∀ row ∈ rows, ∃ n, row.get field = ofInt? n

instance (field : String) (rows : List Row) : Decidable (HoldsIntegers field rows) :=
  inferInstanceAs (Decidable (∀ row ∈ rows, ∃ n, row.get field = ofInt? n))

theorem HoldsIntegers.of_subset (holds : HoldsIntegers field rows) (within : others ⊆ rows) :
    HoldsIntegers field others :=
  fun row member => holds row (within member)

private theorem presentValues_eq_integers (holds : HoldsIntegers field rows) :
    presentValues field rows = (integers field rows).map Value.int := by
  unfold presentValues integers
  induction rows with
  | nil => rfl
  | cons row rows ih =>
    have rest := ih fun other member => holds other (mem_cons_of_mem _ member)
    obtain ⟨n, value⟩ := holds row mem_cons_self
    rw [map_cons, filter_cons, filterMap_cons, value, rest]
    cases n <;> rfl

/-- An aggregate of a field, by its name, as a fold over integers. -/
inductive FoldsBy : String → (List Int → Option Int) → Prop
  | sum : FoldsBy "sum" total?
  | min : FoldsBy "min" List.min?
  | max : FoldsBy "max" List.max?

theorem FoldsBy.merges (folds : FoldsBy name fold) : Merges fold := by
  cases folds with
  | sum => exact foldWith_add ▸ merges_foldWith _
  | min => exact foldWith_min ▸ merges_foldWith _
  | max => exact foldWith_max ▸ merges_foldWith _

theorem aggregate_integers (folds : FoldsBy name fold) (holds : HoldsIntegers field rows) :
    aggregate ⟨some field, name⟩ rows = .ok (ofInt? (fold (integers field rows))) := by
  unfold aggregate
  simp only [presentValues_eq_integers holds]
  cases integers field rows with
  | nil => cases folds <;> rfl
  | cons n numbers =>
    cases folds with
    | sum =>
      have total := foldlM_add_integers 0 (n :: numbers)
      rw [zero_add] at total
      exact total
    | min =>
      exact extreme_integers false n numbers
    | max =>
      exact extreme_integers true n numbers

end Source

end Crosstab
