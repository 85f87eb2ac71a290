import Crosstab.Display
import Crosstab.Forest
import Crosstab.Measure

/-!
# Grids

The assembled table: header trees and leaves for both sides, and the cells where leaves cross. A
grid can be read cell by cell or as flat records.
-/
namespace Crosstab

/-- The way from the root of an axis to a member: a field and its value at every step. -/
abbrev Path := List (String × Value)

namespace Path

/-- The field that stands for a total in a path. -/
def totalField : String := "*"

def totalSegment : String × Value := (totalField, .null)

def same (a b : Path) : Bool :=
  a.map (·.1) == b.map (·.1) && Value.sameKeys (a.map (·.2)) (b.map (·.2))

def hashable (path : Path) : Bool := path.all fun segment => segment.2.hashable

def label (path : Path) : String :=
  " / ".intercalate (path.map fun (field, value) =>
    if field = totalField then "ALL" else field ++ "=" ++ value.plain)

end Path

structure Header where
  node : Nat
  field : Option String
  value : Value
  label : Value
  path : Path
  deriving Repr

def Header.isTotal (header : Header) : Bool := header.field.isNone

structure CellValue where
  measure : String
  raw : Value
  formatted : String
  description : Value
  deriving Repr

structure Record where
  row : String
  col : String
  measure : String
  raw : Value
  formatted : String
  deriving Repr

/-- The values of cells, by the paths of their row and column. -/
abbrev Cells := List ((Path × Path) × List CellValue)

structure Grid where
  rowHeaders : Forest Header
  colHeaders : Forest Header
  rowLeaves : List Path
  colLeaves : List Path
  measures : List Measure
  cells : Cells
  deriving Repr

namespace Grid

def shape (grid : Grid) : Nat × Nat := (grid.rowLeaves.length, grid.colLeaves.length)

def valuesAt (grid : Grid) (row col : Path) : List CellValue :=
  match grid.cells.find? fun cell => cell.1.1.same row && cell.1.2.same col with
  | some cell => cell.2
  | none => []

/-- One value where two paths cross: that of a measure, or the first. -/
def cell? (grid : Grid) (row col : Path) (measure : Option String) : Option CellValue :=
  match measure with
  | none => (grid.valuesAt row col).head?
  | some name => (grid.valuesAt row col).find? fun value => value.measure == name

/-- Sets the values of a cell. A cell that is there keeps its place and its paths. -/
def setCell (row col : Path) (values : List CellValue) : Cells → Cells
  | [] => [((row, col), values)]
  | cell :: rest =>
    if cell.1.1.same row && cell.1.2.same col then (cell.1, values) :: rest
    else cell :: setCell row col values rest

def records (grid : Grid) : List Record :=
  grid.rowLeaves.flatMap fun row =>
    grid.colLeaves.flatMap fun col =>
      (grid.valuesAt row col).map fun value => {
        row := row.label
        col := col.label
        measure := value.measure
        raw := value.raw
        formatted := value.formatted }

/-- Up to this magnitude every integer is a double. -/
def exactBound : Nat := 9007199254740992

/-- A raw value as a double, if that loses nothing. -/
def exactDouble : Value → Outcome Value
  | .null => .ok .null
  | .real x => .ok (.real x)
  | v =>
    match v.whole? with
    | some n =>
      if n.natAbs ≤ exactBound then do return .real (← v.asDouble) else .error (.misuse .inexact)
    | none => .error (.misuse .inexact)

def typedRecords (grid : Grid) : Outcome (List Record) :=
  grid.records.mapM fun record => do return { record with raw := ← exactDouble record.raw }

end Grid

end Crosstab
