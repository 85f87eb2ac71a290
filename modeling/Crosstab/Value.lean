import Crosstab.Number.Reading

/-!
# Values

The values that documents, rows and settings hold. Equality and order are numeric across truth
values, integers and doubles; other kinds compare only among themselves.
-/
namespace Crosstab

structure Date where
  year : Nat
  month : Nat
  day : Nat
  deriving DecidableEq, Repr

namespace Date

def before (a b : Date) : Bool :=
  decide (a.year < b.year) ||
    (a.year == b.year && (decide (a.month < b.month) || (a.month == b.month && decide (a.day < b.day))))

/-- Year, month and day in four, two and two digits. -/
def text (date : Date) : String :=
  let part (width n : Nat) := String.ofList (Number.paddedDigits width n)
  part 4 date.year ++ "-" ++ part 2 date.month ++ "-" ++ part 2 date.day

def literal (date : Date) : String :=
  "datetime.date(" ++ toString date.year ++ ", " ++ toString date.month ++ ", " ++
    toString date.day ++ ")"

def ofText? (text : String) : Option Date :=
  match text.splitOn "-" with
  | [year, month, day] => do
    let year ← Number.readInt? year
    let month ← Number.readInt? month
    let day ← Number.readInt? day
    some ⟨year.toNat, month.toNat, day.toNat⟩
  | _ => none

end Date

/-- The numeric reading of a value, exact in the finite case. -/
inductive Quantity where
  | nan
  | infinite (negative : Bool)
  | finite (q : Rat)
  deriving DecidableEq

namespace Quantity

def ofDouble (x : Double) : Quantity :=
  if x.isNan then nan else if x.isInfinite then infinite x.negative else finite x.toRat

/-- Numeric equality; `nan` equals nothing. -/
def same : Quantity → Quantity → Bool
  | nan, _ => false
  | _, nan => false
  | infinite a, infinite b => a == b
  | finite a, finite b => a == b
  | _, _ => false

/-- Numeric order; `nan` is below and above nothing. -/
def less : Quantity → Quantity → Bool
  | nan, _ => false
  | _, nan => false
  | infinite a, infinite b => a && !b
  | infinite a, finite _ => a
  | finite _, infinite b => !b
  | finite a, finite b => decide (a < b)

end Quantity

inductive Value where
  | null
  | bool (b : Bool)
  | int (n : Int)
  | real (x : Double)
  | text (s : String)
  | date (d : Date)
  | list (items : List Value)
  | record (fields : List (String × Value))
  deriving Repr, Inhabited

instance : Coe String Value := ⟨.text⟩

instance (n : Nat) : OfNat Value n := ⟨.int n⟩

namespace Value

/-- The number that a truth value, an integer or a double stands for. -/
def quantity? : Value → Option Quantity
  | bool b => some (.finite (if b then 1 else 0))
  | int n => some (.finite n)
  | real x => some (.ofDouble x)
  | _ => none

/-- The integer that a truth value or an integer stands for. -/
def whole? : Value → Option Int
  | bool b => some b.toNat
  | int n => some n
  | _ => none

def isNull : Value → Bool
  | null => true
  | _ => false

def isText : Value → Bool
  | text _ => true
  | _ => false

def isNan : Value → Bool
  | real x => x.isNan
  | _ => false

def typeName : Value → String
  | null => "NoneType"
  | bool _ => "bool"
  | int _ => "int"
  | real _ => "float"
  | text _ => "str"
  | date _ => "datetime.date"
  | list _ => "list"
  | record _ => "dict"

/-- Everything counts as true but null, false, zero and what is empty. -/
def truthy : Value → Bool
  | null => false
  | bool b => b
  | int n => n != 0
  | real x => !x.isZero
  | text s => !s.isEmpty
  | date _ => true
  | list items => !items.isEmpty
  | record fields => !fields.isEmpty

/-- Values that can serve as a key; lists and records cannot. -/
def hashable : Value → Bool
  | list _ => false
  | record _ => false
  | _ => true

/-- Equality without regard to kind for the kinds that have no parts. -/
def sameAtom : Value → Value → Bool
  | null, null => true
  | text a, text b => a == b
  | date a, date b => a == b
  | a, b =>
    match a.quantity?, b.quantity? with
    | some x, some y => x.same y
    | _, _ => false

mutual

/-- Equality of values: numeric across kinds of numbers, part by part for lists and records. -/
def same : Value → Value → Bool
  | list as, list bs => sameItems as bs
  | record as, record bs => as.length == bs.length && sameFields as bs
  | a, b => sameAtom a b

def sameItems : List Value → List Value → Bool
  | [], [] => true
  | a :: as, b :: bs => same a b && sameItems as bs
  | _, _ => false

/-- Every field on the left has an equal field on the right. -/
def sameFields : List (String × Value) → List (String × Value) → Bool
  | [], _ => true
  | (name, a) :: as, bs =>
    (match bs.lookup name with
      | some b => same a b
      | none => false) && sameFields as bs

end

/-- Equality of keys. What is no number is the same key as itself, and another one than all others. -/
def sameKey : Value → Value → Bool
  | real x, real y => if x.isNan then x == y else same (real x) (real y)
  | a, b => same a b

def sameKeys : List Value → List Value → Bool
  | [], [] => true
  | a :: as, b :: bs => sameKey a b && sameKeys as bs
  | _, _ => false

def lessAtom? : Value → Value → Option Bool
  | text a, text b => some (decide (a < b))
  | date a, date b => some (a.before b)
  | a, b =>
    match a.quantity?, b.quantity? with
    | some x, some y => some (x.less y)
    | _, _ => none

mutual

/-- Order of values, where they have one: numbers, texts by code point, dates, and lists by their
first difference. -/
def less? : Value → Value → Option Bool
  | list as, list bs => lessItems? as bs
  | a, b => lessAtom? a b

def lessItems? : List Value → List Value → Option Bool
  | [], [] => some false
  | [], _ :: _ => some true
  | _ :: _, [] => some false
  | a :: as, b :: bs => if same a b then lessItems? as bs else less? a b

end

def atMost? (a b : Value) : Option Bool := (less? a b).map fun below => below || same a b

mutual

/-- The literal form: texts quoted, so that a text is never taken for a number. -/
def literal : Value → String
  | null => "None"
  | bool b => if b then "True" else "False"
  | int n => toString n
  | real x => x.text
  | text s => Text.quoted s
  | date d => d.literal
  | list items => "[" ++ literalItems items ++ "]"
  | record fields => "\x7b" ++ literalFields fields ++ "\x7d"

def literalItems : List Value → String
  | [] => ""
  | [item] => literal item
  | item :: rest => literal item ++ ", " ++ literalItems rest

def literalFields : List (String × Value) → String
  | [] => ""
  | [(name, v)] => Text.quoted name ++ ": " ++ literal v
  | (name, v) :: rest => Text.quoted name ++ ": " ++ literal v ++ ", " ++ literalFields rest

end

/-- The plain form: a text is itself, a date its calendar form, all else its literal. -/
def plain : Value → String
  | text s => s
  | date d => d.text
  | v => v.literal

/-- The values, each once; of equal keys the first one stays. -/
def distinct (values : List Value) : List Value :=
  values.foldl (fun kept v => if kept.any (sameKey · v) then kept else kept ++ [v]) []

end Value

/-- Entries gathered under equal keys, in the order in which the keys first came. The first of
several equal keys is the one kept. -/
abbrev Groups (κ α : Type) := List (κ × List α)

namespace Groups

variable {κ α : Type}

/-- Adds an entry to the group of its key, or opens a group at the end. -/
def insert (same : κ → κ → Bool) (key : κ) (entry : α) : Groups κ α → Groups κ α
  | [] => [(key, [entry])]
  | (first, entries) :: rest =>
    if same first key then (first, entries ++ [entry]) :: rest
    else (first, entries) :: insert same key entry rest

def ofList (same : κ → κ → Bool) (entries : List (κ × α)) : Groups κ α :=
  entries.foldl (fun groups entry => insert same entry.1 entry.2 groups) []

end Groups

/-- A row of a source or of a result: the value of each field, in order. -/
abbrev Row := List (String × Value)

namespace Row

/-- The value of a field; null where the row has no such field. -/
def get (row : Row) (field : String) : Value := (row.lookup field).getD .null

/-- Sets a field, in place if the row has it and at the end otherwise. -/
def set (row : Row) (field : String) (value : Value) : Row :=
  if row.any (·.1 == field) then row.map fun entry => if entry.1 == field then (field, value) else entry
  else row ++ [(field, value)]

def project (row : Row) (fields : List String) : List Value := fields.map row.get

def table (fields : List String) (lines : List (List Value)) : List Row := lines.map fields.zip

end Row

end Crosstab
