import Crosstab.Error

/-!
# Cell descriptions

The line that explains a cell: the dimension values that select it, an arrow, and its measure. Such
a line can be read back.
-/
namespace Crosstab.Description

def arrow : Char := '→'

def pairText (pair : String × String) : String := pair.1 ++ ": " ++ pair.2

def describe (pairs : List (String × String)) (measure : String) : String :=
  if pairs.isEmpty then measure
  else ", ".intercalate (pairs.map pairText) ++ " " ++ String.singleton arrow ++ " " ++ measure

/-- Splits at the first character that is equal to `mark`; the mark itself is dropped. -/
def splitFirst (mark : Char) : List Char → Option (List Char × List Char)
  | [] => none
  | c :: rest =>
    if c = mark then some ([], rest)
    else (splitFirst mark rest).map fun parts => (c :: parts.1, parts.2)

/-- Splits at the first arrow, written as one character or as two. -/
def splitArrow : List Char → Option (List Char × List Char)
  | [] => none
  | '-' :: '>' :: rest => some ([], rest)
  | c :: rest =>
    if c = arrow then some ([], rest)
    else (splitArrow rest).map fun parts => (c :: parts.1, parts.2)

def splitCommas : List Char → List (List Char)
  | [] => [[]]
  | c :: rest =>
    if c = ',' then [] :: splitCommas rest
    else
      match splitCommas rest with
      | [] => [[c]]
      | part :: parts => (c :: part) :: parts

/-- A pair from one part; parts without a colon or without a dimension are no pairs. -/
def readPair? (part : List Char) : Option (String × String) :=
  match splitFirst ':' part with
  | none => none
  | some (dimension, value) =>
    let dimension := Text.trim Text.isBlank dimension
    if dimension.isEmpty then none
    else some (String.ofList dimension, String.ofList (Text.trim Text.isBlank value))

/-- Reads a description back into its pairs and its measure. A text without an arrow is read as
pairs only. -/
def parse (text : String) : List (String × String) × Option String :=
  let text := Text.trim Text.isBlank text.toList
  let (dimensions, measure) :=
    match splitArrow text with
    | some (before, after) => (before, Text.trim Text.isBlank after)
    | none => (text, [])
  ((splitCommas dimensions).filterMap readPair?,
    if measure.isEmpty then none else some (String.ofList measure))

def parseValue (value : Value) : Outcome (List (String × String) × Option String) :=
  if value.truthy then do return parse (← value.asText) else .ok ([], none)

end Crosstab.Description
