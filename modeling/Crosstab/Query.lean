import Crosstab.Filter
import Crosstab.Measure

/-!
# Grouping queries

A query groups the rows of a source that pass a filter by some fields, and asks for aggregates of
each group. Queries with one key are one query; their aggregates are merged.
-/
namespace Crosstab

def sortedTexts (texts : List String) : List String :=
  Sorting.arrange Filter.textOrder texts.eraseDups

/-- References in the order of their columns; those without a field come first among equals. -/
def MeasureRef.before (a b : MeasureRef) : Bool :=
  if a.column = b.column then
    match a.field, b.field with
    | none, _ => true
    | some _, none => false
    | some x, some y => Filter.textOrder x y
  else Filter.textOrder a.column b.column

inductive Purpose where
  | discovery
  | main
  deriving DecidableEq, Repr

def Purpose.name : Purpose → String
  | discovery => "discovery"
  | main => "main"

structure GroupingQuery where
  /-- Sorted, each once; no fields ask for the grand total. -/
  fields : List String
  /-- Each once, in the order of the requests. -/
  aggregates : List MeasureRef
  filter : Option Filter
  purpose : Purpose
  deriving Repr

namespace GroupingQuery

def keyFor (fields : List String) (filter : Option Filter) : String :=
  "|".intercalate (sortedTexts fields) ++ "#" ++ Filter.keyOf filter

def key (query : GroupingQuery) : String := keyFor query.fields query.filter

def sortedAggregates (query : GroupingQuery) : List MeasureRef :=
  Sorting.arrange MeasureRef.before query.aggregates

def describe (query : GroupingQuery) : String :=
  let fields := ", ".intercalate query.fields
  let columns := ", ".intercalate (query.sortedAggregates.map MeasureRef.column)
  let condition := Filter.keyOf query.filter
  "[" ++ query.purpose.name ++ "] group_by(" ++ (if fields.isEmpty then "()" else fields) ++
    ") aggregate(" ++ columns ++ ")" ++ (if condition.isEmpty then "" else " where " ++ condition)

end GroupingQuery

def addRefs (refs more : List MeasureRef) : List MeasureRef :=
  more.foldl (fun refs ref => if refs.contains ref then refs else refs ++ [ref]) refs

structure QueryRequest where
  fields : List String
  aggregates : List MeasureRef
  filter : Option Filter
  deriving Repr

def QueryRequest.key (request : QueryRequest) : String :=
  GroupingQuery.keyFor request.fields request.filter

/-- Adds a request to a list of queries: to the query with its key, or as a query of its own at the
end. -/
def addRequest (purpose : Purpose) (queries : List GroupingQuery) (request : QueryRequest) :
    List GroupingQuery :=
  if queries.any fun query => query.key == request.key then
    queries.map fun query =>
      if query.key == request.key then
        { query with aggregates := addRefs query.aggregates request.aggregates }
      else query
  else
    queries ++ [{
      fields := sortedTexts request.fields
      aggregates := addRefs [] request.aggregates
      filter := request.filter
      purpose := purpose }]

/-- The queries that answer all requests, in the order of first request. -/
def mergeRequests (purpose : Purpose) (requests : List QueryRequest) : List GroupingQuery :=
  requests.foldl (addRequest purpose) []

/-- The rows that answer queries, by the keys of the queries. -/
abbrev Results := List (String × List Row)

end Crosstab
