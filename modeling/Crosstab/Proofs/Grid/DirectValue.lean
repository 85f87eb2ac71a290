import Crosstab.Proofs.Filter.Conjunction
import Crosstab.Proofs.Grid.Expansion
import Crosstab.Proofs.Source.Grouping

/-!
# Direct values

What a cell should show, said without queries: the aggregate over the rows that count and have the
members of both leaves.
-/
namespace Crosstab

open List Crosstab.Path Value

/-- The dimensions of a leaf with their members; totals have none. -/
def Leaf.pairs (leaf : Leaf) : List (String × Value) :=
  (leaf.branch.zip leaf.path).filterMap fun entry =>
    if entry.1.isTotal then none else some entry.2

theorem Leaf.pairs_ofSteps (steps : List Step) : (Leaf.ofSteps steps).pairs = Step.pairs steps := by
  unfold Leaf.pairs Leaf.ofSteps Step.pairs
  rw [zip_map', filterMap_map]
  apply filterMap_congr
  intro step _
  cases named : step.1.field? <;> simp [Node.isTotal, Step.segment, named]

namespace Table

/-- A row counts if it passes the filter and has a value in every dimension, unless nulls are
included. -/
def counts (table : Table) (row : Row) : Bool :=
  (Filter.passes table.filter row).isTrue &&
    (table.includeNulls.truthy || table.dimensionFields.all fun field => !(row.get field).isNull)

/-- The rows that count and have the given members, in order. -/
def rowsWith (table : Table) (source : List Row) (pairs : List (String × Value)) : List Row :=
  source.filter fun row =>
    table.counts row && pairs.all fun pair => (row.get pair.1).same pair.2

/-- The aggregate of a measure over the rows with the given members; null where some members are
given and no row has them. -/
def directAggregate (table : Table) (source : List Row) (measure : Measure)
    (pairs : List (String × Value)) : Outcome Value :=
  let rows := table.rowsWith source pairs
  if !pairs.isEmpty && rows.isEmpty then .ok .null
  else do return shownNumber (← Source.aggregate measure.base rows)

/-- The value of a measure where two leaves cross. A share is taken of the rows with the members of
the leaf that is kept; it is null where either number is null or the whole is zero. -/
def directValue (table : Table) (source : List Row) (row col : Leaf) (measure : Measure) :
    Outcome Value := do
  let part ← table.directAggregate source measure (row.pairs ++ col.pairs)
  match measure.across with
  | none => return part
  | some side =>
    if part.isNull then return .null
    else
      let kept := match side with
        | .rows => col
        | .cols => row
      let whole ← table.directAggregate source measure kept.pairs
      if whole.truthy then part.divide whole else return .null

variable {table : Table} {row : Row} {narrow : List Filter} {source : List Row}
  {pairs others : List (String × Value)}

private theorem guards_hold_iff :
    (∀ filter ∈ table.guards, Filter.holds row filter = .ok true) ↔
      (table.includeNulls.truthy || table.dimensionFields.all fun field =>
        !(row.get field).isNull) := by
  unfold guards
  split
  next included => simp [included]
  next excluded =>
    simp only [excluded, Bool.false_or, all_eq_true, mem_map, forall_exists_index,
      and_imp, forall_apply_eq_imp_iff₂]
    simp [Filter.holds, Filter.testHolds]

/-- A row passes the filter of a query exactly if it counts and meets the conditions that narrow the
query. -/
theorem passes_queryFilter_iff :
    (Filter.passes (table.queryFilter narrow) row).isTrue ↔ table.counts row ∧
      ∀ filter ∈ narrow, Filter.holds row filter = .ok true := by
  rw [Outcome.isTrue_iff, queryFilter, Filter.passes_conjoin_iff, counts, Bool.and_eq_true,
    Outcome.isTrue_iff, ← guards_hold_iff, forall_mem_append, and_assoc]

theorem mem_rowsWith :
    row ∈ table.rowsWith source pairs ↔ row ∈ source ∧ table.counts row ∧
      ∀ pair ∈ pairs, (row.get pair.1).same pair.2 := by
  simp [rowsWith]

theorem all_same_iff (numbers : ∀ pair ∈ pairs, (row.get pair.1).isNan = false)
    (usable : ∀ pair ∈ pairs, pair.2.hashable) :
    (pairs.all fun pair => (row.get pair.1).same pair.2) = true ↔
      ∀ pair ∈ pairs, (row.get pair.1).key? = pair.2.key? := by
  rw [all_eq_true]
  constructor
  · intro all pair member
    exact (same_iff_key?_eq (numbers pair member) (usable pair member)).mp (all pair member)
  · intro all pair member
    exact (same_iff_key?_eq (numbers pair member) (usable pair member)).mpr (all pair member)

/-- The rows that a narrowed query finds under given values are those that count and have these
members, as long as rows with these members meet the narrowing conditions. -/
theorem rowsAt_eq_rowsWith {matched : List Row} {filter : Option Filter} {fields : List String}
    {values : Row} (passed : Source.matching filter source = .ok matched)
    (selects : ∀ row ∈ source, (Filter.passes filter row).isTrue =
      (Filter.passes (table.queryFilter narrow) row).isTrue)
    (grouped : ∀ field, field ∈ fields ↔ field ∈ pairs.map Prod.fst)
    (numbers : ∀ row ∈ source, ∀ pair ∈ pairs, (row.get pair.1).isNan = false)
    (usable : ∀ pair ∈ pairs, pair.2.hashable) (held : ∀ pair ∈ pairs, values.get pair.1 = pair.2)
    (narrowed : ∀ row : Row, (∀ pair ∈ pairs, (row.get pair.1).key? = pair.2.key?) →
      ∀ filter ∈ narrow, Filter.holds row filter = .ok true) :
    Source.rowsAt fields (fields.map values.get) matched = table.rowsWith source pairs := by
  rw [(Outcome.filterM_eq_ok passed).2, Source.rowsAt, filter_filter]
  apply filter_congr
  intro row member
  -- The query groups by the fields of the members, sorted and each once, so that the order of the
  -- members does not matter.
  have agree : (row.project fields).map key? = (fields.map values.get).map key? ↔
      ∀ pair ∈ pairs, (row.get pair.1).key? = pair.2.key? := by
    rw [Row.project, map_map, map_map, map_inj_left]
    constructor
    · intro all pair there
      have known := (grouped pair.1).mpr (mem_map_of_mem there)
      rw [← held pair there]
      exact all pair.1 known
    · intro all field known
      obtain ⟨pair, there, rfl⟩ := mem_map.mp ((grouped field).mp known)
      rw [Function.comp_apply, Function.comp_apply, held pair there]
      exact all pair there
  rw [Bool.eq_iff_iff, Bool.and_eq_true, Bool.and_eq_true, decide_eq_true_iff, agree,
    all_same_iff (numbers row member) usable, selects row member, passes_queryFilter_iff]
  constructor
  · rintro ⟨same, counted, _⟩
    exact ⟨counted, same⟩
  · rintro ⟨counted, same⟩
    exact ⟨same, counted, narrowed row same⟩

theorem rowsWith_concat (table : Table) (pairs : List (String × Value)) {field : String} {v : Value}
    (numbers : ∀ row ∈ source, (row.get field).isNan = false) (usable : v.hashable) :
    table.rowsWith source (pairs ++ [(field, v)]) =
      (table.rowsWith source pairs).filter fun row => (row.get field).key? = v.key? := by
  unfold rowsWith
  rw [filter_filter]
  apply filter_congr
  intro row listed
  have same : (row.get field).same v = decide ((row.get field).key? = v.key?) := by
    rw [Bool.eq_iff_iff, decide_eq_true_iff]
    exact same_iff_key?_eq (numbers row listed) usable
  rw [← same, Bool.and_comm ((row.get field).same v), Bool.and_assoc]
  simp

section

variable (table : Table) (same : Path.keys pairs = Path.keys others)
  (numbers : ∀ row ∈ source, ∀ pair ∈ pairs, (row.get pair.1).isNan = false)
  (usable : ∀ pair ∈ pairs, pair.2.hashable)
include same numbers usable

/-- Members count only as keys. -/
theorem rowsWith_congr :
    table.rowsWith source pairs = table.rowsWith source others := by
  -- What is said of a member through its key only can be carried over to the other list.
  have entry (list : List (String × Value)) (P : String × Option Value.Key → Prop) :
      (∀ entry ∈ Path.keys list, P entry) ↔ ∀ pair ∈ list, P (pair.1, pair.2.key?) := by
    rw [Path.keys, forall_mem_map]
  have numbers' : ∀ row ∈ source, ∀ pair ∈ others, (row.get pair.1).isNan = false := by
    intro row member
    rw [← entry others fun entry => (row.get entry.1).isNan = false, ← same, entry pairs]
    exact numbers row member
  have usable' : ∀ pair ∈ others, pair.2.hashable := by
    have forms : ∀ pair ∈ others, pair.2.key?.isSome := by
      rw [← entry others fun entry => entry.2.isSome = true, ← same, entry pairs]
      intro pair member
      exact (isSome_key? pair.2).trans (usable pair member)
    intro pair member
    exact (isSome_key? pair.2).symm.trans (forms pair member)
  apply filter_congr
  intro row member
  rw [Bool.eq_iff_iff, Bool.and_eq_true, Bool.and_eq_true,
    all_same_iff (numbers row member) usable, all_same_iff (numbers' row member) usable',
    ← entry pairs fun entry => (row.get entry.1).key? = entry.2,
    ← entry others fun entry => (row.get entry.1).key? = entry.2, same]

private theorem directAggregate_congr (measure : Measure) :
    table.directAggregate source measure pairs = table.directAggregate source measure others := by
  have lengths := congrArg List.isEmpty same
  rw [Path.keys, Path.keys, isEmpty_map, isEmpty_map] at lengths
  unfold directAggregate
  rw [table.rowsWith_congr same numbers usable, lengths]

end

theorem directValue_congr {row row' col col' : Leaf}
    (rowPairs : Path.keys row.pairs = Path.keys row'.pairs)
    (colPairs : Path.keys col.pairs = Path.keys col'.pairs)
    (numbers : ∀ entry ∈ source, ∀ pair ∈ row.pairs ++ col.pairs, (entry.get pair.1).isNan = false)
    (usable : ∀ pair ∈ row.pairs ++ col.pairs, pair.2.hashable) (measure : Measure) :
    table.directValue source row col measure = table.directValue source row' col' measure := by
  have both : Path.keys (row.pairs ++ col.pairs) = Path.keys (row'.pairs ++ col'.pairs) := by
    unfold Path.keys at *
    rw [map_append, map_append, rowPairs, colPairs]
  have part := table.directAggregate_congr both numbers usable measure
  have ofRow := table.directAggregate_congr rowPairs
    (fun entry member pair paired => numbers entry member pair (mem_append_left _ paired))
    (fun pair paired => usable pair (mem_append_left _ paired)) measure
  have ofCol := table.directAggregate_congr colPairs
    (fun entry member pair paired => numbers entry member pair (mem_append_right _ paired))
    (fun pair paired => usable pair (mem_append_right _ paired)) measure
  unfold directValue
  congr 1
  cases measure.across with
  | none => rfl
  | some side =>
    cases side with
    | rows => simp only [ofCol]
    | cols => simp only [ofRow]

end Table

end Crosstab
