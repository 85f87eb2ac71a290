import Crosstab.Proofs.Axis.Hiding
import Crosstab.Proofs.Axis.Related
import Crosstab.Proofs.Grid.NodeRows
import Crosstab.Proofs.Statement.WellFormed

/-!
# Statements with rows and columns exchanged

If all measures are bound on one side, the transposed statement compiles to the same table with its
axes exchanged and its measures renamed.
-/
namespace Crosstab

open List Outcome Item Crosstab.Measure Value

@[simp] theorem Side.other_other (side : Side) : side.other.other = side := by
  cases side <;> rfl

/-! ### Transposed statements -/

namespace Binding

/-- The name of the other side, however the name of a side was written. -/
def otherSide : Value → Value
  | .text name =>
    if Text.lower name = "rows" then .text "cols"
    else if Text.lower name = "cols" then .text "rows"
    else .text name
  | across => across

def transpose (binding : Binding) : Binding := { binding with across := otherSide binding.across }

private theorem readAcross_otherSide (across : Value) :
    readAcross (otherSide across) = (readAcross across).map (Option.map Side.other) := by
  cases across with
  | text name =>
    by_cases rows : Text.lower name = "rows"
    · rw [otherSide]
      simp only [readAcross, asText, ok_bind, rows, ↓reduceIte]
      rfl
    · by_cases cols : Text.lower name = "cols"
      · rw [otherSide, if_pos cols]
        simp only [readAcross, asText, ok_bind, cols, ↓reduceIte]
        rfl
      · rw [otherSide, if_neg cols]
        simp only [readAcross, asText, ok_bind, rows, cols, ↓reduceIte]
        rfl
  | _ => rfl

end Binding

namespace Item

variable {β γ δ : Type}

mutual

def mapClause (f : β → γ) : AxisClause β → AxisClause γ
  | [] => []
  | group :: rest => mapGroup f group :: mapClause f rest

def mapGroup (f : β → γ) : Group β → Group γ
  | [] => []
  | item :: rest => map f item :: mapGroup f rest

def map (f : β → γ) : Item β → Item γ
  | dimension d => dimension d
  | total t => total t
  | binding b => binding (f b)
  | axis groups => axis (mapClause f groups)

end

end Item

/-- The statement with its clauses exchanged, and with them the sides of its shares. -/
def Statement.transpose (statement : Statement) : Statement where
  rows := mapClause Binding.transpose (statement.cols.getD [])
  cols := some (mapClause Binding.transpose statement.rows)
  filter := statement.filter
  includeNulls := statement.includeNulls

/-- All measures of a statement are bound on one side. -/
def Statement.BindsOneSide (statement : Statement) : Prop :=
  ∃ side, clauseBindings (statement.clause side) = []

namespace Item

variable {β γ : Type}

theorem corresponds_mapClause (f : β → γ) (clause : AxisClause β) :
    ClauseCorresponds Eq (fun b b' => f b = b') clause (mapClause f clause) :=
  clause_induction (C := fun clause => ClauseCorresponds Eq (fun b b' => f b = b') clause
      (mapClause f clause))
    (G := fun group => Forall₂ (Corresponds Eq fun b b' => f b = b') group (mapGroup f group))
    (I := fun item => Corresponds Eq (fun b b' => f b = b') item (map f item))
    (fun _ => .dimension rfl) .total (fun _ => .binding rfl) (fun _ => .axis) .nil
    (fun _ _ => .cons) .nil (fun _ _ => .cons) clause

/-- Without bindings a clause takes no label. -/
theorem relabelClause_of_no_bindings (absent : γ) (clause : AxisClause β)
    (unbound : clauseBindings clause = []) :
    ∃ relabelled, ∀ labels : List γ, relabelClause absent clause labels = (relabelled, labels) := by
  refine clause_induction
    (C := fun clause => clauseBindings clause = [] → ∃ relabelled, ∀ labels : List γ,
      relabelClause absent clause labels = (relabelled, labels))
    (G := fun group => groupBindings group = [] → ∃ relabelled, ∀ labels : List γ,
      relabelGroup absent group labels = (relabelled, labels))
    (I := fun item => bindings item = [] → ∃ relabelled, ∀ labels : List γ,
      relabel absent item labels = (relabelled, labels)) ?_ ?_ ?_ ?_ ?_ ?_ ?_ ?_ clause unbound
  · exact fun d _ => ⟨.dimension d, fun _ => rfl⟩
  · exact fun t _ => ⟨.total t, fun _ => rfl⟩
  · exact fun _ unbound => absurd unbound (cons_ne_nil _ _)
  · intro groups inside unbound
    obtain ⟨groups', relabelled⟩ := inside unbound
    exact ⟨.axis groups', fun labels => by simp only [relabel, relabelled]⟩
  · exact fun _ => ⟨[], fun _ => rfl⟩
  · intro group rest inside behind unbound
    rw [clauseBindings, append_eq_nil_iff] at unbound
    obtain ⟨first, relabelled⟩ := inside unbound.1
    obtain ⟨others, relabelledRest⟩ := behind unbound.2
    exact ⟨first :: others, fun labels => by simp only [relabelClause, relabelled, relabelledRest]⟩
  · exact fun _ => ⟨[], fun _ => rfl⟩
  · intro item rest inside behind unbound
    rw [groupBindings, append_eq_nil_iff] at unbound
    obtain ⟨first, relabelled⟩ := inside unbound.1
    obtain ⟨others, relabelledRest⟩ := behind unbound.2
    exact ⟨first :: others, fun labels => by simp only [relabelGroup, relabelled, relabelledRest]⟩

end Item

/-! ### Measures -/

namespace MeasureIdentity

/-- The same but for the side of a share. -/
def turned (identity : MeasureIdentity) : MeasureIdentity :=
  { identity with across := identity.across.map Side.other }

private theorem same_turned (a b : MeasureIdentity) : a.turned.same b.turned = a.same b := by
  have sides : (a.turned.across == b.turned.across) = (a.across == b.across) := by
    rw [turned, turned]
    cases a.across with
    | none => cases b.across <;> rfl
    | some side => cases b.across with
      | none => rfl
      | some other => cases side <;> cases other <;> rfl
  unfold same
  rw [sides]
  rfl

private theorem ofAggregation_transpose {schema : Schema} {binding : Binding} {across : Option Side}
    {aggregation : Aggregation} {identity : MeasureIdentity}
    (checked : ofAggregation schema binding across aggregation = .ok identity) :
    ofAggregation schema binding.transpose (across.map Side.other) aggregation =
      .ok identity.turned := by
  obtain ⟨method, named, checked⟩ := bind_eq_ok.mp checked
  obtain ⟨field, suits, checked⟩ := bind_eq_ok.mp checked
  obtain ⟨format, formatted, checked⟩ := bind_eq_ok.mp checked
  obtain ⟨label, labelled, checked⟩ := bind_eq_ok.mp checked
  cases checked
  have formatted' : Binding.readFormat aggregation.format binding.format (across.map Side.other) =
      .ok format := by
    unfold Binding.readFormat at formatted ⊢
    rw [Option.isSome_map]
    exact formatted
  refine bind_eq_ok.mpr ⟨method, named, bind_eq_ok.mpr ⟨field, suits,
    bind_eq_ok.mpr ⟨format, formatted', bind_eq_ok.mpr ⟨label, labelled, rfl⟩⟩⟩⟩

end MeasureIdentity

namespace Measure

/-- The measure under another name, its share taken across the other side. -/
def turned (newName : String → String) (measure : Measure) : Measure :=
  { measure with
    name := newName measure.name
    across := measure.across.map Side.other }

private theorem map_turned_congr {newName other : String → String} {measures : List Measure}
    (agree : ∀ name ∈ measures.map Measure.name, newName name = other name) :
    measures.map (turned newName) = measures.map (turned other) := by
  refine map_congr_left fun measure member => ?_
  rw [turned, turned, agree _ (mem_map_of_mem member)]

/-- One renaming does the same as another to all names of some measures. -/
def Extends (measures : List Measure) (newName extended : Equiv.Perm String) : Prop :=
  ∀ name ∈ measures.map Measure.name, extended name = newName name

variable {before after : List Measure}

theorem Extends.trans {first second third : Equiv.Perm String}
    (kept : before.map Measure.name ⊆ after.map Measure.name) (one : Extends before first second)
    (two : Extends after second third) : Extends before first third :=
  fun name member => (two name (kept member)).trans (one name member)

/-- A measure of the other side is adjoined in the same case. If it is new, the renaming is extended by
its name: neither the old nor the new name was taken, so the two can be exchanged first. -/
theorem exists_adjoin_turned (newName : Equiv.Perm String) (measures : List Measure)
    (identity : MeasureIdentity) : ∃ extended, Extends measures newName extended ∧
      adjoin (measures.map (turned newName)) identity.turned =
        ((adjoin measures identity).1.map (turned extended),
          extended (adjoin measures identity).2) := by
  unfold adjoin
  have same : ((fun measure : Measure => measure.identity.same identity.turned) ∘
      turned newName) = fun measure => measure.identity.same identity := by
    funext measure
    exact MeasureIdentity.same_turned measure.identity identity
  rw [find?_map, same]
  cases measures.find? fun measure => measure.identity.same identity with
  | some measure => exact ⟨newName, fun _ _ => rfl, rfl⟩
  | none =>
    -- Both sides choose a fresh name, each among its own.
    have free := freshName_not_mem (measures.map Measure.name) identity.baseName
    have free' := freshName_not_mem ((measures.map (turned newName)).map Measure.name)
      identity.turned.baseName
    generalize freshName (measures.map Measure.name) identity.baseName = name at free ⊢
    simp only [Option.map_none]
    generalize freshName ((measures.map (turned newName)).map Measure.name)
      identity.turned.baseName = name' at free' ⊢
    have extends' : Extends measures newName
        (newName.trans (Equiv.swap (newName name) name')) := by
      intro other known
      refine Equiv.swap_apply_of_ne_of_ne ?_ ?_
      · exact fun same => free (newName.injective same ▸ known)
      · rintro rfl
        refine free' ?_
        rw [map_map]
        obtain ⟨measure, member, rfl⟩ := mem_map.mp known
        exact mem_map.mpr ⟨measure, member, rfl⟩
    have own : newName.trans (Equiv.swap (newName name) name') name = name' :=
      Equiv.swap_apply_left _ _
    have adjoined : (identity.toMeasure name).turned
        (newName.trans (Equiv.swap (newName name) name')) = identity.turned.toMeasure name' :=
      congrArg identity.turned.toMeasure own
    refine ⟨_, extends', ?_⟩
    rw [map_append, map_singleton, map_turned_congr extends', adjoined, own]

variable {schema : Schema}

private theorem exists_bindAggregations_turned {binding : Binding} {across : Option Side}
    {aggregations : List Aggregation} {names : List String}
    (bound : bindAggregations schema binding across before aggregations = .ok (after, names))
    (newName : Equiv.Perm String) : ∃ extended, Extends before newName extended ∧
      bindAggregations schema binding.transpose (across.map Side.other)
        (before.map (turned newName)) aggregations =
          .ok (after.map (turned extended), names.map extended) := by
  induction aggregations generalizing before names newName with
  | nil =>
    cases bound
    exact ⟨newName, fun _ _ => rfl, rfl⟩
  | cons aggregation rest ih =>
    obtain ⟨identity, others, checked, later, rfl⟩ := bindAggregations_cons_iff.mp bound
    -- The rest may extend the renaming further, but leaves alone what is named by now.
    obtain ⟨first, extendsFirst, adjoined⟩ := exists_adjoin_turned newName before identity
    obtain ⟨extended, extendsRest, boundRest⟩ := ih later first
    refine ⟨extended, extendsFirst.trans (fun _ known => mem_names_adjoin.mpr (.inl known))
      extendsRest, ?_⟩
    refine bindAggregations_cons_iff.mpr ⟨_, others.map extended,
      MeasureIdentity.ofAggregation_transpose checked, ?_, ?_⟩
    · rw [adjoined]
      exact boundRest
    · rw [map_cons, extendsRest _ (mem_names_adjoin.mpr (.inr rfl)), adjoined]

/-- Bindings with the sides of their shares exchanged make the same measures under other names. -/
theorem exists_bindAll_turned {bindings : List Binding} {bound : List (List String)}
    (returned : bindAll schema before bindings = .ok (after, bound)) (newName : Equiv.Perm String) :
    ∃ extended, Extends before newName extended ∧
      bindAll schema (before.map (turned newName)) (bindings.map Binding.transpose) =
        .ok (after.map (turned extended), bound.map (map extended)) := by
  induction bindings generalizing before bound newName with
  | nil =>
    cases returned
    exact ⟨newName, fun _ _ => rfl, rfl⟩
  | cons binding rest ih =>
    obtain ⟨across, middle, names, others, some, read, one, later, rfl⟩ :=
      bindAll_cons_iff.mp returned
    have named {name : String} : name ∈ middle.map Measure.name ↔ _ :=
      mem_names_bindAggregations one
    obtain ⟨first, extendsFirst, boundFirst⟩ := exists_bindAggregations_turned one newName
    obtain ⟨extended, extendsRest, boundRest⟩ := ih later first
    refine ⟨extended, extendsFirst.trans (fun _ known => named.mpr (.inl known)) extendsRest,
      bindAll_cons_iff.mpr ⟨across.map Side.other, _, _, _, some, ?_, boundFirst, boundRest, ?_⟩⟩
    · rw [Binding.transpose, Binding.readAcross_otherSide, read]
      rfl
    -- What was named before is not renamed again.
    · rw [map_congr_left fun name member => (extendsRest name (named.mpr (.inr member))).symm]
      rfl

end Measure

/-! ### Axes -/

/-- The node with its measures under other names. -/
def Node.renamed (newName : String → String) (node : Node) : Node :=
  { node with measures := node.measures.map newName }

variable {newName : String → String} {schema : Schema} {measures : List Measure}

private theorem Node.compatible_renamed (injective : Function.Injective newName) :
    Node.Compatible newName fun node node' => node' = node.renamed newName where
  injective := injective
  leaf _ _ := rfl
  shift _ _ _ renamed := by
    rw [renamed]
    rfl
  bind names node _ renamed := by
    rw [renamed]
    unfold Node.bind Node.renamed
    rw [← addNames_map injective]

namespace Item

variable {measures : List Measure}

/-- The measures stand for the same aggregates, whatever their names and sides. -/
theorem resolveOrder_turned (newName : String → String) (measures : List Measure) :
    Dimension.resolveOrder (measures.map (turned newName)) = Dimension.resolveOrder measures := by
  funext field ref
  unfold Dimension.resolveOrder
  simp only [find?_map]
  have named : ((fun measure : Measure => (measure.field.elim .null Value.text).same ref.field &&
      (ref.aggregate.isNull || (Value.text measure.aggregate).same ref.aggregate)) ∘
        turned newName) = fun measure => (measure.field.elim .null Value.text).same ref.field &&
      (ref.aggregate.isNull || (Value.text measure.aggregate).same ref.aggregate) := rfl
  rw [named]
  cases measures.find? fun measure : Measure =>
    (measure.field.elim .null Value.text).same ref.field &&
      (ref.aggregate.isNull || (Value.text measure.aggregate).same ref.aggregate) <;> rfl

private theorem compileDimension_turned (newName : String → String) (d : Dimension) :
    compileDimension schema (measures.map (turned newName)) d =
      compileDimension schema measures d := by
  simp only [compileDimension, Dimension.compileOrdering, resolveOrder_turned]

end Item

def Axis.renamed (newName : String → String) (axis : Axis) : Axis :=
  ⟨axis.forest.map (Node.renamed newName), axis.measures.map newName⟩

/-- With its measures under other names a clause makes the same nodes. -/
theorem Axis.ofClause_renamed (injective : Function.Injective newName)
    {clause : Option (AxisClause (List String))} {axis : Axis}
    (built : Axis.ofClause schema measures clause = .ok axis)
    (clause' : Option (AxisClause (List String)))
    (corresponds : Item.ClauseCorresponds Eq (Renames newName) (clause.getD []) (clause'.getD [])) :
    Axis.ofClause schema (measures.map (turned newName)) clause' = .ok (axis.renamed newName) := by
  obtain ⟨part, compiled, rfl⟩ := Axis.ofClause_eq_ok built
  have leaves : ∀ d d' place label, d = d' →
      compileDimension schema measures d = .ok (.leaf place label) →
      ∃ part', compileDimension schema (measures.map (turned newName)) d' = .ok part' ∧
        (Part.leaf place label).Related newName (fun node node' => node' = node.renamed newName) part' := by
    rintro d _ place label rfl built
    exact ⟨_, (compileDimension_turned newName d).trans built, .cons rfl .nil .nil, rfl⟩
  obtain ⟨part', compiled', related⟩ := exists_compileClause_related
    (Node.compatible_renamed injective) leaves corresponds compiled
  refine bind_eq_ok.mpr ⟨part', compiled', ?_⟩
  rw [related.forest.eq_map, related.names]
  rfl

/-! ### Tables -/

/-- The table with its axes exchanged and its measures under other names. -/
def Table.turned (newName : String → String) (table : Table) : Table :=
  { table with
    rows := table.cols.renamed newName
    cols := table.rows.renamed newName
    measures := table.measures.map (Measure.turned newName) }

namespace Statement

variable {statement : Statement}

private theorem clauseBindings_transpose (clause : AxisClause Binding) :
    clauseBindings (mapClause Binding.transpose clause) =
      (clauseBindings clause).map Binding.transpose := by
  have related := clauseBindings_related (corresponds_mapClause Binding.transpose clause)
  rw [← forall₂_map_left_iff, forall₂_eq_eq_eq] at related
  exact related.symm

/-- If one side has all bindings, those of the transposed statement come in the same order. -/
theorem BindsOneSide.bindings_transpose (oneSided : statement.BindsOneSide) :
    statement.transpose.bindings = statement.bindings.map Binding.transpose := by
  simp only [bindings, transpose, Option.getD_some, clauseBindings_transpose, map_append]
  obtain ⟨side, unbound⟩ := oneSided
  cases side with
  | rows =>
    rw [clause] at unbound
    rw [unbound, map_nil, append_nil, nil_append]
  | cols =>
    rw [clause] at unbound
    rw [unbound, map_nil, append_nil, nil_append]

/-- The clauses of the transposed statement take the names of the other sides, renamed. -/
theorem BindsOneSide.named_transpose (oneSided : statement.BindsOneSide)
    (names : List (List String)) (newName : String → String) (side : Side) :
    Item.ClauseCorresponds Eq (Renames newName) ((statement.named names side).getD [])
      ((statement.transpose.named (names.map (map newName)) side.other).getD []) := by
  have related (clause : AxisClause Binding) {labels labels' : List (List String)}
      (listed : Forall₂ (Renames newName) labels labels') :=
    relabelClause_related (L := Renames newName) [] [] rfl
      (corresponds_mapClause Binding.transpose clause) listed
  have listed : Forall₂ (Renames newName) names
      (names.map (map newName)) := forall₂_map_right_iff.mpr (forall₂_same.mpr fun _ _ => rfl)
  obtain ⟨ofCols, left⟩ := related (statement.cols.getD []) listed
  obtain ⟨empty, unbound⟩ := oneSided
  -- The side without bindings takes no name, whatever is left for it, and the other takes all.
  obtain ⟨clause, relabelled⟩ := relabelClause_of_no_bindings ([] : List String) _ unbound
  have both : Item.ClauseCorresponds Eq (Renames newName)
        (relabelClause [] (statement.cols.getD []) (relabelClause [] statement.rows names).2).1
        (relabelClause [] statement.transpose.rows (names.map (map newName))).1 ∧
      Item.ClauseCorresponds Eq (Renames newName) (relabelClause [] statement.rows names).1
        (relabelClause [] (mapClause Binding.transpose statement.rows) (relabelClause []
          statement.transpose.rows (names.map (map newName))).2).1 := by
    cases empty with
    | rows =>
      rw [Statement.clause] at relabelled
      have ofRows := (related statement.rows left).1
      rw [relabelled] at ofRows ⊢
      exact ⟨ofCols, ofRows⟩
    | cols =>
      rw [Statement.clause] at relabelled
      rw [relabelled] at ofCols left ⊢
      exact ⟨ofCols, (related statement.rows left).1⟩
  cases side with
  | rows => exact both.2
  | cols =>
    have ofCols := both.1
    unfold Statement.named
    revert ofCols
    cases statement.cols <;> exact id

end Statement

/-- The measures of a table, the number of rows among them if nothing else is asked for, are those of
the bindings with the sides of their shares exchanged, under other names. -/
theorem Measure.exists_turned {bindings : List Binding} {names : List (List String)}
    (bound : bindAll schema [] bindings = .ok (measures, names)) :
    ∃ newName : Equiv.Perm String,
      bindAll schema [] (bindings.map Binding.transpose) =
        .ok (measures.map (turned newName), names.map (map newName)) ∧
      orRowCount (measures.map (turned newName)) = (orRowCount measures).map (turned newName) := by
  by_cases requested : bindings = []
  -- The number of rows keeps its name, and it is no share.
  · subst requested
    cases bound
    exact ⟨Equiv.refl String, rfl, rfl⟩
  · obtain ⟨newName, _, bound'⟩ := exists_bindAll_turned bound (Equiv.refl String)
    refine ⟨newName, bound', ?_⟩
    have some : ¬ measures.isEmpty := fun none =>
      ne_nil_of_bindAll bound requested (isEmpty_iff.mp none)
    rw [orRowCount, orRowCount, isEmpty_map, if_neg some, if_neg some]

/-- The transposed statement compiles to the table with its axes exchanged. -/
theorem Table.exists_compile_transpose {includeNulls : Value} {statement : Statement}
    (oneSided : statement.BindsOneSide) {table : Table}
    (compiled : Table.compile schema includeNulls statement = .ok table) :
    ∃ newName : Equiv.Perm String,
      Table.compile schema includeNulls statement.transpose = .ok (table.turned newName) := by
  obtain ⟨measures, names, made⟩ := compile_eq_ok_iff.mp compiled
  obtain ⟨newName, bound, measured⟩ := Measure.exists_turned made.bound
  have turned : (table.turned newName).measures = orRowCount (measures.map (Measure.turned newName)) := by
    rw [measured, ← made.measures]
    rfl
  refine ⟨newName, compile_eq_ok_iff.mpr ⟨_, _, made.filter, oneSided.bindings_transpose.symm ▸ bound,
    turned, fun side => ?_, made.includeNulls⟩⟩
  have built := Axis.ofClause_renamed newName.injective (made.axis side.other) _
    (oneSided.named_transpose names newName side.other)
  rw [Side.other_other] at built
  cases side <;> exact built

end Crosstab
