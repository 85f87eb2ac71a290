import Crosstab.Proofs.Grid.Expansion

/-!
# Cells of grids

Cells are kept under the paths of their leaves. Each pair of paths shows what was written there
last, by the last leaves with these paths.
-/
namespace Crosstab

open List Crosstab.Path Leaf Outcome Grid

/-! ### Writing cells -/

namespace Grid

def lookup (cells : Cells) (row col : Path) :
    Option (List CellValue) :=
  (cells.find? fun cell => cell.1.1.same row && cell.1.2.same col).map Prod.snd

theorem valuesAt_eq (grid : Grid) (row col : Path) :
    grid.valuesAt row col = (lookup grid.cells row col).getD [] := by
  unfold valuesAt lookup
  cases grid.cells.find? fun cell => cell.1.1.same row && cell.1.2.same col <;> rfl

/-- All paths of some cells can serve as keys. -/
def Usable (cells : Cells) : Prop :=
  ∀ cell ∈ cells, cell.1.1.hashable = true ∧ cell.1.2.hashable = true

variable {cells : Cells} {row col : Path}

private theorem usable_setCell (usable : Usable cells) (usableRow : row.hashable)
    (usableCol : col.hashable) (values : List CellValue) :
    Usable (setCell row col values cells) := by
  induction cells with
  | nil =>
    intro cell member
    rw [mem_singleton.mp member]
    exact ⟨usableRow, usableCol⟩
  | cons first rest ih =>
    have others : Usable rest := fun cell member => usable cell (mem_cons_of_mem _ member)
    rw [setCell]
    split
    · intro cell member
      rcases mem_cons.mp member with rfl | later
      · exact usable first mem_cons_self
      · exact others cell later
    · intro cell member
      rcases mem_cons.mp member with rfl | later
      · exact usable cell mem_cons_self
      · exact ih others cell later

/-- Writing a cell changes what is kept under its paths and nothing else. -/
theorem lookup_setCell (usable : Usable cells) (usableRow : row.hashable)
    (usableCol : col.hashable) (values : List CellValue) (r c : Path) :
    lookup (setCell row col values cells) r c =
      if row.same r && col.same c then some values else lookup cells r c := by
  induction cells with
  | nil =>
    unfold lookup setCell
    by_cases here : (row.same r && col.same c)
    · simp [here]
    · simp [here]
  | cons first rest ih =>
    obtain ⟨firstRow, firstCol⟩ := usable first mem_cons_self
    have others : Usable rest := fun cell member => usable cell (mem_cons_of_mem _ member)
    rw [setCell]
    split
    next replaced =>
      -- The cell that is replaced answers to the same paths as the new one.
      rw [Bool.and_eq_true, same_iff firstRow, same_iff firstCol] at replaced
      have alike : (first.1.1.same r && first.1.2.same c) = (row.same r && col.same c) := by
        rw [Bool.eq_iff_iff, Bool.and_eq_true, Bool.and_eq_true, same_iff firstRow,
          same_iff firstCol, same_iff usableRow, same_iff usableCol, replaced.1,
          replaced.2]
      unfold lookup
      by_cases here : (row.same r && col.same c)
      · simp [alike, here]
      · simp [alike, here]
    next apart =>
      have continued := ih others
      unfold lookup at continued ⊢
      rw [find?_cons, find?_cons]
      by_cases asked : (first.1.1.same r && first.1.2.same c)
      · have elsewhere : (row.same r && col.same c) ≠ true := by
          intro here
          rw [Bool.and_eq_true, same_iff firstRow, same_iff firstCol] at asked
          rw [Bool.and_eq_true, same_iff usableRow, same_iff usableCol] at here
          apply apart
          rw [Bool.and_eq_true, same_iff firstRow, same_iff firstCol, asked.1, asked.2,
            here.1, here.2]
          exact ⟨rfl, rfl⟩
        simp [asked, elsewhere]
      · simp only [asked]
        exact continued

/-- After a run of writes each pair of paths shows what was written there last. -/
theorem lookup_foldl_setCell {entries : Cells}
    (usable : Usable entries) (r c : Path) :
    lookup (entries.foldl (fun cells entry => setCell entry.1.1 entry.1.2 entry.2 cells) []) r c =
      (entries.reverse.find? fun entry => entry.1.1.same r && entry.1.2.same c).map Prod.snd := by
  have written : Usable (entries.foldl (fun cells entry =>
        setCell entry.1.1 entry.1.2 entry.2 cells) []) ∧
      lookup (entries.foldl (fun cells entry => setCell entry.1.1 entry.1.2 entry.2 cells) []) r c =
        (entries.reverse.find? fun entry => entry.1.1.same r && entry.1.2.same c).map Prod.snd := by
    -- From the last write backwards: it is seen at its own paths and leaves all others alone.
    induction entries using reverseRecOn with
    | nil => exact ⟨fun cell member => (by cases member), rfl⟩
    | append_singleton entries entry ih =>
      obtain ⟨usableRow, usableCol⟩ := usable entry (by simp)
      obtain ⟨kept, shown⟩ := ih fun cell member => usable cell (mem_append_left _ member)
      rw [foldl_append, foldl_cons, foldl_nil]
      refine ⟨usable_setCell kept usableRow usableCol _, ?_⟩
      rw [lookup_setCell kept usableRow usableCol, shown]
      by_cases here : (entry.1.1.same r && entry.1.2.same c)
      · simp [here]
      · simp [here]
  exact written.2

end Grid

/-! ### Filling crossings -/

/-- The last of some leaves that has a path. -/
def Leaf.lastAt (leaves : List Leaf) (path : Path) : Option Leaf :=
  leaves.reverse.find? fun leaf => leaf.path.same path

def Leaf.allAt (leaves : List Leaf) (path : Path) : List Leaf :=
  leaves.filter fun leaf => leaf.path.same path

theorem Leaf.lastAt_eq_getLast? (leaves : List Leaf) (path : Path) :
    lastAt leaves path = (allAt leaves path).getLast? := by
  rw [lastAt, allAt, getLast?_filter]

variable {leaves : List Leaf} {path : Path} {last : Leaf}

private theorem Leaf.exists_lastAt {leaf : Leaf} (member : leaf ∈ leaves)
    (usable : leaf.path.hashable) : ∃ last, lastAt leaves leaf.path = some last := by
  rw [← Option.isSome_iff_exists, lastAt, find?_isSome]
  exact ⟨leaf, mem_reverse.mpr member, (same_iff usable).mpr rfl⟩

theorem Leaf.mem_of_lastAt (found : lastAt leaves path = some last) : last ∈ leaves :=
  mem_reverse.mp (mem_of_find?_eq_some found)

theorem Leaf.mem_of_lastCrossing {rows cols : List Leaf} {r c : Path} {row col : Leaf}
    (found : ((lastAt rows r).bind fun row => (lastAt cols c).map fun col => (row, col)) =
      some (row, col)) : row ∈ rows ∧ col ∈ cols := by
  obtain ⟨_, atRow, rest⟩ := Option.bind_eq_some_iff.mp found
  obtain ⟨_, atCol, pair⟩ := Option.map_eq_some_iff.mp rest
  cases pair
  exact ⟨mem_of_lastAt atRow, mem_of_lastAt atCol⟩

theorem Leaf.crossing_map (row col : Option Leaf) (f g : Leaf → Leaf) :
    ((row.map f).bind fun row => (col.map g).map fun col => (row, col)) =
      (row.bind fun row => col.map fun col => (row, col)).map (Prod.map f g) := by
  cases row <;> cases col <;> rfl

theorem Leaf.crossing_swap (row col : Option Leaf) :
    (col.bind fun col => row.map fun row => (col, row)) =
      (row.bind fun row => col.map fun col => (row, col)).map Prod.swap := by
  cases row <;> cases col <;> rfl

theorem Leaf.keys_of_lastAt (found : lastAt leaves path = some last) (usable : last.path.hashable) :
    last.path.keys = path.keys := by
  have same := find?_some found
  exact (same_iff usable).mp same

namespace Assembly

/-- What the assembly writes where two leaves cross. -/
def Fills (assembly : Assembly) (row col : Leaf) (values : List CellValue) : Prop :=
  row.path.hashable = true ∧ col.path.hashable = true ∧ ∃ source,
    assembly.plan.cell? (branchIndex assembly.table.rows row.branch)
      (branchIndex assembly.table.cols col.branch) = some source ∧
    assembly.cellValues source row col = .ok values

variable {assembly : Assembly}

variable {row col : Leaf} {cells : Cells}
  {crossings : List (Leaf × Leaf)}

private theorem Fills.eq {values others : List CellValue} (fills : assembly.Fills row col values)
    (again : assembly.Fills row col others) : values = others := by
  obtain ⟨_, _, source, known, read⟩ := fills
  obtain ⟨_, _, _, knownAgain, readAgain⟩ := again
  cases known.symm.trans knownAgain
  exact Except.ok.inj (read.symm.trans readAgain)

/-- Where the crossings of two assemblies correspond and are filled with related values, the values that
are shown are related. -/
theorem Fills.rel_of_map {assembly' : Assembly} {R : List CellValue → List CellValue → Prop}
    {f : Leaf × Leaf → Leaf × Leaf} {crossing : Option (Leaf × Leaf)}
    {shown shown' : Option (List CellValue)}
    (fills : Option.Rel (fun crossing => assembly.Fills crossing.1 crossing.2) crossing shown)
    (fills' : Option.Rel (fun crossing => assembly'.Fills crossing.1 crossing.2) (crossing.map f)
      shown')
    (carries : ∀ row col values, crossing = some (row, col) → assembly.Fills row col values →
      ∃ values', assembly'.Fills (f (row, col)).1 (f (row, col)).2 values' ∧ R values values') :
    Option.Rel R shown shown' := by
  cases fills with
  | none =>
    cases fills'
    exact .none
  | @some crossing values fills =>
    cases fills' with
    | some fills' =>
      obtain ⟨values', again, related⟩ := carries crossing.1 crossing.2 values rfl fills
      rw [fills'.eq again]
      exact .some related

theorem fillCell_eq_ok_iff {filled : Cells} :
    assembly.fillCell cells row col = .ok filled ↔
      ∃ values, assembly.Fills row col values ∧
        filled = setCell row.path col.path values cells := by
  unfold fillCell Fills
  constructor
  · intro returned
    simp only at returned
    split at returned
    · cases returned
    next source known =>
      obtain ⟨values, read, returned⟩ := bind_eq_ok.mp returned
      split at returned
      next usable =>
        rw [Bool.and_eq_true] at usable
        cases returned
        exact ⟨values, ⟨usable.1, usable.2, source, known, read⟩, rfl⟩
      · cases returned
  · rintro ⟨values, ⟨usableRow, usableCol, source, known, read⟩, rfl⟩
    simp only [known, read, ok_bind, usableRow, usableCol, Bool.and_self]
    rfl

private theorem foldlM_fillCell {start : Cells}
    (returned : crossings.foldlM (fun cells (row, col) => assembly.fillCell cells row col) start =
      .ok cells) :
    ∃ filled, Forall₂ (fun crossing => assembly.Fills crossing.1 crossing.2) crossings filled ∧
      cells = ((crossings.map fun crossing => (crossing.1.path, crossing.2.path)).zip filled).foldl
        (fun cells entry => setCell entry.1.1 entry.1.2 entry.2 cells) start := by
  induction crossings generalizing start with
  | nil =>
    cases returned
    exact ⟨[], .nil, rfl⟩
  | cons crossing crossings ih =>
    obtain ⟨next, first, returned⟩ := bind_eq_ok.mp returned
    obtain ⟨values, fills, rfl⟩ := fillCell_eq_ok_iff.mp first
    obtain ⟨filled, related, rfl⟩ := ih returned
    exact ⟨values :: filled, .cons fills related, rfl⟩

/-- At given paths stands what fills the last crossing with these paths, if there is one. -/
theorem lookup_filled {filled : List (List CellValue)}
    (related : Forall₂ (fun crossing => assembly.Fills crossing.1 crossing.2) crossings filled)
    (r c : Path) :
    Option.Rel (fun crossing => assembly.Fills crossing.1 crossing.2)
      (crossings.reverse.find? fun crossing => crossing.1.path.same r && crossing.2.path.same c)
      (lookup
        (((crossings.map fun crossing => (crossing.1.path, crossing.2.path)).zip filled).foldl
          (fun cells entry => setCell entry.1.1 entry.1.2 entry.2 cells) []) r c) := by
  have entries : Forall₂ (fun crossing entry =>
        entry.1 = (crossing.1.path, crossing.2.path) ∧ assembly.Fills crossing.1 crossing.2 entry.2)
      crossings ((crossings.map fun crossing => (crossing.1.path, crossing.2.path)).zip filled) := by
    induction related with
    | nil => exact .nil
    | cons head _ ih => exact .cons ⟨rfl, head⟩ ih
  have usable : Grid.Usable
      ((crossings.map fun crossing => (crossing.1.path, crossing.2.path)).zip filled) := by
    intro cell member
    obtain ⟨crossing, _, paths, fills⟩ := exists_left_of_forall₂ entries member
    rw [paths]
    exact ⟨fills.1, fills.2.1⟩
  rw [lookup_foldl_setCell usable]
  have found := rel_find? (rel_reverse entries)
    (p := fun crossing => crossing.1.path.same r && crossing.2.path.same c)
    (q := fun entry => entry.1.1.same r && entry.1.2.same c)
    (fun crossing entry both => by rw [both.1])
  obtain ⟨none, none'⟩ | ⟨crossing, entry, some, some', _, fills⟩ := cases_of_rel found
  · rw [none, none']
    exact .none
  · rw [some, some']
    exact .some fills

end Assembly

/-- The last pair of a product with given properties is made of the last elements that have them. -/
theorem find?_reverse_product {α β : Type} (p : α → Bool) (q : β → Bool) (xs : List α) (ys : List β) :
    ((xs.flatMap fun x => ys.map fun y => (x, y)).reverse.find? fun pair => p pair.1 && q pair.2) =
      (xs.reverse.find? p).bind fun x => (ys.reverse.find? q).map fun y => (x, y) := by
  rw [reverse_flatMap]
  induction xs.reverse with
  | nil => rfl
  | cons x xs ih =>
    have own : ((ys.map fun y => (x, y)).reverse.find? fun pair => p pair.1 && q pair.2) =
        if p x then (ys.reverse.find? q).map fun y => (x, y) else none := by
      rw [← map_reverse, find?_map]
      by_cases holds : p x
      · have tested : (fun pair : α × β => p pair.1 && q pair.2) ∘ (fun y => (x, y)) = q := by
          funext y
          rw [Function.comp_apply, holds, Bool.true_and]
        rw [tested, if_pos holds]
      · have tested : (fun pair : α × β => p pair.1 && q pair.2) ∘ (fun y => (x, y)) =
            fun _ => false := by
          funext y
          rw [Function.comp_apply, Bool.eq_false_iff.mpr holds, Bool.false_and]
        have none : ys.reverse.find? (fun _ => false) = none := find?_eq_none.mpr (by simp)
        rw [tested, if_neg holds, none]
        rfl
    rw [flatMap_cons, find?_append, ih, find?_cons, Function.comp_apply, own]
    by_cases holds : p x
    · rw [holds]
      cases ys.reverse.find? q with
      | none => cases xs.find? p <;> rfl
      | some y => rfl
    · simp [holds]

/-! ### Assembled grids -/

namespace ResolvedTable

variable {resolved : ResolvedTable} {settings : Settings} {plan : QueryPlan} {results : Results}
  {grid : Grid} {rows cols : Expanded}

/-- What the assembly of a resolved table draws on. -/
def assembly (resolved : ResolvedTable) (settings : Settings) (plan : QueryPlan)
    (results : Results) : Assembly :=
  ⟨resolved.table, plan, results, settings⟩

theorem assemble_eq_ok_iff : resolved.assemble settings plan results = .ok grid ↔
    missingKeys plan results = [] ∧ ∃ rows cols cells,
      (resolved.expansion plan results settings .rows).expandAxis resolved.table.rows = .ok rows ∧
      (resolved.expansion plan results settings .cols).expandAxis resolved.table.cols = .ok cols ∧
      (rows.2.flatMap fun row => cols.2.map fun col => (row, col)).foldlM
        (fun cells (row, col) => (resolved.assembly settings plan results).fillCell cells row col)
        [] = .ok cells ∧
      grid = ⟨rows.1, cols.1, rows.2.map Leaf.path, cols.2.map Leaf.path, resolved.table.measures,
        cells⟩ := by
  unfold assemble
  split
  next key rest missing => simp [missing]
  next complete =>
    simp only [complete, true_and, bind_eq_ok, pure_eq_ok]
    constructor
    · rintro ⟨rows, expandedRows, cols, expandedCols, cells, filled, rfl⟩
      exact ⟨rows, cols, cells, expandedRows, expandedCols, filled, rfl⟩
    · rintro ⟨rows, cols, cells, expandedRows, expandedCols, filled, rfl⟩
      exact ⟨rows, expandedRows, cols, expandedCols, cells, filled, rfl⟩

section

variable (assembled : resolved.assemble settings plan results = .ok grid)
  (expandedRows : (resolved.expansion plan results settings .rows).expandAxis
    resolved.table.rows = .ok rows)
  (expandedCols : (resolved.expansion plan results settings .cols).expandAxis
    resolved.table.cols = .ok cols)

include expandedRows expandedCols

theorem exists_assemble (complete : missingKeys plan results = [])
    (filled : ∀ row ∈ rows.2, ∀ col ∈ cols.2, ∃ values,
      (resolved.assembly settings plan results).Fills row col values) :
    ∃ grid, resolved.assemble settings plan results = .ok grid := by
  obtain ⟨cells, folded⟩ : ∃ cells,
      (rows.2.flatMap fun row => cols.2.map fun col => (row, col)).foldlM
        (fun cells (row, col) => (resolved.assembly settings plan results).fillCell cells row col)
        [] = .ok cells := by
    refine exists_foldlM ?_ []
    intro crossing crossed cells
    obtain ⟨row, inRows, crossed⟩ := mem_flatMap.mp crossed
    obtain ⟨col, inCols, rfl⟩ := mem_map.mp crossed
    obtain ⟨values, fills⟩ := filled row inRows col inCols
    exact ⟨_, Assembly.fillCell_eq_ok_iff.mpr ⟨values, fills, rfl⟩⟩
  exact ⟨_, assemble_eq_ok_iff.mpr
    ⟨complete, rows, cols, cells, expandedRows, expandedCols, folded, rfl⟩⟩

include assembled

/-- The headers and leaves of a grid are those to which the axes are expanded, and its cells were
filled crossing by crossing. -/
theorem assembled_eq : ∃ filled,
    Forall₂ (fun crossing =>
      (resolved.assembly settings plan results).Fills crossing.1 crossing.2)
      (rows.2.flatMap fun row => cols.2.map fun col => (row, col)) filled ∧
    grid = ⟨rows.1, cols.1, rows.2.map Leaf.path, cols.2.map Leaf.path, resolved.table.measures,
      (((rows.2.flatMap fun row => cols.2.map fun col => (row, col)).map
        fun crossing => (crossing.1.path, crossing.2.path)).zip filled).foldl
          (fun cells entry => setCell entry.1.1 entry.1.2 entry.2 cells) []⟩ := by
  obtain ⟨_, rows', cols', cells, expandedRows', expandedCols', folded, rfl⟩ :=
    assemble_eq_ok_iff.mp assembled
  -- Assembly expands the axes itself, to the same leaves.
  cases expandedRows.symm.trans expandedRows'
  cases expandedCols.symm.trans expandedCols'
  obtain ⟨filled, related, rfl⟩ := Assembly.foldlM_fillCell folded
  exact ⟨filled, related, rfl⟩

/-- Under two paths stands what was written for the last leaves that have them. -/
theorem lookup_related (r c : Path) :
    Option.Rel (fun crossing =>
        (resolved.assembly settings plan results).Fills crossing.1 crossing.2)
      ((lastAt rows.2 r).bind fun row => (lastAt cols.2 c).map fun col => (row, col))
      (lookup grid.cells r c) := by
  obtain ⟨filled, related, rfl⟩ := assembled_eq assembled expandedRows expandedCols
  have last := find?_reverse_product (fun leaf : Leaf => leaf.path.same r)
    (fun leaf : Leaf => leaf.path.same c) rows.2 cols.2
  rw [lastAt, lastAt, ← last]
  exact Assembly.lookup_filled related r c

/-- Every crossing of two leaves is filled, and at its paths stands what was written for the last
leaves that have them. -/
theorem fills_last {row col : Leaf} (inRows : row ∈ rows.2) (inCols : col ∈ cols.2) :
    (∃ values, (resolved.assembly settings plan results).Fills row col values) ∧
      ∃ lastRow lastCol, lastAt rows.2 row.path = some lastRow ∧
        lastAt cols.2 col.path = some lastCol ∧
        (resolved.assembly settings plan results).Fills lastRow lastCol
          (grid.valuesAt row.path col.path) := by
  obtain ⟨values, related, _⟩ := assembled_eq assembled expandedRows expandedCols
  have crossed : (row, col) ∈ rows.2.flatMap fun row => cols.2.map fun col => (row, col) :=
    mem_flatMap.mpr ⟨row, inRows, mem_map_of_mem inCols⟩
  obtain ⟨own, _, fills⟩ := exists_right_of_forall₂ related crossed
  refine ⟨⟨own, fills⟩, ?_⟩
  obtain ⟨lastRow, atRow⟩ := exists_lastAt inRows fills.1
  obtain ⟨lastCol, atCol⟩ := exists_lastAt inCols fills.2.1
  refine ⟨lastRow, lastCol, atRow, atCol, ?_⟩
  have last := lookup_related assembled expandedRows expandedCols row.path col.path
  rw [atRow, atCol] at last
  obtain ⟨none, _⟩ | ⟨_, shown, some, kept, fillsLast⟩ := cases_of_rel last
  · cases none
  · cases some
    rw [valuesAt_eq, kept]
    exact fillsLast

end

end ResolvedTable

end Crosstab
