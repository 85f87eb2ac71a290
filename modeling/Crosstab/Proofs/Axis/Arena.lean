import Crosstab.Axis.Arena
import Crosstab.Proofs.Axis.Names

/-!
# What an arena stores

The builder of an arena and the compiler of a clause go through the clause in the same way. Where the
compiler makes a part, the builder stores its forest behind what the arena holds; where the compiler
fails, the builder fails in the same way.
-/
namespace Crosstab

open List Outcome

theorem addNames_addNames (names first second : List String) :
    addNames names (addNames first second) = addNames (addNames names first) second := by
  induction second generalizing first with
  | nil => rfl
  | cons name rest ih =>
    have step : addNames names (addNames first [name]) = addNames (addNames names first) [name] := by
      by_cases known : name ∈ first
      · rw [addNames_of_mem known, addNames_of_mem (mem_addNames.mpr (.inr known))]
      · have new : addNames first [name] = first ++ [name] := by simp [addNames, known]
        rw [new, addNames_append]
    calc addNames names (addNames first (name :: rest))
      _ = addNames (addNames names (addNames first [name])) rest := ih _
      _ = addNames (addNames (addNames names first) [name]) rest := by rw [step]

/-! ### Stored forests -/

namespace Forest

variable {forest : Forest Node}

/-- The places of the roots of a forest that is stored from `offset` on. -/
def roots (offset : Nat) (forest : Forest Node) : List Nat :=
  forest.heads.map fun node => offset + node.id

/-- The places of its leaves, in reading order. -/
def leafPlaces (offset : Nat) : Forest Node → List Nat
  | .nil => []
  | .cons node children siblings =>
    (if children.isEmpty then [offset + node.id] else children.leafPlaces offset) ++
      siblings.leafPlaces offset

theorem isEmpty_roots (offset : Nat) (forest : Forest Node) :
    (forest.roots offset).isEmpty = forest.isEmpty := by
  rw [roots, List.isEmpty_map, isEmpty_heads]

private theorem roots_append (offset : Nat) (left right : Forest Node) :
    (left.append right).roots offset = left.roots offset ++ right.roots offset := by
  rw [roots, heads_append, map_append]
  rfl

theorem roots_shift (offset places : Nat) (forest : Forest Node) :
    (forest.map (Node.shift places)).roots offset = forest.roots (offset + places) := by
  induction forest with
  | nil => rfl
  | cons node children siblings _ beside =>
    simp only [roots, map, heads, map_cons, Node.shift, Nat.add_assoc] at beside ⊢
    rw [beside]

theorem roots_graft (offset : Nat) (names : List String) (copy : Nat → Forest Node) (start : Nat)
    (forest : Forest Node) :
    ((forest.mapLeaves (Node.bind names)).graft copy start).roots offset = forest.roots offset := by
  induction forest generalizing start with
  | nil => rfl
  | cons node children siblings _ beside =>
    simp only [roots, mapLeaves_cons, graft_cons, heads, map_cons] at beside ⊢
    rw [beside]
    split <;> rfl

private theorem leafPlaces_ne_nil (offset : Nat) (inhabited : forest.isEmpty = false) :
    forest.leafPlaces offset ≠ [] := by
  induction forest with
  | nil => cases inhabited
  | cons node children siblings below _ =>
    rw [leafPlaces]
    cases leaf : children.isEmpty <;> simp [leaf, below]

@[simp] theorem ids_nil : ids .nil = [] := rfl

theorem ids_cons (node : Node) (children siblings : Forest Node) :
    (cons node children siblings).ids = node.id :: (children.ids ++ siblings.ids) := by
  simp [ids, walk]

/-- The numbers after grafting are old, or those of a copy. -/
theorem mem_ids_graft {names : List String} {copy : Nat → Forest Node} {start id : Nat}
    (member : id ∈ ((forest.mapLeaves (Node.bind names)).graft copy start).ids) :
    id ∈ forest.ids ∨ ∃ leaf, id ∈ (copy leaf).ids := by
  have spread := ((walk_graft copy start _).map Node.id).mem_iff.mp member
  rw [map_append, map_flatMap, mem_append, mem_flatMap] at spread
  rcases spread with old | ⟨leaf, _, copied⟩
  · rw [← ids, ids_bind] at old
    exact .inl old
  · exact .inr ⟨leaf, copied⟩

end Forest

/-- Names alone, put below a part, are bound to it. -/
theorem Part.nest_names (part : Part) (names : List String) :
    part.nest ⟨.nil, names⟩ = part.bind names := by
  have unchanged (forest : Forest Node) (start : Nat) :
      forest.graft (fun _ => .nil) start = forest := by
    induction forest generalizing start with
    | nil => rfl
    | cons node children siblings below beside =>
      rw [Forest.graft_cons, below, beside]
      split
      next leaf => rw [Forest.isEmpty_iff.mp leaf]
      · rfl
  unfold nest bind
  split
  next empty => rw [Forest.isEmpty_iff.mp empty]
  · exact congrArg (Part.mk · part.names) (unchanged _ 0)

namespace Slot

/-- The places from `offset` on hold the nodes of a forest below `parent`, linked as they stand in it,
and parents stand before their children. -/
def Stores (slot? : Nat → Option Slot) (offset : Nat) (parent : Option Nat) (depth : Nat) :
    Forest Node → Prop
  | .nil => True
  | .cons node children siblings =>
    slot? (offset + node.id) = some (node.slot parent depth (children.roots offset)) ∧
      (∀ child ∈ children.roots offset, offset + node.id < child) ∧
      Stores slot? offset (some (offset + node.id)) (depth + 1) children ∧
      Stores slot? offset parent depth siblings

namespace Stores

variable {slot? next? : Nat → Option Slot} {offset depth : Nat} {parent : Option Nat}
  {forest : Forest Node}

theorem congr (stored : Stores slot? offset parent depth forest)
    (same : ∀ id ∈ forest.ids, next? (offset + id) = slot? (offset + id)) :
    Stores next? offset parent depth forest := by
  induction forest generalizing parent depth with
  | nil => trivial
  | cons node children siblings below beside =>
    rw [Forest.ids_cons, forall_mem_cons, forall_mem_append] at same
    obtain ⟨here, order, under, after⟩ := stored
    exact ⟨same.1.trans here, order, below under same.2.1, beside after same.2.2⟩

private theorem append {right : Forest Node} (first : Stores slot? offset parent depth forest)
    (second : Stores slot? offset parent depth right) :
    Stores slot? offset parent depth (forest.append right) := by
  induction forest with
  | nil => exact second
  | cons _ _ _ _ beside => exact ⟨first.1, first.2.1, first.2.2.1, beside first.2.2.2⟩

theorem shift {places : Nat} (stored : Stores slot? (offset + places) parent depth forest) :
    Stores slot? offset parent depth (forest.map (Node.shift places)) := by
  induction forest generalizing parent depth with
  | nil => trivial
  | cons node children siblings below beside =>
    simp only [Stores, Forest.map, Forest.roots_shift, Node.shift, ← Nat.add_assoc] at stored ⊢
    exact ⟨stored.1, stored.2.1, below stored.2.2.1, beside stored.2.2.2⟩

section

variable (stored : Stores slot? offset parent depth forest)
include stored

/-- A stack with the roots of a forest on top is walked through the forest first, in one step for
each node. -/
theorem walkFrom_roots {steps : Nat}
    {stack rest : List Nat} (later : walkFrom slot? steps stack = some rest) :
    walkFrom slot? (forest.size + steps) (forest.roots offset ++ stack) =
      some (forest.ids.map (offset + ·) ++ rest) := by
  induction forest generalizing parent depth steps stack rest with
  | nil => rwa [Forest.size, Nat.zero_add]
  | cons node children siblings below beside =>
    obtain ⟨here, _, under, after⟩ := stored
    have others := below under (beside after later)
    rw [Forest.roots, Forest.heads, map_cons, cons_append, Forest.size, Nat.add_assoc, Nat.add_assoc,
      Nat.add_comm 1, walkFrom, here]
    simp only [Forest.roots] at others
    simp [Node.slot, Forest.roots, others, Forest.ids_cons]

theorem walkFrom_eq {steps : Nat} (enough : forest.size ≤ steps) :
    walkFrom slot? steps (forest.roots offset) = some (forest.ids.map (offset + ·)) := by
  obtain ⟨more, rfl⟩ := Nat.exists_eq_add_of_le enough
  have ended : walkFrom slot? more [] = some [] := by rw [walkFrom]
  simpa using stored.walkFrom_roots ended

theorem filter_isLeaf :
    (forest.ids.map (offset + ·)).filter (isLeaf slot?) = forest.leafPlaces offset := by
  induction forest generalizing parent depth with
  | nil => rfl
  | cons node children siblings below beside =>
    obtain ⟨here, _, under, after⟩ := stored
    have own : isLeaf slot? (offset + node.id) = children.isEmpty := by
      simp [isLeaf, here, Node.slot, Forest.isEmpty_roots]
    rw [Forest.ids_cons, map_cons, map_append, filter_cons, filter_append, below under, beside after,
      own, Forest.leafPlaces]
    split
    next leaf => rw [Forest.isEmpty_iff.mp leaf]; rfl
    · rfl

end

end Stores

end Slot

namespace Arena

variable {arena middle after : Arena} {names : List String} {parent : Option Nat} {id : Nat}

section Stores

variable {offset depth : Nat} {forest : Forest Node}
  (stored : Slot.Stores arena.slot? offset parent depth forest)
include stored

theorem lt_of_stores : ∀ id ∈ forest.ids, offset + id < arena.slots.length := by
  induction forest generalizing parent depth with
  | nil => simp
  | cons node children siblings below beside =>
    obtain ⟨here, _, under, behind⟩ := stored
    rw [Forest.ids_cons, forall_mem_cons, forall_mem_append]
    exact ⟨(List.getElem?_eq_some_iff.mp here).1, below under, beside behind⟩

end Stores

/-! ### Filling the leaves -/

theorem slot?_bind (names : List String) (parent : Option Nat) (arena : Arena) (id : Nat) :
    (arena.bind names parent).slot? id =
      if parent = some id then (arena.slot? id).map (Slot.bind names) else arena.slot? id := by
  cases parent with
  | none => rfl
  | some target =>
    simp only [bind, slot?, getElem?_modify, Option.some.injEq]
    split <;> simp

private theorem slot?_link (leaf : Nat) (children : List Nat) (arena : Arena) (id : Nat) :
    (arena.link leaf children).slot? id =
      if leaf = id then (arena.slot? id).map (Slot.link children) else arena.slot? id := by
  simp only [link, slot?, getElem?_modify]
  split <;> simp

/-- A part was put below a leaf: its names are bound to the leaf, and its nodes stand behind the
others. -/
structure Attached (part : Part) (leaf : Nat) (slot : Slot) (arena after : Arena) : Prop where
  size : after.slots.length = arena.slots.length + part.forest.size
  measures : after.measures = arena.measures
  kept : ∀ id < arena.slots.length, id ≠ leaf → after.slot? id = arena.slot? id
  target : after.slot? leaf =
    some ((slot.bind part.names).link (part.forest.roots arena.slots.length))
  new : Slot.Stores after.slot? arena.slots.length (some leaf) (slot.depth + 1) part.forest

def Attaches (part : Part) (attach : Nat → Builder PUnit) : Prop :=
  ∀ arena leaf slot, arena.slot? leaf = some slot →
    ∃ after, (attach leaf).run arena = .ok (⟨⟩, after) ∧ Attached part leaf slot arena after

/-- The copies of a part, one behind the other from `base` on. -/
def copies (part : Part) (base copy : Nat) : Forest Node :=
  part.forest.map (Node.shift (base + copy * part.forest.size))

theorem le_of_mem_ids_copies {part : Part} {base copy : Nat} (member : id ∈ (copies part base copy).ids) :
    base ≤ id := by
  rw [copies, Forest.ids_shift] at member
  obtain ⟨old, _, rfl⟩ := mem_map.mp member
  omega

/-- A part was put below every leaf of a forest: below the first one as the copy `start`, and behind
`base` nodes and the copies before it. -/
structure Filled (right : Part) (base start offset : Nat) (parent : Option Nat) (depth : Nat)
    (forest : Forest Node) (arena after : Arena) : Prop where
  size : after.slots.length = offset + base + (start + forest.leafCount) * right.forest.size
  measures : after.measures = arena.measures
  kept : ∀ id < arena.slots.length, (∀ own ∈ forest.ids, id ≠ offset + own) →
    after.slot? id = arena.slot? id
  stored : Slot.Stores after.slot? offset parent depth
    ((forest.mapLeaves (Node.bind right.names)).graft (copies right base) start)

namespace Filled

variable {right : Part} {base start offset depth : Nat} {node : Node}
  {children siblings : Forest Node}

private theorem of_leaf (low : node.id < base)
    (size : arena.slots.length = offset + base + start * right.forest.size)
    (attached : Attached right (offset + node.id) (node.slot parent depth []) arena after) :
    Filled right base start offset parent depth (.cons node .nil .nil) arena after := by
  obtain ⟨grown, measures, kept, target, new⟩ := attached
  rw [size, Nat.add_assoc] at target new
  rw [← Forest.roots_shift] at target
  refine ⟨?_, measures, ?_, target, fun child head => ?_, new.shift, trivial⟩
  · rw [grown, size, Forest.leafCount, Forest.leafCount, Nat.add_mul, Nat.add_assoc]
    simp
  · exact fun id small other => kept id small (other node.id mem_cons_self)
  · obtain ⟨own, first, rfl⟩ := mem_map.mp head
    have listed := mem_map_of_mem (f := Node.id) ((Forest.heads_sublist_walk _).subset first)
    exact Nat.add_lt_add_left (Nat.lt_of_lt_of_le low (le_of_mem_ids_copies listed)) offset

private theorem of_children (inner : children.isEmpty = false)
    (small : offset + node.id < arena.slots.length) (fresh : node.id ∉ children.ids)
    (order : ∀ child ∈ children.roots offset, offset + node.id < child)
    (here : arena.slot? (offset + node.id) = some (node.slot parent depth (children.roots offset)))
    (filled : Filled right base start offset (some (offset + node.id)) (depth + 1) children arena
      after) : Filled right base start offset parent depth (.cons node children .nil) arena after := by
  have roots := Forest.roots_graft offset right.names (copies right base) start children
  refine ⟨?_, filled.measures, fun id small other => filled.kept id small ?_, ?_⟩
  · rw [filled.size, Forest.leafCount_cons, Forest.span, if_neg (by simp [inner])]
    rfl
  · exact fun own member => other own (by simp [Forest.ids_cons, member])
  · rw [Forest.mapLeaves_cons, Forest.graft_cons, Forest.isEmpty_mapLeaves, inner]
    simp only [Slot.Stores, Bool.false_eq_true, ↓reduceIte, roots]
    refine ⟨(filled.kept _ small fun own member same => ?_).trans here, order, filled.stored, trivial⟩
    exact fresh (Nat.add_left_cancel same ▸ member)

private theorem beside (low : ∀ id ∈ siblings.ids, id < base)
    (apart : ∀ id ∈ (Forest.cons node children .nil).ids, id ∉ siblings.ids)
    (grown : arena.slots.length ≤ middle.slots.length)
    (first : Filled right base start offset parent depth (.cons node children .nil) arena middle)
    (others : Filled right base (start + children.span) offset parent depth siblings middle after) :
    Filled right base start offset parent depth (.cons node children siblings) arena after := by
  have stored : Slot.Stores after.slot? _ _ _ _ := first.stored.congr fun id member => by
    refine others.kept _ (lt_of_stores first.stored id member) fun own listed same => ?_
    cases Nat.add_left_cancel same
    rcases Forest.mem_ids_graft member with old | ⟨leaf, copied⟩
    · exact apart id old listed
    · exact absurd (low id listed) (Nat.not_lt.mpr (le_of_mem_ids_copies copied))
  refine ⟨?_, others.measures.trans first.measures, fun id small other => ?_, ?_⟩
  · rw [others.size, Forest.leafCount_cons, Nat.add_assoc start]
  · rw [Forest.ids_cons, forall_mem_cons, forall_mem_append] at other
    rw [others.kept id (Nat.lt_of_lt_of_le small grown) other.2.2, first.kept id small]
    simpa [Forest.ids_cons, other.1] using other.2.1
  · have span : (children.mapLeaves (Node.bind right.names)).span = children.span := by
      rw [Forest.span, Forest.span, Forest.isEmpty_mapLeaves, Forest.leafCount_mapLeaves]
    rw [Forest.mapLeaves_cons, Forest.graft_cons, span] at stored ⊢
    exact ⟨stored.1, stored.2.1, stored.2.2.1, others.stored⟩

end Filled

/-- Leaf by leaf, a whole forest is filled. -/
theorem forM_attached {right : Part} {attach : Nat → Builder PUnit} (each : Attaches right attach)
    {base start offset depth : Nat} {forest : Forest Node} (low : ∀ id ∈ forest.ids, id < base)
    (distinct : forest.ids.Nodup)
    (size : arena.slots.length = offset + base + start * right.forest.size)
    (stored : Slot.Stores arena.slot? offset parent depth forest) :
    ∃ after, (forM (forest.leafPlaces offset) attach).run arena = .ok (⟨⟩, after) ∧
      Filled right base start offset parent depth forest arena after := by
  induction forest generalizing arena parent depth start with
  | nil => exact ⟨arena, rfl, size, rfl, fun _ _ _ => rfl, trivial⟩
  | cons node children siblings below beside =>
    obtain ⟨here, order, under, behind⟩ := stored
    rw [Forest.ids_cons, forall_mem_cons, forall_mem_append] at low
    rw [Forest.ids_cons, nodup_cons, nodup_append, mem_append, not_or] at distinct
    obtain ⟨low, lowUnder, lowBehind⟩ := low
    obtain ⟨fresh, inner, outer, apart⟩ := distinct
    obtain ⟨middle, run, first⟩ : ∃ middle,
        (forM (if children.isEmpty then [offset + node.id] else children.leafPlaces offset)
          attach).run arena = .ok (⟨⟩, middle) ∧
        Filled right base start offset parent depth (.cons node children .nil) arena middle := by
      by_cases leaf : children.isEmpty
      · obtain rfl := Forest.isEmpty_iff.mp leaf
        obtain ⟨middle, run, attached⟩ := each arena (offset + node.id) _ here
        exact ⟨middle, by simp [Forest.isEmpty, run], .of_leaf low size attached⟩
      · obtain ⟨middle, run, filled⟩ := below lowUnder inner size under
        exact ⟨middle, by simp [leaf, run],
          .of_children (by simpa using leaf) (by omega) fresh.1 order here filled⟩
    have widened : middle.slots.length = offset + base + (start + children.span) * right.forest.size := by
      rw [first.size, Forest.leafCount_cons]
      rfl
    have grown : arena.slots.length ≤ middle.slots.length := by
      rw [size, widened, Nat.add_mul]
      omega
    have parted : ∀ id ∈ (Forest.cons node children .nil).ids, id ∉ siblings.ids := by
      simpa [Forest.ids_cons, fresh.2] using fun id under after => apart id under id after rfl
    have others : Slot.Stores middle.slot? offset parent depth siblings := behind.congr fun id listed => by
      have small := lowBehind id listed
      refine first.kept _ (by omega) fun own before same => ?_
      exact parted own before (Nat.add_left_cancel same ▸ listed)
    obtain ⟨after, runs, filled⟩ := beside lowBehind outer widened others
    refine ⟨after, ?_, first.beside lowBehind parted grown filled⟩
    rw [Forest.leafPlaces, forM_append, StateT.run_bind, run]
    exact runs

/-! ### Building and compiling -/

theorem bind_nil (parent : Option Nat) (arena : Arena) : arena.bind [] parent = arena := by
  cases parent with
  | none => rfl
  | some id => exact congrArg (Arena.mk · arena.measures) (modify_id id arena.slots)

private theorem bind_bind (first second : List String) (parent : Option Nat) (arena : Arena) :
    (arena.bind first parent).bind second parent = arena.bind (addNames first second) parent := by
  cases parent with
  | none => simp [bind, addNames_addNames]
  | some id =>
    have twice : Slot.bind second ∘ Slot.bind first = Slot.bind (addNames first second) := by
      funext slot
      simp [Slot.bind, addNames_addNames]
    simp [bind, modify_modify_eq, twice]

/-- A parent in use. -/
abbrev Admits (arena : Arena) (parent : Option Nat) : Prop := ∀ id ∈ parent, id < arena.slots.length

/-- The first nodes of an arena. -/
def front (count : Nat) (arena : Arena) : Arena := { arena with slots := arena.slots.take count }

private theorem front_bind (count : Nat) (names : List String) (parent : Option Nat) (arena : Arena) :
    (arena.bind names parent).front count = (arena.front count).bind names parent := by
  cases parent with
  | none => rfl
  | some id => simp [front, bind, take_modify]

/-- A part was built below `parent`: its names are bound there, and its nodes stand behind the others.
The parent does not name the roots yet. -/
structure Grown (part : Part) (parent : Option Nat) (arena : Arena) (heads : List Nat)
    (after : Arena) : Prop where
  numbered : part.forest.IsNumbered
  names : addNames [] part.names = part.names
  heads : heads = part.forest.roots arena.slots.length
  size : after.slots.length = arena.slots.length + part.forest.size
  kept : after.front arena.slots.length = arena.bind part.names parent
  new : Slot.Stores after.slot? arena.slots.length parent (arena.depthBelow parent) part.forest

namespace Grown

variable {part left right : Part} {heads more : List Nat}

theorem of_leaf (place : Place) (label : Value) (parent : Option Nat) (arena : Arena) :
    Grown (.leaf place label) parent arena [arena.slots.length] { arena with slots :=
      arena.slots ++ [(Node.mk 0 place label []).slot parent (arena.depthBelow parent) []] } where
  numbered := .refl _
  names := rfl
  heads := rfl
  size := length_append
  kept := by simp [Part.leaf, bind_nil, front]
  new := ⟨getElem?_concat_length, nofun, trivial, trivial⟩

private theorem empty (parent : Option Nat) (arena : Arena) : Grown .empty parent arena [] arena where
  numbered := .refl _
  names := rfl
  heads := rfl
  size := rfl
  kept := by simp [Part.empty, bind_nil, front]
  new := trivial

section

variable (grown : Grown part parent arena heads after)
include grown

theorem slot?_eq (small : id < arena.slots.length) :
    after.slot? id =
      if parent = some id then (arena.slot? id).map (Slot.bind part.names) else arena.slot? id := by
  rw [← slot?_bind, ← grown.kept]
  exact (getElem?_take_of_lt small).symm

theorem admits (admitted : arena.Admits parent) : after.Admits parent := by
  intro id own
  have small := admitted id own
  have size := grown.size
  omega

theorem depthBelow_eq (admitted : arena.Admits parent) :
    after.depthBelow parent = arena.depthBelow parent := by
  cases parent with
  | none => rfl
  | some id =>
    simp only [depthBelow, Option.elim_some, grown.slot?_eq (admitted id rfl), ↓reduceIte]
    cases arena.slot? id <;> rfl

theorem leaves_eq : after.leaves heads = part.forest.leafPlaces arena.slots.length := by
  have small : part.forest.size ≤ after.slots.length := by
    rw [grown.size]
    omega
  rw [grown.heads, leaves, grown.new.walkFrom_eq small, Option.getD_some, grown.new.filter_isLeaf]

theorem isEmpty_eq : heads.isEmpty = part.forest.isEmpty := by
  rw [grown.heads, Forest.isEmpty_roots]

end

theorem kept_trans (first : Grown left parent arena heads middle)
    (second : after.front middle.slots.length = middle.bind names parent) :
    after.front arena.slots.length = arena.bind (addNames left.names names) parent := by
  have shorter : arena.slots.length ≤ middle.slots.length := by
    rw [first.size]
    omega
  calc after.front arena.slots.length
    _ = (after.front middle.slots.length).front arena.slots.length := by
      simp [front, take_take, shorter]
    _ = (middle.front arena.slots.length).bind names parent := by rw [second, front_bind]
    _ = arena.bind (addNames left.names names) parent := by rw [first.kept, bind_bind]

private theorem beside (admitted : arena.Admits parent)
    (first : Grown left parent arena heads middle) (second : Grown right parent middle more after) :
    Grown (left.beside right) parent arena (heads ++ more) after := by
  have size := first.size
  have stays : Slot.Stores after.slot? arena.slots.length parent (arena.depthBelow parent)
      left.forest := first.new.congr fun id member => by
    rw [second.slot?_eq (lt_of_stores first.new id member), if_neg]
    rintro rfl
    exact absurd (admitted _ rfl) (Nat.not_lt.mpr (Nat.le_add_right _ id))
  have new := second.new
  rw [first.depthBelow_eq admitted, size] at new
  exact {
    numbered := Part.isNumbered_beside first.numbered second.numbered
    names := by rw [Part.beside, addNames_addNames, first.names]
    heads := by
      rw [Part.beside, Forest.roots_append, Forest.roots_shift, ← size, ← first.heads, ← second.heads]
    size := by
      have parts := congrArg length (Forest.walk_append left.forest
        (right.forest.map (Node.shift left.forest.size)))
      rw [length_append, Forest.walk_map, length_map, Forest.length_walk, Forest.length_walk,
        Forest.length_walk] at parts
      rw [second.size, size, Part.beside, parts, Nat.add_assoc]
    kept := first.kept_trans second.kept
    new := stays.append new.shift }

/-- What is put below the leaves one by one is nested below the part. -/
theorem exists_forM (inhabited : left.forest.isEmpty = false) (others : right.forest.IsNumbered)
    (first : Grown left parent arena heads middle) {attach : Nat → Builder PUnit}
    (each : Attaches right attach) :
    ∃ after, (forM (middle.leaves heads) attach).run middle = .ok (⟨⟩, after) ∧
      Grown (left.nest right) parent arena heads after := by
  have nested : left.nest right = ⟨(left.forest.mapLeaves (Node.bind right.names)).graft
      (copies right left.forest.size) 0, left.names⟩ := by
    rw [Part.nest, if_neg (by simp [inhabited])]
    rfl
  have low : ∀ id ∈ left.forest.ids, id < left.forest.size :=
    fun id member => mem_range.mp (first.numbered.mem_iff.mp member)
  have start : middle.slots.length =
      arena.slots.length + left.forest.size + 0 * right.forest.size := by simp [first.size]
  obtain ⟨after, run, filled⟩ := forM_attached each low (first.numbered.nodup_iff.mpr nodup_range)
    start first.new
  refine ⟨after, first.leaves_eq ▸ run, ?_⟩
  exact {
    numbered := Part.isNumbered_nest first.numbered others
    names := by rw [nested, first.names]
    heads := by rw [nested, Forest.roots_graft, first.heads]
    size := by
      have parts := (Part.ids_nest inhabited first.numbered others).length_eq
      rw [Forest.length_ids, length_range] at parts
      rw [filled.size, parts, Nat.zero_add, Nat.add_assoc]
    kept := by
      rw [nested, ← first.kept, front, front, filled.measures]
      refine congrArg (Arena.mk · middle.measures) (ext_getElem? fun id => ?_)
      rw [getElem?_take, getElem?_take]
      split
      next small => exact filled.kept id (by rw [first.size]; omega) fun own _ => by omega
      · rfl
    new := by
      rw [nested]
      exact filled.stored }

private theorem nest_empty (empty : left.forest.isEmpty) (admitted : arena.Admits parent)
    (first : Grown left parent arena heads middle) (second : Grown right parent middle more after) :
    Grown (left.nest right) parent arena more after := by
  have size : middle.slots.length = arena.slots.length := by
    rw [first.size, Forest.isEmpty_iff.mp empty]
    rfl
  have new := second.new
  rw [first.depthBelow_eq admitted, size] at new
  rw [Part.nest, if_pos empty]
  exact {
    numbered := second.numbered
    names := by rw [addNames_addNames, first.names]
    heads := by rw [second.heads, size]
    size := by rw [second.size, size]
    kept := first.kept_trans second.kept
    new := new }

private theorem attached {leaf : Nat} {slot : Slot} (found : arena.slot? leaf = some slot)
    (grown : Grown part (some leaf) arena heads after) :
    Attached part leaf slot arena (after.link leaf heads) := by
  have small : leaf < arena.slots.length := (List.getElem?_eq_some_iff.mp found).1
  have depth : arena.depthBelow (some leaf) = slot.depth + 1 := by simp [depthBelow, found]
  have measures := congrArg Arena.measures grown.kept
  refine ⟨?_, measures, fun id below other => ?_, ?_, depth ▸ grown.new.congr fun id _ => ?_⟩
  · rw [link, length_modify, grown.size]
  · rw [slot?_link, if_neg (Ne.symm other), grown.slot?_eq below,
      if_neg (by simpa using Ne.symm other)]
  · rw [slot?_link, if_pos rfl, grown.slot?_eq small, if_pos rfl, found, grown.heads]
    rfl
  · rw [slot?_link, if_neg (by omega)]

/-- Names are bound to the leaves, or to the parent where there are none. -/
theorem exists_bindLeaves (names : List String) (grown : Grown part parent arena heads middle) :
    ∃ after, (bindLeaves names parent heads).run middle = .ok (⟨⟩, after) ∧
      Grown (part.bind names) parent arena heads after := by
  simp only [bindLeaves, StateT.run_bind, StateT.run_get, pure_eq, ok_bind, grown.isEmpty_eq]
  cases inhabited : part.forest.isEmpty with
  | true =>
    refine ⟨middle.bind names parent, by simp, ?_⟩
    rw [Part.bind, if_pos inhabited]
    have size : (middle.bind names parent).slots.length = middle.slots.length := by
      cases parent <;> simp [Arena.bind]
    exact {
      numbered := grown.numbered
      names := by rw [addNames_addNames, grown.names]
      heads := grown.heads
      size := by rw [size, grown.size]
      kept := grown.kept_trans (by rw [front, ← size, take_length])
      new := by
        rw [Forest.isEmpty_iff.mp inhabited]
        trivial }
  | false =>
    have each : Attaches ⟨.nil, names⟩ fun leaf => modify (Arena.bind names (some leaf)) := by
      intro arena leaf slot found
      refine ⟨arena.bind names (some leaf), rfl, by simp [Arena.bind, Forest.size], rfl,
        fun id _ other => ?_, ?_, trivial⟩
      · rw [slot?_bind, if_neg (by simpa using Ne.symm other)]
      · simp [slot?_bind, found, Slot.link, Forest.roots, Forest.heads]
    have bare : Forest.IsNumbered .nil := .refl _
    rw [← Part.nest_names, if_neg (by simp), forM_map]
    exact grown.exists_forM inhabited bare each

end Grown

/-- The builder stores what the compiler makes, below any parent in use, or fails as the compiler
does. -/
def Follows (builder : Option Nat → Builder (List Nat)) (compiled : Outcome Part) : Prop :=
  ∀ parent arena, arena.Admits parent → Related
    (fun result part => Grown part parent arena result.1 result.2) ((builder parent).run arena) compiled

open Item

variable {schema : Schema} {measures : List Measure}

private theorem makeDimension_follows (d : Dimension) :
    Follows (makeDimension schema measures d) (compileDimension schema measures d) := by
  intro parent arena _
  unfold makeDimension compileDimension
  cases schema.field? d.name with
  | error e => exact .error e
  | ok named =>
    cases named with
    | none => exact .error _
    | some field =>
      simp only [StateT.run_bind, StateT.run_monadLift, monadLift_self, ok_bind, pure_eq, bind_assoc]
      cases d.compileOrdering measures field with
      | error e => exact .error e
      | ok order => exact .ok (.of_leaf (.dimension field order) d.label parent arena)

private theorem makeTotal_follows (t : Total) : Follows (makeTotal t) (compileTotal t) := by
  intro parent arena _
  unfold makeTotal compileTotal
  split
  · exact .error _
  · exact .ok (.of_leaf .total t.label parent arena)

private theorem nest_follows {rest : Option Nat → Builder (List Nat)} {others : Outcome Part}
    {left : Part}
    {heads : List Nat} (follows : Follows rest others) (admitted : arena.Admits parent)
    (grown : Grown left parent arena heads middle) :
    Related (fun result part => Grown part parent arena result.1 result.2)
      ((nest rest parent heads).run middle) (others >>= fun right => pure (left.nest right)) := by
  unfold nest
  rw [grown.isEmpty_eq]
  cases inhabited : left.forest.isEmpty with
  | true =>
    rw [if_pos rfl, ← bind_pure ((rest parent).run middle)]
    exact (follows parent middle (grown.admits admitted)).bind fun _ _ further =>
      .ok (grown.nest_empty inhabited admitted further)
  | false =>
    simp only [Bool.false_eq_true, ↓reduceIte, StateT.run_bind, StateT.run_get, pure_eq, ok_bind]
    cases others with
    | error e =>
      -- There is a leaf, and the rest fails below the first one.
      obtain ⟨leaf, more, listed⟩ :=
        exists_cons_of_ne_nil (Forest.leafPlaces_ne_nil arena.slots.length inhabited)
      have small : middle.Admits (some leaf) := by
        have first : leaf ∈ left.forest.leafPlaces arena.slots.length := listed ▸ mem_cons_self
        rw [← grown.new.filter_isLeaf] at first
        obtain ⟨id, member, rfl⟩ := mem_map.mp (mem_filter.mp first).1
        simpa [Admits] using lt_of_stores grown.new id member
      rw [grown.leaves_eq, listed, forM_cons, StateT.run_bind, StateT.run_bind,
        (follows (some leaf) middle small).eq_error]
      exact .error e
    | ok right =>
      obtain ⟨_, _, alone⟩ := (follows none {} nofun).exists_of_ok_right rfl
      have each : Attaches right fun leaf =>
          rest (some leaf) >>= fun children => modify (link leaf children) := by
        intro arena leaf slot found
        have small : arena.Admits (some leaf) := by
          simpa [Admits] using (List.getElem?_eq_some_iff.mp found).1
        obtain ⟨⟨children, after⟩, run, below⟩ :=
          (follows (some leaf) arena small).exists_of_ok_right rfl
        exact ⟨after.link leaf children, by rw [StateT.run_bind, run]; rfl, below.attached found⟩
      obtain ⟨after, run, nested⟩ := grown.exists_forM inhabited alone.numbered each
      rw [run]
      exact .ok nested

theorem buildClause_follows (clause : AxisClause (List String)) :
    Follows (buildClause schema measures clause) (compileClause schema measures clause) := by
  refine clause_induction
    (C := fun clause => Follows (buildClause schema measures clause) (compileClause schema measures clause))
    (G := fun group => Follows (buildGroup schema measures group) (compileGroup schema measures group))
    (I := fun item => Follows (build schema measures item) (compile schema measures item))
    makeDimension_follows makeTotal_follows (fun _ parent arena _ => .ok (.empty parent arena))
    (fun _ inside => inside) (fun parent arena _ => .ok (.empty parent arena)) ?_
    (fun parent arena _ => .ok (.empty parent arena)) ?_ clause
  · intro group rest inside behind parent arena admitted
    rw [buildClause, compileClause, StateT.run_bind]
    refine (inside parent arena admitted).bind ?_
    rintro ⟨heads, middle⟩ first grown
    obtain ⟨bound, run, grown⟩ := grown.exists_bindLeaves (ownNames group)
    simp only [StateT.run_bind, run, ok_bind]
    exact (behind parent bound (grown.admits admitted)).bind fun _ _ further =>
      .ok (grown.beside admitted further)
  · intro item rest inside behind parent arena admitted
    by_cases passed : ∃ names, item = .binding names
    · obtain ⟨names, rfl⟩ := passed
      rw [buildGroup, compileGroup]
      exact behind parent arena admitted
    · have built : buildGroup schema measures (item :: rest) parent =
          build schema measures item parent >>= nest (buildGroup schema measures rest) parent := by
        cases item with
        | binding names => exact absurd ⟨names, rfl⟩ passed
        | _ => rw [buildGroup]; simp
      rw [built, compileGroup_of_not_binding passed, StateT.run_bind]
      exact (inside parent arena admitted).bind fun _ _ grown => nest_follows behind admitted grown

end Arena

end Crosstab
