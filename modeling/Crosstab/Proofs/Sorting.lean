import Crosstab.Sorting
import Mathlib.Data.List.Sort

/-!
# Sorted lists

Sorting takes a leading run and inserts the other elements by bisection: the sorted part is in
order, and what is alike stands as it did.
-/
namespace Crosstab.Sorting

open List

variable {α : Type} (before : α → α → Bool)

theorem place_eq_orderedInsert (x : α) (list : List α) :
    place before x list = list.orderedInsert (fun a b => before a b = true) x := by
  induction list with
  | nil => rfl
  | cons y rest ih => rw [place, orderedInsert_cons, ih]

theorem arrange_eq_insertionSort (list : List α) :
    arrange before list = list.insertionSort (fun a b => before a b = true) := by
  induction list with
  | nil => rfl
  | cons x rest ih =>
    rw [insertionSort_cons, ← place_eq_orderedInsert, ← ih]
    rfl

theorem perm_arrange (list : List α) : (arrange before list).Perm list := by
  rw [arrange_eq_insertionSort]
  exact perm_insertionSort _ list

theorem mem_arrange {list : List α} {x : α} : x ∈ arrange before list ↔ x ∈ list :=
  (perm_arrange before list).mem_iff

variable {before}

theorem arrange_of_pairwise {list : List α}
    (sorted : list.Pairwise fun a b => before a b = true) : arrange before list = list := by
  rw [arrange_eq_insertionSort]
  exact sorted.insertionSort_eq

section

variable (trans : ∀ a b c, before a b → before b c → before a c)
  (total : ∀ a b, (before a b || before b a))
include trans total

theorem pairwise_arrange (list : List α) :
    (arrange before list).Pairwise fun a b => before a b = true := by
  have : Std.Total fun a b => before a b = true := ⟨fun a b => by simpa using total a b⟩
  have : IsTrans α fun a b => before a b = true := ⟨trans⟩
  rw [arrange_eq_insertionSort]
  exact pairwise_insertionSort _ list

/-- An element that comes before all others in the ties goes ahead of what it may precede. -/
theorem pairwise_place {tie : α → α → Prop} {x : α} {sorted : List α}
    (ordered : sorted.Pairwise fun a b => before a b = true ∧ (before b a → tie a b))
    (earlier : ∀ y ∈ sorted, tie x y) :
    (place before x sorted).Pairwise
      fun a b => before a b = true ∧ (before b a → tie a b) := by
  induction sorted with
  | nil => exact pairwise_singleton _ _
  | cons y rest ih =>
    rw [pairwise_cons] at ordered
    rw [place]
    split
    next precedes =>
      refine pairwise_cons.mpr ⟨fun z member => ⟨?_, fun _ => earlier z member⟩,
        pairwise_cons.mpr ordered⟩
      rcases mem_cons.mp member with rfl | later
      · exact precedes
      · exact trans x y z precedes (ordered.1 z later).1
    next follows =>
      refine pairwise_cons.mpr ⟨fun z member => ?_,
        ih ordered.2 fun z later => earlier z (mem_cons_of_mem y later)⟩
      rw [place_eq_orderedInsert, mem_orderedInsert] at member
      rcases member with rfl | later
      -- What does not go ahead of `y` stays behind it, and is no tie.
      · exact ⟨by simpa [follows] using total z y, fun contrary => absurd contrary follows⟩
      · exact ordered.1 z later

/-- Putting elements in place one by one is stable: of two that may precede each other, the earlier
one stays ahead. -/
theorem pairwise_arrange_ties {tie : α → α → Prop} {list : List α} (ties : list.Pairwise tie) :
    (arrange before list).Pairwise
      fun a b => before a b = true ∧ (before b a → tie a b) := by
  induction list with
  | nil => exact .nil
  | cons x rest ih =>
    rw [pairwise_cons] at ties
    refine pairwise_place trans total (ih ties.2) fun y member => ?_
    exact ties.1 y ((mem_arrange before).mp member)

theorem arrange_eq_of_perm (antisymm : ∀ a b, before a b → before b a → a = b) {xs ys : List α}
    (arranged : xs.Perm ys) : arrange before xs = arrange before ys := by
  have same : (arrange before xs).Perm (arrange before ys) :=
    (perm_arrange before xs).trans (arranged.trans (perm_arrange before ys).symm)
  exact same.eq_of_pairwise (fun a b _ _ => antisymm a b) (pairwise_arrange trans total xs)
    (pairwise_arrange trans total ys)

end

private theorem forall₂_insert {E : α → α → Prop} (trans : ∀ a b c, E a b → E b c → E a c)
    {x z : α} {xs front back : List α} (others : Forall₂ E xs (front ++ back)) (first : E z x)
    (like : ∀ y ∈ front, E x y ∧ E y x) : Forall₂ E (z :: xs) (front ++ x :: back) := by
  induction front generalizing xs z with
  | nil => exact .cons first others
  | cons y front ih =>
    obtain ⟨y', xs', own, later, rfl⟩ := forall₂_cons_right_iff.mp others
    obtain ⟨forth, back⟩ := like y mem_cons_self
    refine .cons (trans z x y first forth) ?_
    exact ih later (trans y' y x own back) fun other member =>
      like other (mem_cons_of_mem y member)

/-- Sorted lists of the same elements agree place by place, up to elements that precede each other. -/
theorem forall₂_of_perm_of_pairwise {R : α → α → Prop} (trans : ∀ a b c, R a b → R b c → R a c)
    {xs ys : List α} (refl : ∀ x ∈ xs, R x x) (arranged : xs.Perm ys) (sorted : xs.Pairwise R)
    (sorted' : ys.Pairwise R) : Forall₂ (fun a b => R a b ∧ R b a) xs ys := by
  induction xs generalizing ys with
  | nil =>
    rw [← arranged.nil_eq]
    exact .nil
  | cons x xs ih =>
    -- The first element stands somewhere in the other list, behind elements that are like it.
    obtain ⟨front, back, rfl⟩ := append_of_mem (arranged.subset mem_cons_self)
    have rest : xs.Perm (front ++ back) := (arranged.trans perm_middle).cons_inv
    rw [pairwise_cons] at sorted
    have others := ih (fun y member => refl y (mem_cons_of_mem x member)) rest sorted.2
      (sorted'.sublist ((sublist_cons_self x back).append_left front))
    have here := refl x mem_cons_self
    refine forall₂_insert ?_ others ⟨here, here⟩ ?_
    · rintro a b c ⟨ab, ba⟩ ⟨bc, cb⟩
      exact ⟨trans a b c ab bc, trans c b a cb ba⟩
    · intro y member
      have behind := sorted.1 y (rest.symm.subset (mem_append_left _ member))
      have before := (pairwise_append.mp sorted').2.2 y member x mem_cons_self
      exact ⟨⟨behind, before⟩, before, behind⟩

/-! ### Sorting by comparisons -/

/-- A comparison that puts the elements of a list in order, where some may be alike. -/
structure Compares (less : α → α → Bool) (list : List α) : Prop where
  asymm : ∀ a ∈ list, ∀ b ∈ list, less a b = true → less b a = false
  trans : ∀ a ∈ list, ∀ b ∈ list, ∀ c ∈ list, less b a = false → less c b = false → less c a = false

/-- One element stands before another: it is below, or they are alike and `tie` decides. -/
def InOrder (less : α → α → Bool) (tie : α → α → Prop) (a b : α) : Prop :=
  less a b = true ∨ less b a = false ∧ tie a b

variable {less : α → α → Bool} {tie : α → α → Prop} {x : α} {list sorted : List α}

theorem Compares.of_subset (compares : Compares less list) {part : List α} (inside : part ⊆ list) :
    Compares less part where
  asymm a first b second := compares.asymm a (inside first) b (inside second)
  trans a first b second c third := compares.trans a (inside first) b (inside second) c (inside third)

theorem Compares.of_map {β : Type} {less : β → β → Bool} {f : α → β}
    (compares : Compares less (list.map f)) : Compares (fun a b => less (f a) (f b)) list where
  asymm _ first _ second := compares.asymm _ (mem_map_of_mem first) _ (mem_map_of_mem second)
  trans _ first _ second _ third := compares.trans _ (mem_map_of_mem first) _
    (mem_map_of_mem second) _ (mem_map_of_mem third)

private theorem Compares.rising (compares : Compares less list)
    (ordered : list.Pairwise (InOrder less tie)) : list.Pairwise fun a b => less b a = false := by
  refine ordered.imp_of_mem ?_
  intro a b first second inOrder
  rcases inOrder with below | ⟨notBelow, _⟩
  · exact compares.asymm a first b second below
  · exact notBelow

theorem eq_take_append {list back : List α} {n : Nat} {x : α} (behind : list.drop n = x :: back) :
    list = list.take n ++ x :: back := by
  rw [← behind, take_append_drop]

theorem eq_nil_of_drop_half (none : sorted.drop (sorted.length / 2) = []) : sorted = [] := by
  have short := congrArg length none
  simp at short
  exact length_eq_zero_iff.mp (by omega)

theorem perm_insert (less : α → α → Bool) (x : α) (sorted : List α) :
    (insert less x sorted).Perm (x :: sorted) := by
  fun_induction insert less x sorted with
  | case1 sorted none =>
    rw [eq_nil_of_drop_half none]
  | case2 sorted middle back halves _ _ _ ih =>
    have moved := ih.append_right (middle :: back)
    rw [cons_append, ← halves, take_append_drop] at moved
    rwa [halves] at moved
  | case3 sorted middle back halves _ _ _ ih =>
    have moved := (ih.cons middle).append_left (sorted.take (sorted.length / 2))
    refine moved.trans ?_
    conv_rhs => rw [eq_take_append halves]
    exact ((Perm.swap x middle back).append_left _).trans perm_middle

/-- Bisection finds the place behind all elements that the new one is not below. -/
theorem insert_splits (compares : Compares less (x :: sorted))
    (rising : sorted.Pairwise fun a b => less b a = false) :
    ∃ front back, sorted = front ++ back ∧ insert less x sorted = front ++ x :: back ∧
      (∀ y ∈ front, less x y = false) ∧ ∀ y ∈ back, less x y := by
  fun_induction insert less x sorted with
  | case1 sorted none =>
    rw [eq_nil_of_drop_half none]
    exact ⟨[], [], by simp⟩
  | case2 sorted middle back halves _ _ below ih =>
    have whole := eq_take_append halves
    generalize sorted.take (sorted.length / 2) = left at *
    subst whole
    rw [pairwise_append, pairwise_cons] at rising
    obtain ⟨front, rest, rfl, inserted, notBelow, above⟩ :=
      ih (compares.of_subset (by simp)) rising.1
    refine ⟨front, rest ++ middle :: back, by simp, by simp [inserted], notBelow, ?_⟩
    intro y member
    rcases mem_append.mp member with early | late
    · exact above y early
    rcases mem_cons.mp late with rfl | behind
    · exact below
    -- What stands behind the middle is not below it, and the new element is.
    · by_contra notLess
      have contrary := compares.trans middle (by simp) y (by simp [behind]) x (by simp)
        (rising.2.1.1 y behind) (by simpa using notLess)
      simp [contrary] at below
  | case3 sorted middle back halves _ _ above ih =>
    have whole := eq_take_append halves
    generalize sorted.take (sorted.length / 2) = left at *
    subst whole
    rw [pairwise_append, pairwise_cons] at rising
    obtain ⟨front, rest, rfl, inserted, notBelow, later⟩ :=
      ih (compares.of_subset (by intro y; simp; tauto)) rising.2.1.2
    refine ⟨left ++ middle :: front, rest, by simp, by simp [inserted], ?_, later⟩
    have atMiddle : less x middle = false := by simpa using above
    intro y member
    rcases mem_append.mp member with early | late
    · exact compares.trans y (by simp [early]) middle (by simp) x (by simp)
        (rising.2.2 y early middle (by simp)) atMiddle
    rcases mem_cons.mp late with rfl | between
    · exact atMiddle
    · exact notBelow y between

/-- An element that comes after all others in the ties goes to its place. -/
theorem pairwise_insert (compares : Compares less (x :: sorted))
    (ordered : sorted.Pairwise (InOrder less tie)) (later : ∀ y ∈ sorted, tie y x) :
    (insert less x sorted).Pairwise (InOrder less tie) := by
  have rising := (compares.of_subset (subset_cons_self x sorted)).rising ordered
  obtain ⟨front, back, rfl, inserted, notBelow, above⟩ := insert_splits compares rising
  rw [pairwise_append] at ordered
  rw [inserted, pairwise_append, pairwise_cons]
  refine ⟨ordered.1, ⟨fun y member => .inl (above y member), ordered.2.1⟩, ?_⟩
  intro y first z second
  rcases mem_cons.mp second with rfl | behind
  · exact .inr ⟨notBelow y first, later y (by simp [first])⟩
  · exact ordered.2.2 y first z behind

private theorem perm_foldl_insert (less : α → α → Bool) (rest sorted : List α) :
    (rest.foldl (fun sorted x => insert less x sorted) sorted).Perm (sorted ++ rest) := by
  induction rest generalizing sorted with
  | nil => simp
  | cons x rest ih =>
    refine (ih (insert less x sorted)).trans ?_
    refine ((perm_insert less x sorted).append_right rest).trans ?_
    exact perm_middle.symm

private theorem pairwise_foldl_insert {rest : List α} (compares : Compares less (sorted ++ rest))
    (ordered : sorted.Pairwise (InOrder less tie)) (ties : rest.Pairwise tie)
    (later : ∀ y ∈ sorted, ∀ z ∈ rest, tie y z) :
    (rest.foldl (fun sorted x => insert less x sorted) sorted).Pairwise (InOrder less tie) := by
  induction rest generalizing sorted with
  | nil => exact ordered
  | cons x rest ih =>
    have inside : ∀ y, y ∈ insert less x sorted ↔ y = x ∨ y ∈ sorted := fun y => by
      rw [(perm_insert less x sorted).mem_iff, mem_cons]
    rw [pairwise_cons] at ties
    apply ih
    · refine compares.of_subset ?_
      intro y
      simp only [mem_append, inside, mem_cons]
      tauto
    · refine pairwise_insert (compares.of_subset ?_) ordered fun y member => later y member x (by simp)
      intro y
      simp only [mem_append, mem_cons]
      tauto
    · exact ties.2
    · intro y first z second
      rcases (inside y).mp first with rfl | earlier
      · exact ties.1 z second
      · exact later y earlier z (by simp [second])

section

variable (less : α → α → Bool) (last : α) (list : List α)

theorem append_risingRun : (risingRun less last list).1 ++ (risingRun less last list).2 = list := by
  fun_induction risingRun less last list <;> simp_all

theorem fallingRun_eq : fallingRun less last list = risingRun (fun a b => !less a b) last list := by
  induction list generalizing last with
  | nil => rfl
  | cons x rest ih => cases below : less x last <;> simp [fallingRun, risingRun, below, ih]

theorem append_fallingRun :
    (fallingRun less last list).1 ++ (fallingRun less last list).2 = list := by
  rw [fallingRun_eq, append_risingRun]

end

theorem pairwise_risingRun {last : α} (trans : ∀ a ∈ last :: list, ∀ b ∈ last :: list,
      ∀ c ∈ last :: list, less b a = false → less c b = false → less c a = false) :
    (last :: (risingRun less last list).1).Pairwise fun a b => less b a = false := by
  fun_induction risingRun less last list with
  | case1 => simp
  | case2 => simp
  | case3 last x rest notBelow run _ split ih =>
    have inside : ∀ y ∈ run, y ∈ rest := by
      intro y member
      rw [← append_risingRun less x rest, split]
      exact mem_append_left _ member
    have tail := ih fun a first b second c third =>
      trans a (by simp [first]) b (by simp [second]) c (by simp [third])
    have first : less x last = false := by simpa using notBelow
    rw [split] at tail
    refine pairwise_cons.mpr ⟨?_, tail⟩
    intro y member
    rcases mem_cons.mp member with rfl | later
    · exact first
    · exact trans last (by simp) x (by simp) y (by simp [inside y later]) first
        (rel_of_pairwise_cons tail later)

private theorem pairwise_fallingRun {last : α} (compares : Compares less (last :: list)) :
    (last :: (fallingRun less last list).1).Pairwise fun a b => less b a = true := by
  rw [fallingRun_eq]
  refine (pairwise_risingRun ?_).imp fun falls => by simpa using falls
  simp only [Bool.not_eq_false']
  intro a inA b inB c inC below next
  by_contra notBelow
  have contrary := compares.trans b inB a inA c inC (compares.asymm b inB a inA below)
    (by simpa using notBelow)
  simp [contrary] at next

theorem perm_ascending (less : α → α → Bool) (list : List α) : (ascending less list).Perm list := by
  match list with
  | [] => exact .refl _
  | [_] => exact .refl _
  | a :: b :: rest =>
    simp only [ascending]
    refine (perm_foldl_insert less _ _).trans ?_
    split
    · refine ((reverse_perm _).append_right _).trans ?_
      simp [append_fallingRun]
    · simp [append_risingRun]

theorem perm_descending (less : α → α → Bool) (list : List α) : (descending less list).Perm list :=
  (reverse_perm _).trans ((perm_ascending less _).trans (reverse_perm _))

/-- Sorting is stable: what is alike stays in the order that it had. -/
theorem pairwise_ascending (compares : Compares less list) (ties : list.Pairwise tie) :
    (ascending less list).Pairwise (InOrder less tie) := by
  match list with
  | [] => exact .nil
  | [_] => exact pairwise_singleton _ _
  | a :: b :: rest =>
    simp only [ascending]
    -- The leading run starts with the first two elements.
    by_cases falls : less b a
    · have whole := append_fallingRun less a (b :: rest)
      have falling := pairwise_fallingRun compares
      simp only [fallingRun, falls, ↓reduceIte] at whole falling ⊢
      rw [← whole, ← cons_append] at compares ties
      rw [pairwise_append] at ties
      refine pairwise_foldl_insert (compares.of_subset fun y => ?_) ?_ ties.2.1 ?_
      · simp only [mem_append, mem_reverse, imp_self]
      · rw [pairwise_reverse]
        exact falling.imp .inl
      · intro y first z second
        exact ties.2.2 y (mem_reverse.mp first) z second
    · have whole := append_risingRun less a (b :: rest)
      have rising := pairwise_risingRun compares.trans
      simp only [risingRun, falls, Bool.false_eq_true, ↓reduceIte] at whole rising ⊢
      rw [← whole, ← cons_append] at compares ties
      rw [pairwise_append] at ties
      refine pairwise_foldl_insert compares ?_ ties.2.1 ties.2.2
      exact rising.imp₂ (fun _ _ notBelow tied => .inr ⟨notBelow, tied⟩) ties.1

theorem pairwise_descending (compares : Compares less list) (ties : list.Pairwise tie) :
    (descending less list).Pairwise (InOrder (fun a b => less b a) tie) := by
  rw [descending, pairwise_reverse]
  refine pairwise_ascending (compares.of_subset fun y => mem_reverse.mp) ?_
  exact pairwise_reverse.mpr ties

/-! ### Sorting by a view -/

section Views

variable {β : Type} (less : β → β → Bool) (f : α → β)

theorem risingRun_map (last : α) (list : List α) :
    risingRun less (f last) (list.map f) =
      ((risingRun (fun a b => less (f a) (f b)) last list).1.map f,
        (risingRun (fun a b => less (f a) (f b)) last list).2.map f) := by
  induction list generalizing last with
  | nil => rfl
  | cons x rest ih =>
    simp only [map_cons, risingRun]
    split
    · rfl
    · rw [ih]
      rfl

private theorem fallingRun_map (last : α) (list : List α) :
    fallingRun less (f last) (list.map f) =
      ((fallingRun (fun a b => less (f a) (f b)) last list).1.map f,
        (fallingRun (fun a b => less (f a) (f b)) last list).2.map f) := by
  rw [fallingRun_eq, risingRun_map, fallingRun_eq]

private theorem insert_nil (less : α → α → Bool) (x : α) : insert less x [] = [x] := by
  rw [insert]
  split
  · rfl
  next some => simp at some

private theorem insert_of_halves {less : α → α → Bool} {x middle : α} {sorted back : List α}
    (halves : sorted.drop (sorted.length / 2) = middle :: back) :
    insert less x sorted =
      if less x middle then insert less x (sorted.take (sorted.length / 2)) ++ middle :: back
      else sorted.take (sorted.length / 2) ++ middle :: insert less x back := by
  rw [insert]
  split
  next none => simp [none] at halves
  next middle' back' halves' =>
    rw [halves] at halves'
    cases halves'
    rfl

private theorem insert_map (x : α) (sorted : List α) :
    insert less (f x) (sorted.map f) = (insert (fun a b => less (f a) (f b)) x sorted).map f := by
  fun_induction insert (fun a b => less (f a) (f b)) x sorted with
  | case1 sorted none =>
    have short := congrArg length none
    simp at short
    rw [length_eq_zero_iff.mp (by omega : sorted.length = 0), map_nil, insert_nil, map_singleton]
  | case2 sorted middle back halves _ _ below ih =>
    have halves' : (sorted.map f).drop ((sorted.map f).length / 2) = f middle :: back.map f := by
      rw [length_map, ← map_drop, halves, map_cons]
    rw [insert_of_halves halves', if_pos below, length_map, ← map_take, ih, map_append, map_cons]
  | case3 sorted middle back halves _ _ above ih =>
    have halves' : (sorted.map f).drop ((sorted.map f).length / 2) = f middle :: back.map f := by
      rw [length_map, ← map_drop, halves, map_cons]
    rw [insert_of_halves halves', if_neg above, length_map, ← map_take, ih, map_append, map_cons]

private theorem foldl_insert_map (rest sorted : List α) :
    (rest.map f).foldl (fun sorted x => insert less x sorted) (sorted.map f) =
      (rest.foldl (fun sorted x => insert (fun a b => less (f a) (f b)) x sorted) sorted).map f := by
  induction rest generalizing sorted with
  | nil => rfl
  | cons x rest ih => rw [map_cons, foldl_cons, insert_map, ih, foldl_cons]

theorem ascending_map (list : List α) :
    ascending less (list.map f) = (ascending (fun a b => less (f a) (f b)) list).map f := by
  match list with
  | [] => rfl
  | [_] => rfl
  | a :: b :: rest =>
    simp only [map_cons, ascending]
    split
    · rw [fallingRun_map, ← map_cons, ← map_cons, ← map_reverse, foldl_insert_map]
    · rw [risingRun_map, ← map_cons, ← map_cons, foldl_insert_map]

theorem descending_map (list : List α) :
    descending less (list.map f) = (descending (fun a b => less (f a) (f b)) list).map f := by
  rw [descending, ← map_reverse, ascending_map, ← map_reverse, descending]

private theorem place_map (x : α) (list : List α) :
    place less (f x) (list.map f) = (place (fun a b => less (f a) (f b)) x list).map f := by
  induction list with
  | nil => rfl
  | cons y rest ih =>
    simp only [map_cons, place]
    split
    · rfl
    · rw [ih, map_cons]

theorem arrange_map (list : List α) :
    arrange less (list.map f) = (arrange (fun a b => less (f a) (f b)) list).map f := by
  induction list with
  | nil => rfl
  | cons x rest ih =>
    simp only [arrange, map_cons, foldr_cons] at ih ⊢
    rw [ih, place_map]

end Views

end Crosstab.Sorting
