import Mathlib.Data.List.Nodup
import Mathlib.Data.List.Perm.Subperm

/-!
# Lists without repetition

Lists that keep each element once. Keys without repetition take a list apart into the elements of
each key.
-/
namespace Crosstab

open List

variable {α : Type}

theorem nodup_eraseDups [BEq α] [LawfulBEq α] (xs : List α) : xs.eraseDups.Nodup := by
  match xs with
  | [] => exact nodup_nil
  | x :: xs =>
    have shorter : (xs.filter fun y => !y == x).length < xs.length + 1 :=
      Nat.lt_succ_of_le (length_filter_le _ xs)
    rw [eraseDups_cons, nodup_cons]
    exact ⟨by simp, nodup_eraseDups _⟩
termination_by xs.length

variable {xs : List α} {β : Type} {x : α}

theorem eraseDups_of_nodup [BEq α] [LawfulBEq α] (unique : xs.Nodup) : xs.eraseDups = xs := by
  induction xs with
  | nil => rfl
  | cons x xs ih =>
    rw [nodup_cons] at unique
    have kept : (xs.filter fun y => !y == x) = xs := by
      rw [filter_eq_self]
      intro y member
      have other : y ≠ x := fun equal => unique.1 (equal ▸ member)
      simpa using other
    rw [eraseDups_cons, kept, ih unique.2]

theorem nodup_of_length_eraseDups_eq [BEq α] [LawfulBEq α] (kept : xs.eraseDups.length = xs.length)
    : xs.Nodup := by
  have inside : xs.eraseDups ⊆ xs := fun x member => mem_eraseDups.mp member
  have arranged := (subperm_of_subset (nodup_eraseDups xs) inside).perm_of_length_le
    (Nat.le_of_eq kept.symm)
  exact arranged.nodup_iff.mp (nodup_eraseDups xs)

/-- Erasing repetitions keeps what comes first, so a last element stays only if it is new. -/
theorem eraseDups_concat [BEq α] [LawfulBEq α] (xs : List α) (x : α) :
    (xs ++ [x]).eraseDups = if xs.contains x then xs.eraseDups else xs.eraseDups ++ [x] := by
  rw [eraseDups_append]
  by_cases member : x ∈ xs
  · simp [removeAll, member]
  · simp [removeAll, member, eraseDups_cons]

theorem find?_of_nodup_map [BEq β] [LawfulBEq β] {key : α → β} (unique : (xs.map key).Nodup)
    (member : x ∈ xs) : xs.find? (fun y => key y == key x) = some x := by
  cases found : xs.find? fun y => key y == key x with
  | none =>
    rw [find?_eq_none] at found
    exact absurd (beq_self_eq_true _) (found x member)
  | some y =>
    have keyed : key y = key x := by simpa using find?_some found
    rw [inj_on_of_nodup_map unique (mem_of_find?_eq_some found) member keyed]

theorem find?_eq_of_perm {p : α → Bool} {ys : List α} (arranged : xs.Perm ys)
    (single : ∀ x ∈ xs, ∀ y ∈ xs, p x → p y → x = y) : xs.find? p = ys.find? p := by
  cases found : xs.find? p with
  | none =>
    rw [find?_eq_none] at found
    exact (find?_eq_none.mpr fun y member => found y (arranged.symm.subset member)).symm
  | some x =>
    have inside := mem_of_find?_eq_some found
    have meets := find?_some found
    cases found' : ys.find? p with
    | none =>
      rw [find?_eq_none] at found'
      exact absurd meets (found' x (arranged.subset inside))
    | some y =>
      have there := arranged.symm.subset (mem_of_find?_eq_some found')
      rw [single x inside y there meets (find?_some found')]

/-- Among entries whose keys settle their values, the key of an element finds its value. -/
theorem lookup_map_of_mem {κ ν : Type} [BEq κ] [LawfulBEq κ] (key : α → κ) (value : α → ν)
    (member : x ∈ xs) (settled : ∀ y ∈ xs, key y = key x → value y = value x) :
    (xs.map fun y => (key y, value y)).lookup (key x) = some (value x) := by
  induction xs with
  | nil => cases member
  | cons y xs ih =>
    rw [map_cons, lookup_cons]
    by_cases same : key y = key x
    · simp [same, settled y mem_cons_self same]
    · have later : x ∈ xs := (mem_cons.mp member).resolve_left fun equal => same (equal ▸ rfl)
      rw [beq_eq_false_iff_ne.mpr (Ne.symm same)]
      exact ih later fun z there => settled z (mem_cons_of_mem _ there)

theorem filter_of_nodup_map [DecidableEq β] {key : α → β} (unique : (xs.map key).Nodup)
    (member : x ∈ xs) : xs.filter (fun y => key y = key x) = [x] := by
  induction xs with
  | nil => cases member
  | cons first xs ih =>
    rw [map_cons, nodup_cons] at unique
    rcases mem_cons.mp member with rfl | later
    · have others : (xs.filter fun y => key y = key x) = [] := by
        rw [filter_eq_nil_iff]
        intro y there same
        exact unique.1 (mem_map.mpr ⟨y, there, by simpa using same⟩)
      rw [filter_cons_of_pos (by simp), others]
    · have apart : key first ≠ key x := fun same =>
        unique.1 (mem_map.mpr ⟨x, later, same.symm⟩)
      rw [filter_cons_of_neg (by simpa using apart), ih unique.2 later]

theorem perm_flatMap_filter [DecidableEq β] {key : α → β} {keys : List β} (unique : keys.Nodup)
    (covered : ∀ x ∈ xs, key x ∈ keys) :
    (keys.flatMap fun k => xs.filter fun x => key x = k).Perm xs := by
  induction keys generalizing xs with
  | nil =>
    have empty : xs = [] := eq_nil_iff_forall_not_mem.mpr fun x member =>
      not_mem_nil (covered x member)
    rw [empty]
    exact .refl _
  | cons k keys ih =>
    rw [nodup_cons] at unique
    rw [flatMap_cons]
    -- The other keys only see what has another key than the first.
    have rest : (keys.flatMap fun other => xs.filter fun x => key x = other) =
        keys.flatMap fun other => (xs.filter fun x => !decide (key x = k)).filter
          fun x => key x = other := by
      apply flatMap_congr
      intro other there
      rw [filter_filter]
      apply filter_congr
      intro x _
      by_cases same : key x = other
      · have apart : key x ≠ k := fun equal => unique.1 (equal ▸ same ▸ there)
        simp [same, same ▸ apart]
      · simp [same]
    have others : ∀ x ∈ xs.filter (fun x => !decide (key x = k)), key x ∈ keys := by
      intro x member
      obtain ⟨there, apart⟩ := mem_filter.mp member
      exact (mem_cons.mp (covered x there)).resolve_left (by simpa using apart)
    rw [rest]
    exact ((ih unique.2 others).append_left _).trans (filter_append_perm _ xs)

/-- Appends the elements that are not there yet. -/
def adjoinAll [BEq α] (xs more : List α) : List α :=
  more.foldl (fun xs x => if xs.contains x then xs else xs ++ [x]) xs

theorem mem_adjoinAll [BEq α] [LawfulBEq α] {more : List α} :
    x ∈ adjoinAll xs more ↔ x ∈ xs ∨ x ∈ more := by
  induction more generalizing xs with
  | nil => simp [adjoinAll]
  | cons y more ih =>
    rw [adjoinAll, foldl_cons, ← adjoinAll, ih]
    split
    next known =>
      have member : y ∈ xs := contains_iff_mem.mp known
      constructor
      · rintro (old | new)
        · exact .inl old
        · exact .inr (mem_cons_of_mem _ new)
      · rintro (old | new)
        · exact .inl old
        · rcases mem_cons.mp new with rfl | later
          · exact .inl member
          · exact .inr later
    · simp [or_assoc]

theorem nodup_adjoinAll [BEq α] [LawfulBEq α] (unique : xs.Nodup) (more : List α) :
    (adjoinAll xs more).Nodup := by
  induction more generalizing xs with
  | nil => exact unique
  | cons y more ih =>
    rw [adjoinAll, foldl_cons]
    split
    · exact ih unique
    next absent =>
      have new : y ∉ xs := fun member => absent (contains_iff_mem.mpr member)
      exact ih (nodup_append.mpr ⟨unique, nodup_singleton y, fun a old b fresh equal =>
        new (mem_singleton.mp fresh ▸ equal ▸ old)⟩)

end Crosstab
