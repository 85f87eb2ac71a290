import Crosstab.Proofs.Ranking.Front

/-!
# Both ends of a ranking

A limit and its negative keep members from the two ends of the order of keys, but ties go by text in
both directions and none comes last in both.
-/
namespace Crosstab

open List

/-! ### Counting what stands ahead -/

/-- In a strict order an element is among the first ones exactly where few enough stand ahead of it. -/
theorem mem_take_iff_countP_lt {α : Type} {before : α → α → Bool} {list : List α}
    (ordered : list.Pairwise fun a b => before a b = true)
    (asymm : ∀ a ∈ list, ∀ b ∈ list, before a b → before b a = false) {x : α}
    (member : x ∈ list) (count : Nat) : x ∈ list.take count ↔ list.countP (before · x) < count := by
  induction list generalizing count with
  | nil => cases member
  | cons y rest ih =>
    have irrefl (z : α) (there : z ∈ y :: rest) : before z z = false :=
      Bool.eq_true_imp_eq_false.mp (asymm z there z there)
    rw [pairwise_cons] at ordered
    cases count with
    | zero => simp
    | succ count =>
      by_cases later : x ∈ rest
      · have first := ordered.1 x later
        have other : x ≠ y := by
          rintro rfl
          simp [irrefl x member] at first
        have inner := ih ordered.2 (fun a ofA b ofB => asymm a (by simp [ofA]) b (by simp [ofB]))
          later count
        simp [other, first, inner]
      · obtain rfl : x = y := (mem_cons.mp member).resolve_right later
        -- Nothing stands ahead of the first element, itself included.
        have none : rest.countP (before · x) = 0 := by
          rw [countP_eq_zero]
          intro z there
          simp [asymm x (by simp) z (by simp [there]) (ordered.1 z there)]
        simp [none, irrefl x member]

/-- Two properties that exclude each other are met as often as one that both imply, or less. -/
theorem countP_add_countP_le {α : Type} {p q r : α → Bool} {list : List α}
    (apart : ∀ x ∈ list, p x → q x = false) (within : ∀ x ∈ list, p x ∨ q x → r x) :
    list.countP p + list.countP q ≤ list.countP r := by
  induction list with
  | nil => simp
  | cons x rest ih =>
    have others := ih (fun y member => apart y (by simp [member]))
      fun y member => within y (by simp [member])
    have here : (if p x then 1 else 0) + (if q x then 1 else 0) ≤ if r x then 1 else 0 := by
      by_cases ofP : p x
      · simp [ofP, apart x (by simp) ofP, within x (by simp) (.inl ofP)]
      by_cases ofQ : q x
      · simp [ofP, ofQ, within x (by simp) (.inr ofQ)]
      · simp [ofP, ofQ]
    simp only [countP_cons]
    omega

/-- A property that implies one of two others is met as often as both together, or less. -/
theorem countP_le_countP_add {α : Type} {p q r : α → Bool} {list : List α}
    (covered : ∀ x ∈ list, r x → p x ∨ q x) : list.countP r ≤ list.countP p + list.countP q := by
  induction list with
  | nil => simp
  | cons x rest ih =>
    have others := ih fun y member => covered y (by simp [member])
    have here : (if r x then 1 else 0) ≤ (if p x then 1 else 0) + (if q x then 1 else 0) := by
      by_cases ofR : r x
      · rcases covered x (by simp) ofR with ofP | ofQ
        · simp [ofR, ofP]
        · simp [ofR, ofQ]
      · simp [ofR]
    simp only [countP_cons]
    omega

namespace Candidate

variable {candidates : List Candidate} {falls : Bool} {count : Nat}

def upTo (c d : Candidate) : Bool := !d.2.isNull && !c.below d

def downTo (c d : Candidate) : Bool := !d.2.isNull && !d.below c

/-- Of the candidates in their places, those that the key does not put behind another one. -/
def level (falls : Bool) (candidates : List Candidate) (c : Candidate) : Nat :=
  candidates.countP fun d => !leads falls c d

private theorem level_of_keyed {c : Candidate} (keyed : c.2.isNull = false) :
    level falls candidates c = candidates.countP (if falls then c.downTo else c.upTo) := by
  unfold level
  congr 1
  funext d
  cases falls <;> simp [leads, keyed, upTo, downTo]

private theorem levels_iff (candidates : List Candidate) (count : Nat) :
    (∀ c ∈ candidates, level false candidates c ≤ count ∨ level true candidates c ≤ count) ↔
      (∀ c ∈ candidates, c.2.isNull → candidates.length ≤ count) ∧
      ∀ c ∈ candidates, c.2.isNull = false →
        candidates.countP c.upTo ≤ count ∨ candidates.countP c.downTo ≤ count := by
  rw [← forall₂_and]
  refine forall₂_congr fun c member => ?_
  cases present : c.2.isNull with
  | true => simp [level, leads, present]
  | false => simp [level_of_keyed present]

theorem countP_zipIdx (p : Candidate → Bool) (candidates : List Candidate) :
    candidates.zipIdx.countP (fun d => p d.1) = candidates.countP p := by
  conv_rhs => rw [← zipIdx_map_fst 0 candidates, countP_map]
  rfl

variable {c d : Candidate × Nat}

private theorem countP_place (candidates : List Candidate) (place : Nat) :
    candidates.zipIdx.countP (fun d => d.2 == place) ≤ 1 := by
  have once := nodup_iff_count_le_one.mp (nodup_places candidates) place
  rwa [count, countP_map] at once

theorem eq_of_place (first : c ∈ candidates.zipIdx) (second : d ∈ candidates.zipIdx)
    (same : c.2 = d.2) : c = d :=
  inj_on_of_nodup_map (nodup_places candidates) first second same

theorem eq_of_fst (distinct : (candidates.map Prod.fst).Nodup) (first : c ∈ candidates.zipIdx)
    (second : d ∈ candidates.zipIdx) (same : c.1.1 = d.1.1) : c = d := by
  refine inj_on_of_nodup_map (f := fun d : Candidate × Nat => d.1.1) ?_ first second same
  rwa [← zipIdx_map_fst 0 candidates, map_map] at distinct

theorem Orderable.ahead_irrefl (orderable : Orderable candidates) (listed : c ∈ candidates.zipIdx) :
    ahead falls c c = false :=
  Bool.eq_true_imp_eq_false.mp (orderable.ahead_asymm listed listed)

/-- What stands ahead of a candidate is not behind it by the key, and neither is the candidate. -/
theorem Orderable.ahead_lt_level (orderable : Orderable candidates) (listed : c ∈ candidates.zipIdx)
    (falls : Bool) : candidates.zipIdx.countP (ahead falls · c) < level falls candidates c.1 := by
  have member := fst_mem_of_mem_zipIdx listed
  have self : 0 < candidates.zipIdx.countP fun d => d.2 == c.2 :=
    countP_pos_iff.mpr ⟨c, listed, by simp⟩
  have both : candidates.zipIdx.countP (ahead falls · c) +
      candidates.zipIdx.countP (fun d => d.2 == c.2) ≤
        candidates.zipIdx.countP fun d => !leads falls c.1 d.1 := by
    refine countP_add_countP_le (fun d there order => ?_) fun d there either => ?_
    · by_contra same
      obtain rfl : d = c := eq_of_place there listed (by simpa using same)
      simp [orderable.ahead_irrefl listed] at order
    · rcases either with order | same
      · rcases ahead_iff.mp order with leading | ⟨behind, _⟩
        · simp [(orderable.compares falls).asymm d.1 (fst_mem_of_mem_zipIdx there) c.1 member
            leading]
        · simp [behind]
      · obtain rfl : d = c := eq_of_place there listed (by simpa using same)
        simp [orderable.leads_irrefl member]
  rw [countP_zipIdx (fun d => !leads falls c.1 d) candidates] at both
  unfold level
  omega

/-! ### The last of equal keys -/

/-- The keys do not tell two candidates apart. -/
def alike (a b : Candidate) : Bool := !leads false a b && !leads false b a

theorem alike_iff (falls : Bool) {a b : Candidate} :
    alike a b ↔ leads falls a b = false ∧ leads falls b a = false := by
  cases falls with
  | false => simp [alike]
  | true => cases ofA : a.2.isNull <;> cases ofB : b.2.isNull <;> simp [alike, leads, ofA, ofB, and_comm]

variable (orderable : Orderable candidates)

include orderable

/-- Among candidates with one key there is a last one by text and place. -/
theorem Orderable.exists_last (listed : c ∈ candidates.zipIdx) :
    ∃ l ∈ candidates.zipIdx, alike c.1 l.1 ∧
      ∀ d ∈ candidates.zipIdx, alike c.1 d.1 → d = l ∨ earlier d l := by
  have ranks := orderable.ranked false
  have member := fst_mem_of_mem_zipIdx listed
  have self : alike c.1 c.1 := by simp [alike, orderable.leads_irrefl member]
  have ordered := ranks.ordered.filter fun d => alike c.1 d.1
  have inside (d : Candidate × Nat) : d ∈ (rankPlaces candidates false).filter (fun d => alike c.1 d.1) ↔
      d ∈ candidates.zipIdx ∧ alike c.1 d.1 := by
    rw [mem_filter, ranks.listed.mem_iff]
  obtain none | ⟨front, l, split⟩ :=
    eq_nil_or_concat ((rankPlaces candidates false).filter fun d => alike c.1 d.1)
  · have there := (inside c).mpr ⟨listed, self⟩
    rw [none] at there
    cases there
  · rw [concat_eq_append] at split
    rw [split] at ordered
    simp only [split] at inside
    rw [pairwise_append] at ordered
    have last := (inside l).mp (by simp)
    refine ⟨l, last.1, last.2, fun d there same => ?_⟩
    rcases mem_append.mp ((inside d).mpr ⟨there, same⟩) with before | final
    · refine .inr ?_
      rcases ahead_iff.mp (ordered.2.2 d before l (by simp)) with leading | ⟨_, text⟩
      -- Two that are alike a third are alike, so the key does not put one ahead.
      · have contrary := (orderable.compares false).trans l.1 (fst_mem_of_mem_zipIdx last.1) c.1
          member d.1 (fst_mem_of_mem_zipIdx there) ((alike_iff false).mp last.2).1
          ((alike_iff false).mp same).2
        simp [contrary] at leading
      · exact text
    · exact .inl (mem_singleton.mp final)

/-- Of all that the key does not put behind a candidate, only the last with that key is not ahead of
the last. -/
theorem Orderable.level_le {l : Candidate × Nat}
    (listed : c ∈ candidates.zipIdx) (there : l ∈ candidates.zipIdx) (same : alike c.1 l.1)
    (last : ∀ d ∈ candidates.zipIdx, alike c.1 d.1 → d = l ∨ earlier d l) (falls : Bool) :
    level falls candidates c.1 ≤ candidates.zipIdx.countP (ahead falls · l) + 1 := by
  have compares := orderable.compares falls
  have ofC := fst_mem_of_mem_zipIdx listed
  have ofL := fst_mem_of_mem_zipIdx there
  have covered : candidates.zipIdx.countP (fun d => !leads falls c.1 d.1) ≤
      candidates.zipIdx.countP (ahead falls · l) +
        candidates.zipIdx.countP fun d => d.2 == l.2 := by
    refine countP_le_countP_add fun d member level => ?_
    have ofD := fst_mem_of_mem_zipIdx member
    have notBehind : leads falls c.1 d.1 = false := by simpa using level
    by_cases leading : leads falls d.1 c.1
    -- What leads the key leads all that have it.
    · refine .inl (ahead_iff.mpr (.inl ?_))
      by_contra behind
      have contrary := compares.trans c.1 ofC l.1 ofL d.1 ofD ((alike_iff falls).mp same).2
        (by simpa using behind)
      simp [contrary] at leading
    · rcases last d member ((alike_iff falls).mpr ⟨notBehind, by simpa using leading⟩) with rfl | text
      · exact .inr (by simp)
      · refine .inl (ahead_iff.mpr (.inr ⟨?_, text⟩))
        exact compares.trans d.1 ofD c.1 ofC l.1 ofL notBehind ((alike_iff falls).mp same).2
  have once := countP_place candidates l.2
  rw [countP_zipIdx (fun d => !leads falls c.1 d) candidates] at covered
  unfold level
  omega

/-- Every candidate has few enough ahead of it in one of the directions exactly where this holds of the
last with each key. -/
theorem Orderable.either_ahead_iff (count : Nat) :
    (∀ c ∈ candidates.zipIdx, candidates.zipIdx.countP (ahead false · c) < count ∨
      candidates.zipIdx.countP (ahead true · c) < count) ↔
    ∀ c ∈ candidates, level false candidates c ≤ count ∨ level true candidates c ≤ count := by
  constructor
  · intro shown c member
    rw [← zipIdx_map_fst 0 candidates] at member
    obtain ⟨c, listed, rfl⟩ := mem_map.mp member
    obtain ⟨l, there, same, last⟩ := orderable.exists_last listed
    have reaches := orderable.level_le listed there same last
    rcases shown l there with rising | falling
    · exact .inl ((reaches false).trans rising)
    · exact .inr ((reaches true).trans falling)
  · intro reaches c listed
    rcases reaches c.1 (fst_mem_of_mem_zipIdx listed) with rising | falling
    · exact .inl ((orderable.ahead_lt_level listed false).trans_le rising)
    · exact .inr ((orderable.ahead_lt_level listed true).trans_le falling)

/-- No candidate stands ahead of one in both directions if that one shares its key with none. -/
theorem Orderable.ahead_of_own_key (listed : c ∈ candidates.zipIdx) (keyed : c.1.2.isNull = false)
    (own : ∀ d ∈ candidates, d.2.isNull = false → d ≠ c.1 → c.1.below d ∨ d.below c.1)
    (there : d ∈ candidates.zipIdx) (other : d.1 ≠ c.1) (rising : ahead false d c) :
    ahead true d c = false := by
  have ofC := fst_mem_of_mem_zipIdx listed
  have ofD := fst_mem_of_mem_zipIdx there
  by_cases present : d.1.2.isNull
  · simp [ahead, leads, keyed, present]
  have present : d.1.2.isNull = false := by simpa using present
  have below : d.1.below c.1 := by
    refine (own d.1 ofD present other).resolve_left fun above => ?_
    have leading : leads false c.1 d.1 := by simpa [leads_of_keyed keyed present] using above
    have behind := (orderable.compares false).asymm c.1 ofC d.1 ofD leading
    simp [ahead, leading, behind] at rising
  have leading : leads true c.1 d.1 := by simpa [leads_of_keyed keyed present] using below
  have behind := (orderable.compares true).asymm c.1 ofC d.1 ofD leading
  simp [ahead, leading, behind]

/-- All that stands ahead of a candidate with a key of its own, in one direction or the other, is fewer
than the candidates. -/
theorem Orderable.ahead_add_ahead_lt
    (distinct : (candidates.map Prod.fst).Nodup) (listed : c ∈ candidates.zipIdx)
    (keyed : c.1.2.isNull = false)
    (own : ∀ d ∈ candidates, d.2.isNull = false → d ≠ c.1 → c.1.below d ∨ d.below c.1) :
    candidates.zipIdx.countP (ahead false · c) + candidates.zipIdx.countP (ahead true · c) <
      candidates.length := by
  have self : 0 < candidates.zipIdx.countP fun d => d.2 == c.2 :=
    countP_pos_iff.mpr ⟨c, listed, by simp⟩
  have elsewhere (falls : Bool) (d : Candidate × Nat) (there : d ∈ candidates.zipIdx)
      (order : ahead falls d c) : d ≠ c := by
    rintro rfl
    simp [orderable.ahead_irrefl listed] at order
  have both : candidates.zipIdx.countP (ahead false · c) + candidates.zipIdx.countP (ahead true · c) ≤
      candidates.zipIdx.countP fun d => !(d.2 == c.2) := by
    refine countP_add_countP_le (fun d there rising => ?_) fun d there either => ?_
    · refine orderable.ahead_of_own_key listed keyed own there (fun same => ?_) rising
      exact elsewhere false d there rising (eq_of_fst distinct there listed (by rw [same]))
    · have other : d ≠ c := either.elim (elsewhere false d there) (elsewhere true d there)
      simpa using fun place => other (eq_of_place there listed place)
  have whole := length_eq_countP_add_countP (fun d : Candidate × Nat => d.2 == c.2)
    (l := candidates.zipIdx)
  simp only [length_zipIdx, Bool.not_eq_true, Bool.decide_eq_false] at whole
  omega

/-- Where members differ, one is returned exactly if few enough candidates stand ahead of it. -/
theorem Orderable.mem_front_iff
    (distinct : (candidates.map Prod.fst).Nodup) (listed : c ∈ candidates.zipIdx) :
    c.1.1 ∈ ((rankPlaces candidates falls).take count).map (fun d => d.1.1) ↔
      candidates.zipIdx.countP (ahead falls · c) < count := by
  have ranks := orderable.ranked falls
  have front : c ∈ (rankPlaces candidates falls).take count ↔
      candidates.zipIdx.countP (ahead falls · c) < count := by
    rw [mem_take_iff_countP_lt ranks.ordered (fun a ofA b ofB order => ?_)
      (ranks.listed.mem_iff.mpr listed) count, ranks.listed.countP_eq]
    exact orderable.ahead_asymm (ranks.listed.subset ofA) (ranks.listed.subset ofB) order
  rw [← front]
  constructor
  · intro shown
    obtain ⟨d, kept, same⟩ := mem_map.mp shown
    have there := ranks.listed.subset (mem_of_mem_take kept)
    exact eq_of_fst distinct there listed same ▸ kept
  · exact mem_map_of_mem

end Candidate

/-! ### A limit and its negative -/

namespace Ranking

variable (basis : Basis) (direction : Option Direction) {n : Nat}

private theorem falls_of_limit (n : Nat) :
    (⟨basis, direction, some (n : Int)⟩ : Ranking).falls = (direction == some .descending) := by
  have notNegative : ¬ (n : Int) < 0 := by omega
  cases direction <;> simp [falls, notNegative]

private theorem falls_of_negative (positive : 0 < n) :
    (⟨basis, direction, some (-(n : Int))⟩ : Ranking).falls = !(direction == some .descending) := by
  rcases direction with - | direction
  · simp [falls, positive]
  · cases direction <;> simp [falls, positive]

end Ranking

private theorem rank_eq_take_limit {candidates : List Candidate}
    (orderable : Candidate.Orderable candidates)
    (basis : Basis) (direction : Option Direction) (limit : Int) :
    rank candidates ⟨basis, direction, some limit⟩ =
      .ok (((rankPlaces candidates (⟨basis, direction, some limit⟩ : Ranking).falls).take
        limit.natAbs).map fun c => c.1.1) := by
  rw [rank_eq_take orderable]
  show Except.ok (map _ (take (min limit.natAbs candidates.length) _)) = _
  rw [← length_rankPlaces, ← take_eq_take_min]

open Candidate in
/-- Of distinct members, at most twice as many as the limit, all are at one of the two ends exactly where
candidates without a key are within the limit as a whole, and where for each key the candidates up to
it or those down to it are: the last by text of those that share a key stands behind the others at both
ends. A member that shares its key with none is always at one end. -/
theorem members_at_either_end_iff {candidates : List Candidate} (orderable : Orderable candidates)
    (distinct : (candidates.map Prod.fst).Nodup) (basis : Basis) (direction : Option Direction) {n : Nat}
    (positive : 0 < n) (few : candidates.length ≤ 2 * n) :
    ∃ first last, rank candidates ⟨basis, direction, some n⟩ = .ok first ∧
      rank candidates ⟨basis, direction, some (-n)⟩ = .ok last ∧
      ((∀ c ∈ candidates, c.1 ∈ first ∨ c.1 ∈ last) ↔
        (∀ c ∈ candidates, c.2.isNull = true → candidates.length ≤ n) ∧
        ∀ c ∈ candidates, c.2.isNull = false →
          candidates.countP c.upTo ≤ n ∨ candidates.countP c.downTo ≤ n) ∧
      ∀ c ∈ candidates, c.2.isNull = false →
        (∀ d ∈ candidates, d.2.isNull = false → d ≠ c → c.below d = true ∨ d.below c = true) →
          c.1 ∈ first ∨ c.1 ∈ last := by
  refine ⟨_, _, rank_eq_take_limit orderable basis direction n,
    rank_eq_take_limit orderable basis direction (-n), ?_⟩
  rw [Ranking.falls_of_limit, Ranking.falls_of_negative basis direction positive, Int.natAbs_neg,
    Int.natAbs_natCast]
  -- The two ends are the fronts in both directions, whichever of them comes first.
  have ends {c : Candidate × Nat} (listed : c ∈ candidates.zipIdx) (falls : Bool) :
      (c.1.1 ∈ ((rankPlaces candidates falls).take n).map (fun d => d.1.1) ∨
        c.1.1 ∈ ((rankPlaces candidates !falls).take n).map (fun d => d.1.1)) ↔
      (candidates.zipIdx.countP (ahead false · c) < n ∨
        candidates.zipIdx.countP (ahead true · c) < n) := by
    rw [orderable.mem_front_iff distinct listed, orderable.mem_front_iff distinct listed]
    cases falls with
    | false => rfl
    | true => exact or_comm
  have inPlace (c : Candidate) (member : c ∈ candidates) : ∃ place, (c, place) ∈ candidates.zipIdx := by
    rw [← List.zipIdx_map_fst 0 candidates] at member
    obtain ⟨⟨c, place⟩, listed, rfl⟩ := List.mem_map.mp member
    exact ⟨place, listed⟩
  constructor
  · rw [← levels_iff candidates n, ← orderable.either_ahead_iff n]
    constructor
    · intro shown c listed
      exact (ends listed _).mp (shown c.1 (List.fst_mem_of_mem_zipIdx listed))
    · intro few c member
      obtain ⟨place, listed⟩ := inPlace c member
      exact (ends listed _).mpr (few (c, place) listed)
  · intro c member keyed own
    obtain ⟨place, listed⟩ := inPlace c member
    refine (ends listed _).mpr ?_
    have sum := orderable.ahead_add_ahead_lt distinct listed keyed own
    omega

/-- Two lowest and two highest of four, where the two lowest tie: every member is at one end. -/
theorem four_at_either_end :
    let candidates : List Candidate := [("d", 3), ("b", 1),
      ("c", .real (.nearest false 5 2)), ("a", 1)]
    Candidate.Orderable candidates ∧
      ∃ first last, rank candidates ⟨.value, none, some 2⟩ = .ok first ∧
        rank candidates ⟨.value, none, some (-2)⟩ = .ok last ∧
        ∀ c ∈ candidates, c.1 ∈ first ∨ c.1 ∈ last := by
  intro candidates
  have orderable : Candidate.Orderable candidates := Candidate.orderable_of_numbers (by decide)
  have distinct : (candidates.map Prod.fst).Nodup := by simp [candidates]
  obtain ⟨first, last, top, bottom, all, _⟩ :=
    members_at_either_end_iff orderable distinct .value none (n := 2) (by decide) (by decide)
  refine ⟨orderable, first, last, top, bottom, all.mpr ?_⟩
  decide +kernel

/-- Of two members that tie, or that both have no key, the second by text is neither the first nor the
last one. -/
theorem second_of_two_at_neither_end :
    let tied : List Candidate := [("a", 1), ("b", 1)]
    let unkeyed : List Candidate := [("a", .null), ("b", .null)]
    Candidate.Orderable tied ∧ Candidate.Orderable unkeyed ∧
      ∀ candidates ∈ [tied, unkeyed], ∀ limit ∈ [1, -1],
        (rank candidates ⟨.value, none, some limit⟩).toOption.map (List.map Value.plain) =
          some ["a"] := by
  intro tied unkeyed
  exact ⟨Candidate.orderable_of_numbers (by decide), Candidate.orderable_of_numbers (by decide),
    by decide +kernel⟩

end Crosstab
