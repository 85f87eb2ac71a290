import Crosstab.Proofs.RowOrder.Members

/-!
# The front of a ranking

The order of candidates by key, text and place is strict, so only one arrangement follows it.
Ranking returns the front of this arrangement.
-/
namespace Crosstab

open List

/-- How many of a number of candidates are kept. -/
def Ranking.keeps (ranking : Ranking) (count : Nat) : Nat :=
  ranking.limit.elim count fun limit => min limit.natAbs count

private theorem Ranking.cut_eq_take {α : Type} (ranking : Ranking) (members : List α) :
    ranking.cut members = members.take (ranking.keeps members.length) := by
  unfold cut keeps
  cases ranking.limit with
  | none => simp
  | some limit => simp

namespace Candidate

/-- The keys that candidates have can be compared. -/
def Orderable (candidates : List Candidate) : Prop :=
  Value.Comparable fun key => key.isNull = false ∧ ∃ c ∈ candidates, c.2 = key

/-- The candidates with their places in the list, arranged so that each ranks ahead of all behind it. -/
structure Ranked (falls : Bool) (candidates : List Candidate) (ranked : List (Candidate × Nat)) :
    Prop where
  listed : ranked.Perm candidates.zipIdx
  ordered : ranked.Pairwise fun a b => ahead falls a b = true

variable {candidates : List Candidate} {falls : Bool}

theorem orderable_of_numbers (numbers : candidates.all fun c =>
    c.2.isNull || c.2.quantity?.any (· != .nan)) : Orderable candidates := by
  refine Value.comparable_of_numbers ?_
  rintro _ ⟨present, c, member, rfl⟩
  have number := all_eq_true.mp numbers c member
  rw [present, Bool.false_or, Option.any_eq_true] at number
  obtain ⟨q, reads, proper⟩ := number
  exact ⟨q, reads, by simpa using proper⟩

/-! ### The order is strict -/

section

variable (orderable : Orderable candidates)

include orderable

theorem Orderable.compares (falls : Bool) : Sorting.Compares (leads falls) candidates :=
  compares_leads orderable (fun c member present => ⟨present, c, member, rfl⟩) falls

theorem Orderable.leads_irrefl {c : Candidate}
    (member : c ∈ candidates) : leads falls c c = false :=
  Bool.eq_true_imp_eq_false.mp ((orderable.compares falls).asymm c member c member)

omit orderable in
private theorem earlier_asymm {a b : Candidate × Nat} (first : earlier a b) : earlier b a = false := by
  rw [← Bool.not_eq_true, earlier_iff]
  rcases earlier_iff.mp first with less | ⟨equal, place⟩
  · rintro (back | ⟨equal, _⟩)
    · exact String.lt_asymm less back
    · exact String.lt_irrefl _ (equal ▸ less)
  · rintro (back | ⟨_, place'⟩)
    · exact String.lt_irrefl _ (equal ▸ back)
    · omega

theorem Orderable.ahead_asymm {a b : Candidate × Nat}
    (first : a ∈ candidates.zipIdx) (second : b ∈ candidates.zipIdx)
    (order : ahead falls a b) : ahead falls b a = false := by
  have ofA := fst_mem_of_mem_zipIdx first
  have ofB := fst_mem_of_mem_zipIdx second
  rcases ahead_iff.mp order with leading | ⟨behind, text⟩
  · simp [ahead, leading, (orderable.compares falls).asymm a.1 ofA b.1 ofB leading]
  · simp [ahead, behind, earlier_asymm text]

/-! ### The arrangement -/

theorem Orderable.ranked (falls : Bool) :
    Ranked falls candidates (rankPlaces candidates falls) where
  listed := perm_rankPlaces candidates falls
  ordered := pairwise_rankPlaces orderable (fun c member present => ⟨present, c, member, rfl⟩) falls

private theorem Orderable.ranked_unique {xs ys : List (Candidate × Nat)}
    (first : Ranked falls candidates xs) (second : Ranked falls candidates ys) : xs = ys := by
  refine (first.listed.trans second.listed.symm).eq_of_pairwise ?_ first.ordered second.ordered
  intro a b ofX ofY order back
  have contrary := orderable.ahead_asymm (first.listed.subset ofX) (second.listed.subset ofY) order
  simp [contrary] at back

end

theorem nodup_places (candidates : List Candidate) : (candidates.zipIdx.map Prod.snd).Nodup := by
  rw [zipIdx_map_snd]
  exact nodup_range'

variable {ranked : List (Candidate × Nat)} {count : Nat} {c d : Candidate × Nat}

private theorem Ranked.ahead_of_left_out (ranks : Ranked falls candidates ranked)
    (listed : d ∈ candidates.zipIdx) (leftOut : d ∉ ranked.take count) (kept : c ∈ ranked.take count) :
    ahead falls c d := by
  have whole := ranks.ordered
  rw [← take_append_drop count ranked, pairwise_append] at whole
  refine whole.2.2 c kept d ?_
  have there := ranks.listed.symm.subset listed
  rw [← take_append_drop count ranked] at there
  exact (mem_append.mp there).resolve_left leftOut

end Candidate

theorem length_rankPlaces (candidates : List Candidate) (falls : Bool) :
    (rankPlaces candidates falls).length = candidates.length := by
  rw [(perm_rankPlaces candidates falls).length_eq, length_zipIdx]

theorem rank_eq_take {candidates : List Candidate} (orderable : Candidate.Orderable candidates)
    (ranking : Ranking) : rank candidates ranking =
      .ok (((rankPlaces candidates ranking.falls).take (ranking.keeps candidates.length)).map
        fun c => c.1.1) := by
  have comparable : Candidate.comparable (candidates.filter fun c => !c.2.isNull) = true := by
    apply Candidate.comparable_eq_true
    intro a first b second
    simp only [mem_filter, Bool.not_eq_true'] at first second
    exact orderable.total _ _ ⟨first.2, a, first.1, rfl⟩ ⟨second.2, b, second.1, rfl⟩
  unfold rank
  rw [if_pos comparable, Ranking.descends_eq_falls, ← map_fst_rankPlaces, map_map]
  show Except.ok (ranking.cut _) = _
  rw [Ranking.cut_eq_take, length_map, length_rankPlaces, map_take]
  rfl

/-- Ranking returns the members of the first candidates in the only arrangement that follows the order
of keys, texts and places: all of them without a limit, else as many as the limit says, whatever its
sign. No candidate is returned twice, none without a key is while one with a key is left out, and none
that is left out ranks ahead of one that is kept. Where the texts differ, the order of the candidates
does not matter. -/
theorem rank_returns_front {candidates : List Candidate} (orderable : Candidate.Orderable candidates)
    (ranking : Ranking) :
    ∃ ranked, Candidate.Ranked ranking.falls candidates ranked ∧
      (∀ other, Candidate.Ranked ranking.falls candidates other → other = ranked) ∧
      ∃ kept, kept = ranked.take (ranking.keeps candidates.length) ∧
        rank candidates ranking = .ok (kept.map fun c => c.1.1) ∧ kept.Nodup ∧
        (∀ c ∈ kept, c.1.2.isNull = true →
          ∀ d ∈ candidates.zipIdx, d.1.2.isNull = false → d ∈ kept) ∧
        (∀ d ∈ candidates.zipIdx, d ∉ kept →
          ∀ c ∈ kept, Candidate.ahead ranking.falls d c = false) ∧
        ∀ others, candidates.Perm others → (candidates.map fun c => c.1.plain).Nodup →
          rank others ranking = rank candidates ranking := by
  have ranks := orderable.ranked ranking.falls
  have inside {c : Candidate × Nat}
      (kept : c ∈ (rankPlaces candidates ranking.falls).take (ranking.keeps candidates.length)) :
      c ∈ candidates.zipIdx := ranks.listed.subset (List.mem_of_mem_take kept)
  refine ⟨_, ranks, fun other also => orderable.ranked_unique also ranks, _, rfl,
    rank_eq_take orderable ranking, ?_, ?_, ?_, ?_⟩
  · exact (ranks.listed.nodup_iff.mpr (.of_map Prod.snd (Candidate.nodup_places candidates))).sublist
      (List.take_sublist _ _)
  · intro c kept unkeyed d listed keyed
    by_contra leftOut
    -- A candidate with a key leads all without one, so it cannot rank behind.
    have behind := orderable.ahead_asymm (inside kept) listed
      (ranks.ahead_of_left_out listed leftOut kept)
    simp [Candidate.ahead, Candidate.leads, unkeyed, keyed] at behind
  · intro d listed leftOut c kept
    exact orderable.ahead_asymm (inside kept) listed (ranks.ahead_of_left_out listed leftOut kept)
  · intro others arranged texts
    refine (rank_eq_of_perm orderable (fun c member present => ⟨present, c, member, rfl⟩) ?_ arranged
      ranking).symm
    intro a first b second _ same
    rw [List.inj_on_of_nodup_map texts first second same]

/-- The two lowest of four, where two tie and one has no key: the tie goes by text, whatever the order
in which the candidates come. -/
theorem two_lowest_of_four :
    let candidates : List Candidate := [("d", 2), ("c", .null),
      ("b", .real (.nearest false 2 1)), ("a", 3)]
    let ranking : Ranking := ⟨.value, some .descending, some (-2)⟩
    Candidate.Orderable candidates ∧
      (∃ ranked, Candidate.Ranked false candidates ranked ∧
        rank candidates ranking = .ok ((ranked.take 2).map fun c => c.1.1)) ∧
      rank candidates.reverse ranking = rank candidates ranking ∧
      (rank candidates ranking).toOption.map (List.map Value.plain) = some ["b", "d"] := by
  intro candidates ranking
  have orderable : Candidate.Orderable candidates := Candidate.orderable_of_numbers (by decide)
  obtain ⟨ranked, ranks, _, kept, rfl, returned, _, _, _, same⟩ :=
    rank_returns_front orderable ranking
  refine ⟨orderable, ⟨ranked, ranks, returned⟩, ?_, by decide +kernel⟩
  exact same _ candidates.reverse_perm.symm (by decide +kernel)

end Crosstab
