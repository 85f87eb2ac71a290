import Crosstab.Proofs.Sorting
import Crosstab.Ranking

/-!
# Ranked members

Keys decide first, texts decide among equal keys, and candidates without a key come last. The keys
have to be comparable, as numbers and texts are.
-/
namespace Crosstab

open List Candidate Sorting

/-! ### Comparable keys -/

namespace Quantity

variable {p q : Quantity}

private theorem less_asymm (below : p.less q) : q.less p = false := by
  cases p <;> cases q
  case finite.finite a b =>
    exact decide_eq_false (Rat.not_lt.mpr (Rat.le_of_lt (of_decide_eq_true below)))
  all_goals simp_all [less]

private theorem not_less_trans {r : Quantity} (number : q ≠ .nan) (first : q.less p = false)
    (second : r.less q = false) : r.less p = false := by
  cases p <;> cases q <;> cases r
  case finite.finite.finite a b c =>
    have atMost := Rat.not_lt.mp (of_decide_eq_false first)
    have atLeast := Rat.not_lt.mp (of_decide_eq_false second)
    exact decide_eq_false (Rat.not_lt.mpr (Rat.le_trans atMost atLeast))
  all_goals simp_all [less]

end Quantity

namespace Value

/-- Any two of some values have an order, and it is transitive. -/
structure Comparable (among : Value → Prop) : Prop where
  total : ∀ a b, among a → among b → (a.less? b).isSome = true
  asymm : ∀ a b, among a → among b → a.less? b = some true → b.less? a = some false
  trans : ∀ a b c, among a → among b → among c →
    b.less? a = some false → c.less? b = some false → c.less? a = some false

variable {among : Value → Prop}

/-- Values that are seen as elements of an ordered type are comparable. -/
private theorem comparable_of_view {β : Type} (less : β → β → Bool) (valid : β → Prop)
    (view : Value → Option β) (seen : ∀ v, among v → ∃ x, view v = some x ∧ valid x)
    (compared : ∀ a b x y, view a = some x → view b = some y → a.less? b = some (less x y))
    (asymm : ∀ x y, less x y → less y x = false)
    (trans : ∀ x y z, valid y → less y x = false → less z y = false → less z x = false) :
    Comparable among := by
  refine ⟨?_, ?_, ?_⟩
  · intro a b first second
    obtain ⟨x, ofA, _⟩ := seen a first
    obtain ⟨y, ofB, _⟩ := seen b second
    rw [compared a b x y ofA ofB]
    rfl
  · intro a b first second below
    obtain ⟨x, ofA, _⟩ := seen a first
    obtain ⟨y, ofB, _⟩ := seen b second
    rw [compared a b x y ofA ofB] at below
    rw [compared b a y x ofB ofA, asymm x y (Option.some.inj below)]
  · intro a b c first second third notBelow notBelow'
    obtain ⟨x, ofA, _⟩ := seen a first
    obtain ⟨y, ofB, valid⟩ := seen b second
    obtain ⟨z, ofC, _⟩ := seen c third
    rw [compared b a y x ofB ofA] at notBelow
    rw [compared c b z y ofC ofB] at notBelow'
    rw [compared c a z x ofC ofA,
      trans x y z valid (Option.some.inj notBelow) (Option.some.inj notBelow')]

theorem comparable_of_numbers (numbers : ∀ v, among v → ∃ q, v.quantity? = some q ∧ q ≠ .nan) :
    Comparable among := by
  refine comparable_of_view Quantity.less (· ≠ .nan) quantity? numbers ?_
    (fun _ _ => Quantity.less_asymm) (fun _ _ _ => Quantity.not_less_trans)
  intro a b p q ofA ofB
  cases a <;> cases b <;> simp_all [less?, lessAtom?, quantity?]

private def asText? : Value → Option String
  | text s => some s
  | _ => none

theorem comparable_of_texts (texts : ∀ v, among v → ∃ s, v = .text s) : Comparable among := by
  refine comparable_of_view (fun s t => decide (s < t)) (fun _ => True) asText? ?_ ?_ ?_ ?_
  · intro v member
    obtain ⟨s, rfl⟩ := texts v member
    exact ⟨s, rfl, trivial⟩
  · intro a b s t ofA ofB
    cases a <;> cases b <;> simp_all [less?, lessAtom?, asText?]
  · intro s t below
    exact decide_eq_false (String.lt_asymm (of_decide_eq_true below))
  · intro s t u _ first second
    simp only [decide_eq_false_iff_not, String.not_lt] at *
    exact String.le_trans first second

end Value

/-! ### The order of members -/

namespace Ranking

/-- Members come from the top down if the direction says so, or if there is none and all members are
ranked by value; a negative limit turns this around. -/
def falls (ranking : Ranking) : Bool :=
  (match ranking.direction with
    | some direction => direction == .descending
    | none => ranking.basis == .value && ranking.limit.isNone) !=
  ranking.limit.any (· < 0)

theorem descends_eq_falls (ranking : Ranking) : ranking.descends = ranking.falls := by
  unfold descends falls byValue
  cases ranking.limit with
  | none => cases ranking.direction <;> simp
  | some limit =>
    by_cases negative : limit < 0 <;> cases ranking.direction <;> simp [negative]

/-- As many of the first members as the limit says, whatever its sign. -/
def cut {α : Type} (ranking : Ranking) (members : List α) : List α :=
  match ranking.limit with
  | some limit => members.take limit.natAbs
  | none => members

variable {α : Type} {ranking : Ranking}

theorem cut_sublist (ranking : Ranking) (members : List α) :
    (ranking.cut members).Sublist members := by
  unfold cut
  split
  · exact take_sublist _ _
  · exact .refl _

theorem cut_eq_self (unlimited : ranking.limit = none) (members : List α) :
    ranking.cut members = members := by
  rw [cut, unlimited]

theorem cut_ne_nil (limit : ranking.limit ≠ some 0) {members : List α} (some : members ≠ []) :
    ranking.cut members ≠ [] := by
  unfold cut
  split
  next bound stated =>
    have positive : bound.natAbs ≠ 0 := by
      rw [stated] at limit
      simpa using limit
    simp [take_eq_nil_iff, positive, some]
  · exact some

end Ranking

namespace Candidate

inductive Precedes (falls : Bool) (a b : Candidate) : Prop
  | byKey (first : a.2.isNull = false) (second : b.2.isNull = false)
      (order : if falls then b.below a = true else a.below b = true)
  | byText (first : a.2.isNull = false) (second : b.2.isNull = false)
      (alike : a.below b = false ∧ b.below a = false) (order : a.1.plain ≤ b.1.plain)
  | keyedFirst (first : a.2.isNull = false) (second : b.2.isNull = true)
  | unkeyed (first : a.2.isNull = true) (second : b.2.isNull = true)
      (order : a.1.plain ≤ b.1.plain)

variable {a b : Candidate} {among : Value → Prop}

theorem byText_iff : byText a b ↔ a.1.plain ≤ b.1.plain := by
  rw [byText, Bool.not_eq_true', decide_eq_false_iff_not, String.not_lt]

variable {candidates : List Candidate}

theorem comparable_eq_true (total : ∀ a ∈ candidates, ∀ b ∈ candidates,
    (a.2.less? b.2).isSome) : comparable candidates := by
  induction candidates with
  | nil => rfl
  | cons c rest ih =>
    simp only [comparable, Bool.and_eq_true, all_eq_true]
    refine ⟨fun d member => total c (by simp) d (by simp [member]), ih ?_⟩
    intro a first b second
    exact total a (by simp [first]) b (by simp [second])

theorem compares_below (orders : Value.Comparable among) (keys : ∀ c ∈ candidates, among c.2) :
    Sorting.Compares below candidates := by
  have notBelow {a b : Candidate} (first : a ∈ candidates) (second : b ∈ candidates) :
      below a b = false ↔ a.2.less? b.2 = some false := by
    obtain ⟨truth, compared⟩ := Option.isSome_iff_exists.mp
      (orders.total a.2 b.2 (keys a first) (keys b second))
    cases truth <;> simp [below, compared]
  refine ⟨?_, ?_⟩
  · intro a first b second less
    rw [notBelow second first]
    exact orders.asymm a.2 b.2 (keys a first) (keys b second) (by simpa [below] using less)
  · intro a first b second c third ab bc
    rw [notBelow second first] at ab
    rw [notBelow third second] at bc
    rw [notBelow third first]
    exact orders.trans a.2 b.2 c.2 (keys a first) (keys b second) (keys c third) ab bc

/-! ### Order with places -/

/-- The key puts one candidate ahead of another: candidates with a key come first, and among them
those with the lower key, or with the higher one. -/
def leads (falls : Bool) (a b : Candidate) : Bool :=
  !a.2.isNull && (b.2.isNull || if falls then b.below a else a.below b)

/-- The text puts one candidate ahead of another, and among equal texts the place in the list. -/
def earlier (a b : Candidate × Nat) : Bool :=
  decide (a.1.1.plain < b.1.1.plain) || a.1.1.plain == b.1.1.plain && decide (a.2 < b.2)

/-- One candidate ranks ahead of another: keys decide first, then texts, then places in the list. -/
def ahead (falls : Bool) (a b : Candidate × Nat) : Bool :=
  leads falls a.1 b.1 || !leads falls b.1 a.1 && earlier a b

variable {falls : Bool}

theorem ahead_iff {a b : Candidate × Nat} : ahead falls a b ↔
    leads falls a.1 b.1 ∨ leads falls b.1 a.1 = false ∧ earlier a b := by
  simp [ahead]

theorem earlier_iff {a b : Candidate × Nat} : earlier a b ↔
    a.1.1.plain < b.1.1.plain ∨ a.1.1.plain = b.1.1.plain ∧ a.2 < b.2 := by
  simp only [earlier, Bool.or_eq_true, Bool.and_eq_true, decide_eq_true_eq, beq_iff_eq]

theorem leads_of_keyed (first : a.2.isNull = false) (second : b.2.isNull = false) :
    leads falls a b = if falls then b.below a else a.below b := by
  simp [leads, first, second]

/-- Comparable keys put candidates in order, and all without a key are alike. -/
theorem compares_leads (orders : Value.Comparable among)
    (keys : ∀ c ∈ candidates, c.2.isNull = false → among c.2) (falls : Bool) :
    Sorting.Compares (leads falls) candidates := by
  have compares : Sorting.Compares below (candidates.filter fun c => !c.2.isNull) :=
    compares_below orders fun c member => by
      simp only [mem_filter, Bool.not_eq_true'] at member
      exact keys c member.1 member.2
  have keyed {c : Candidate} (member : c ∈ candidates) (present : c.2.isNull = false) :
      c ∈ candidates.filter fun c => !c.2.isNull := by
    simp [member, present]
  refine ⟨fun a first b second leading => ?_, fun a first b second c third behind behind' => ?_⟩
  · simp only [leads, Bool.and_eq_true, Bool.not_eq_true', Bool.or_eq_true] at leading
    obtain ⟨ofA, ofB | order⟩ := leading
    · simp [leads, ofB]
    cases ofB : b.2.isNull with
    | true => simp [leads, ofB]
    | false =>
      rw [leads_of_keyed ofB ofA]
      cases falls with
      | true => exact compares.asymm b (keyed second ofB) a (keyed first ofA) order
      | false => exact compares.asymm a (keyed first ofA) b (keyed second ofB) order
  · cases ofC : c.2.isNull with
    | true => simp [leads, ofC]
    | false =>
      -- What does not lead though it has a key is compared with a key.
      simp only [leads, ofC, Bool.not_false, Bool.true_and, Bool.or_eq_false_iff] at behind'
      obtain ⟨ofB, order'⟩ := behind'
      simp only [leads, ofB, Bool.not_false, Bool.true_and, Bool.or_eq_false_iff] at behind
      obtain ⟨ofA, order⟩ := behind
      rw [leads_of_keyed ofC ofA]
      cases falls with
      | true =>
        exact compares.trans c (keyed third ofC) b (keyed second ofB) a (keyed first ofA) order' order
      | false =>
        exact compares.trans a (keyed first ofA) b (keyed second ofB) c (keyed third ofC) order order'

private theorem pairwise_earlier_arrange (candidates : List Candidate) :
    (arrange (fun a b => byText a.1 b.1) candidates.zipIdx).Pairwise
      fun a b => earlier a b = true := by
  have trans (a b c : Candidate × Nat) (first : byText a.1 b.1)
      (second : byText b.1 c.1) : byText a.1 c.1 :=
    byText_iff.mpr (String.le_trans (byText_iff.mp first) (byText_iff.mp second))
  have total (a b : Candidate × Nat) : (byText a.1 b.1 || byText b.1 a.1) := by
    simpa [byText_iff] using String.le_total a.1.1.plain b.1.1.plain
  have places : candidates.zipIdx.Pairwise fun a b => a.2 < b.2 := by
    rw [← pairwise_map, zipIdx_map_snd]
    exact pairwise_lt_range'
  refine (pairwise_arrange_ties trans total places).imp ?_
  rintro a b ⟨first, tied⟩
  rw [byText_iff] at first tied
  rw [earlier_iff]
  by_cases less : a.1.1.plain < b.1.1.plain
  · exact .inl less
  · have back := String.not_lt.mp less
    exact .inr ⟨String.le_antisymm first back, tied back⟩

private theorem pairwise_sorted (falls : Bool) {keyed : List (Candidate × Nat)}
    (present : ∀ c ∈ keyed, c.1.2.isNull = false)
    (compares : Sorting.Compares (fun a b => below a.1 b.1) keyed)
    (ties : keyed.Pairwise fun a b => earlier a b = true) :
    (if falls then descending (fun a b => below a.1 b.1) keyed
      else ascending (fun a b => below a.1 b.1) keyed).Pairwise
        fun a b => ahead falls a b = true := by
  cases falls with
  | true =>
    refine (pairwise_descending compares ties).imp_of_mem fun {a b} first second inOrder => ?_
    have ofA := present a ((perm_descending _ _).mem_iff.mp first)
    have ofB := present b ((perm_descending _ _).mem_iff.mp second)
    rw [ahead_iff, leads_of_keyed ofA ofB, leads_of_keyed ofB ofA]
    exact inOrder
  | false =>
    refine (pairwise_ascending compares ties).imp_of_mem fun {a b} first second inOrder => ?_
    have ofA := present a ((perm_ascending _ _).mem_iff.mp first)
    have ofB := present b ((perm_ascending _ _).mem_iff.mp second)
    rw [ahead_iff, leads_of_keyed ofA ofB, leads_of_keyed ofB ofA]
    exact inOrder

end Candidate

/-! ### Ranking -/

section

variable (candidates : List Candidate) (falls : Bool)

/-- The candidates with their places in the list, ranked as they are without them. -/
def rankPlaces : List (Candidate × Nat) :=
  let below (a b : Candidate × Nat) : Bool := below a.1 b.1
  let ordered := arrange (fun a b => byText a.1 b.1) candidates.zipIdx
  let present := ordered.filter fun c => !c.1.2.isNull
  (if falls then descending below present else ascending below present) ++
    ordered.filter fun c => c.1.2.isNull

theorem map_fst_rankPlaces :
    (rankPlaces candidates falls).map Prod.fst = rankAll candidates falls := by
  have texts : arrange byText candidates =
      (arrange (fun a b => byText a.1 b.1) candidates.zipIdx).map Prod.fst := by
    rw [← arrange_map, zipIdx_map_fst]
  simp only [rankPlaces, rankAll, texts, filter_map, descending_map, ascending_map, map_append]
  split <;> rfl

theorem perm_rankPlaces : (rankPlaces candidates falls).Perm candidates.zipIdx := by
  simp only [rankPlaces]
  generalize arranged : arrange (fun a b => byText a.1 b.1) candidates.zipIdx = list
  have listed : list.Perm candidates.zipIdx := arranged ▸ perm_arrange _ _
  have parts := filter_append_perm (fun c : Candidate × Nat => !c.1.2.isNull) list
  simp only [Bool.not_not] at parts
  refine List.Perm.trans (List.Perm.append_right _ ?_) (parts.trans listed)
  split
  · exact perm_descending _ _
  · exact perm_ascending _ _

end

variable {candidates : List Candidate} {among : Value → Prop} {falls : Bool}

theorem pairwise_rankPlaces (orders : Value.Comparable among)
    (keys : ∀ c ∈ candidates, c.2.isNull = false → among c.2) (falls : Bool) :
    (rankPlaces candidates falls).Pairwise fun a b => ahead falls a b = true := by
  have ordered := pairwise_earlier_arrange candidates
  have listed : ∀ c ∈ arrange (fun a b => byText a.1 b.1) candidates.zipIdx,
      c.1 ∈ candidates := fun c member =>
    fst_mem_of_mem_zipIdx ((mem_arrange _).mp member)
  simp only [rankPlaces]
  generalize arrange (fun a b => byText a.1 b.1) candidates.zipIdx = list at *
  have present : ∀ c ∈ list.filter (fun c => !c.1.2.isNull), c ∈ list ∧ c.1.2.isNull = false := by
    simp
  have absent : ∀ c ∈ list.filter (fun c => c.1.2.isNull), c.1.2.isNull = true := by
    intro c member
    exact (mem_filter.mp member).2
  have compares : Sorting.Compares below
      ((list.filter fun c => !c.1.2.isNull).map Prod.fst) := by
    refine compares_below orders fun c member => ?_
    obtain ⟨entry, there, rfl⟩ := mem_map.mp member
    exact keys entry.1 (listed entry (present entry there).1) (present entry there).2
  have sorted := pairwise_sorted falls (fun c member => (present c member).2) compares.of_map
    (ordered.filter fun c => !c.1.2.isNull)
  rw [pairwise_append]
  refine ⟨sorted, ?_, ?_⟩
  -- Those without a key stand in the order of their texts, behind all that have one.
  · refine (ordered.filter fun c => c.1.2.isNull).imp_of_mem fun {a b} first second order => ?_
    simp [ahead, leads, absent a first, absent b second, order]
  · intro a first b second
    have ofA : a.1.2.isNull = false := by
      refine (present a ?_).2
      split at first
      · exact (perm_descending _ _).mem_iff.mp first
      · exact (perm_ascending _ _).mem_iff.mp first
    simp [ahead, leads, ofA, absent b second]

private theorem Candidate.precedes_of_ahead {a b : Candidate × Nat}
    (order : ahead falls a b) : Candidate.Precedes falls a.1 b.1 := by
  by_cases leading : leads falls a.1 b.1
  · simp only [leads, Bool.and_eq_true, Bool.not_eq_true', Bool.or_eq_true] at leading
    obtain ⟨ofA, ofB | key⟩ := leading
    · exact .keyedFirst ofA ofB
    cases ofB : b.1.2.isNull with
    | true => exact .keyedFirst ofA ofB
    | false => exact .byKey ofA ofB (by cases falls <;> exact key)
  · obtain leads | ⟨behind, text⟩ := ahead_iff.mp order
    · exact absurd leads leading
    have text : a.1.1.plain ≤ b.1.1.plain := by
      rcases earlier_iff.mp text with less | ⟨equal, _⟩
      · exact String.not_lt.mp (String.lt_asymm less)
      · exact equal ▸ String.le_refl _
    -- Neither leads, so both have a key or none has.
    cases ofA : a.1.2.isNull with
    | true =>
      cases ofB : b.1.2.isNull with
      | true => exact .unkeyed ofA ofB text
      | false => simp [leads, ofA, ofB] at behind
    | false =>
      cases ofB : b.1.2.isNull with
      | true => simp [leads, ofA, ofB] at leading
      | false =>
        rw [leads_of_keyed ofA ofB] at leading
        rw [leads_of_keyed ofB ofA] at behind
        cases falls with
        | true => exact .byText ofA ofB ⟨behind, by simpa using leading⟩ text
        | false => exact .byText ofA ofB ⟨by simpa using leading, behind⟩ text

theorem perm_rankAll (candidates : List Candidate) (descends : Bool) :
    (rankAll candidates descends).Perm candidates := by
  have listed := (perm_rankPlaces candidates descends).map Prod.fst
  rwa [map_fst_rankPlaces, zipIdx_map_fst] at listed

private theorem pairwise_rankAll (orders : Value.Comparable among)
    (keys : ∀ c ∈ candidates, c.2.isNull = false → among c.2) (falls : Bool) :
    (rankAll candidates falls).Pairwise (Candidate.Precedes falls) := by
  rw [← map_fst_rankPlaces, pairwise_map]
  exact (pairwise_rankPlaces orders keys falls).imp precedes_of_ahead

/-- What ranking returns is some arrangement of the candidates, cut to the limit. -/
theorem perm_of_rank {ranking : Ranking} {members : List Value}
    (returned : rank candidates ranking = .ok members) :
    ∃ ranked : List Candidate, ranked.Perm candidates ∧
      members = ranking.cut (ranked.map Prod.fst) := by
  unfold rank at returned
  split at returned
  · cases returned
    exact ⟨_, perm_rankAll candidates ranking.descends, rfl⟩
  · cases returned

theorem rank_eq_ok (orders : Value.Comparable among)
    (keys : ∀ c ∈ candidates, c.2.isNull = false → among c.2) (ranking : Ranking) :
    ∃ ranked : List Candidate, rank candidates ranking = .ok (ranking.cut (ranked.map Prod.fst)) ∧
      ranked.Perm candidates ∧ ranked.Pairwise (Candidate.Precedes ranking.falls) := by
  refine ⟨rankAll candidates ranking.descends, ?_, perm_rankAll _ _, ?_⟩
  · unfold rank
    rw [if_pos]
    · rfl
    · apply comparable_eq_true
      intro a first b second
      simp only [mem_filter, Bool.not_eq_true'] at first second
      exact orders.total _ _ (keys a first.1 first.2) (keys b second.1 second.2)
  · rw [Ranking.descends_eq_falls]
    exact pairwise_rankAll orders keys ranking.falls

/-! ### Ranking by text -/

/-- One member is listed before another by their texts, null last. -/
def Value.ListedBefore (falls : Bool) (a b : Value) : Prop :=
  b.isNull = true ∨ a.isNull = false ∧ if falls then b.plain ≤ a.plain else a.plain ≤ b.plain

/-- A member with its text for a key; null has none. -/
def Candidate.ofMember (member : Value) : Candidate :=
  (member, if member.isNull then .null else .text member.plain)

theorem Candidate.isNull_ofMember (member : Value) : (ofMember member).2.isNull = member.isNull := by
  cases member <;> rfl

private theorem Candidate.listedBefore_of_precedes {a b : Value}
    (precedes : Candidate.Precedes falls (ofMember a) (ofMember b)) : a.ListedBefore falls b := by
  have compared {v w : Value} (first : (ofMember v).2.isNull = false)
      (second : (ofMember w).2.isNull = false) :
      (ofMember v).below (ofMember w) = decide (v.plain < w.plain) := by
    rw [isNull_ofMember] at first second
    simp [ofMember, below, first, second, Value.less?, Value.lessAtom?]
  cases precedes with
  | byKey first second order =>
    refine .inr ⟨isNull_ofMember a ▸ first, ?_⟩
    rw [compared first second, compared second first] at order
    cases falls with
    | true => exact String.not_lt.mp (String.lt_asymm (of_decide_eq_true order))
    | false => exact String.not_lt.mp (String.lt_asymm (of_decide_eq_true order))
  | byText first second alike order =>
    refine .inr ⟨isNull_ofMember a ▸ first, ?_⟩
    rw [compared first second] at alike
    cases falls with
    | true => exact String.not_lt.mp (of_decide_eq_false alike.1)
    | false => exact order
  | keyedFirst first second => exact .inl (isNull_ofMember b ▸ second)
  | unkeyed first second order => exact .inl (isNull_ofMember b ▸ second)

/-- Members are always ranked by their texts. -/
theorem rank_members (members : List Value) (ranking : Ranking) :
    ∃ all : List Value, rank (members.map ofMember) ranking = .ok (ranking.cut all) ∧
      all.Perm members ∧ all.Pairwise (Value.ListedBefore ranking.falls) := by
  have texts : Value.Comparable fun v => ∃ s, v = .text s := Value.comparable_of_texts fun _ => id
  have keys : ∀ c ∈ members.map ofMember, c.2.isNull = false → ∃ s, c.2 = .text s := by
    intro c listed present
    obtain ⟨member, _, rfl⟩ := mem_map.mp listed
    rw [isNull_ofMember] at present
    exact ⟨member.plain, by simp [ofMember, present]⟩
  obtain ⟨ranked, returned, arranged, ordered⟩ := rank_eq_ok texts keys ranking
  refine ⟨ranked.map Prod.fst, returned, ?_, ?_⟩
  · have same : (members.map ofMember).map Prod.fst = members := by
      rw [map_map]
      exact map_id members
    exact same ▸ arranged.map Prod.fst
  · rw [pairwise_map]
    refine ordered.imp_of_mem ?_
    intro a b first second precedes
    obtain ⟨v, _, rfl⟩ := mem_map.mp (arranged.mem_iff.mp first)
    obtain ⟨w, _, rfl⟩ := mem_map.mp (arranged.mem_iff.mp second)
    exact listedBefore_of_precedes precedes

end Crosstab
