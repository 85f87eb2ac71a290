import Crosstab.Proofs.Grid.Members
import Crosstab.Proofs.Grid.NodeRows

/-!
# Members in any order

If keys are comparable and members with one text are one member, any two arrangements of the
candidates are ranked alike.
-/
namespace Crosstab

open List Value Candidate

/-! ### Ranking -/

namespace Candidate

/-- One candidate does not rank after another by its key. -/
def NotAfter (falls : Bool) (a b : Candidate) : Prop :=
  if falls then a.below b = false else b.below a = false

variable {falls : Bool} {candidates : List Candidate} {a b c : Candidate}

theorem precedes_iff (compares : Sorting.Compares below candidates) (first : a ∈ candidates)
    (second : b ∈ candidates) (ofA : a.2.isNull = false) (ofB : b.2.isNull = false) :
    Precedes falls a b ↔ NotAfter falls a b ∧ (NotAfter falls b a → a.1.plain ≤ b.1.plain) := by
  constructor
  · intro precedes
    cases precedes with
    | byKey _ _ order =>
      cases falls with
      | true =>
        have above : b.below a := order
        exact ⟨compares.asymm b second a first above, fun notAfter => by
          simp [NotAfter, above] at notAfter⟩
      | false =>
        have below : a.below b := order
        exact ⟨compares.asymm a first b second below, fun notAfter => by
          simp [NotAfter, below] at notAfter⟩
    | byText _ _ alike order =>
      refine ⟨?_, fun _ => order⟩
      cases falls with
      | true => exact alike.1
      | false => exact alike.2
    | keyedFirst _ none => simp [ofB] at none
    | unkeyed none => simp [ofA] at none
  · rintro ⟨notAfter, text⟩
    by_cases alike : NotAfter falls b a
    · refine .byText ofA ofB ?_ (text alike)
      cases falls with
      | true => exact ⟨notAfter, alike⟩
      | false => exact ⟨alike, notAfter⟩
    · refine .byKey ofA ofB ?_
      cases falls with
      | true => simpa [NotAfter] using alike
      | false => simpa [NotAfter] using alike

private theorem NotAfter.trans (compares : Sorting.Compares below candidates) (first : a ∈ candidates)
    (second : b ∈ candidates) (third : c ∈ candidates) (ab : NotAfter falls a b)
    (bc : NotAfter falls b c) : NotAfter falls a c := by
  cases falls with
  | true => exact compares.trans c third b second a first bc ab
  | false => exact compares.trans a first b second c third ab bc

variable (compares : Sorting.Compares below (candidates.filter fun c => !c.2.isNull))
include compares

/-- Ranking before one another is transitive where keys are comparable. -/
theorem Precedes.trans (first : a ∈ candidates) (second : b ∈ candidates) (third : c ∈ candidates)
    (ab : Precedes falls a b) (bc : Precedes falls b c) : Precedes falls a c := by
  have keyed {d : Candidate} (member : d ∈ candidates) (present : d.2.isNull = false) :
      d ∈ candidates.filter fun c => !c.2.isNull := by simp [member, present]
  by_cases ofC : c.2.isNull
  · -- Whatever comes before a candidate without a key has one, or comes before it by text.
    by_cases ofA : a.2.isNull
    · cases ab with
      | unkeyed _ ofB order =>
        cases bc with
        | unkeyed _ _ order' => exact .unkeyed ofA ofC (String.le_trans order order')
        | _ => simp_all
      | _ => simp_all
    · exact .keyedFirst (by simpa using ofA) ofC
  · have ofC : c.2.isNull = false := by simpa using ofC
    have ofB : b.2.isNull = false := by cases bc <;> simp_all
    have ofA : a.2.isNull = false := by cases ab <;> simp_all
    have inA := keyed first ofA
    have inB := keyed second ofB
    have inC := keyed third ofC
    rw [precedes_iff compares inA inB ofA ofB] at ab
    rw [precedes_iff compares inB inC ofB ofC] at bc
    rw [precedes_iff compares inA inC ofA ofC]
    refine ⟨ab.1.trans compares inA inB inC bc.1, fun ca => ?_⟩
    -- If the outer two have one key, so has the one between them, and texts decide throughout.
    have ba := bc.1.trans compares inB inC inA ca
    have cb := ca.trans compares inC inA inB ab.1
    exact String.le_trans (ab.2 ba) (bc.2 cb)

omit compares in
private theorem Precedes.refl (self : a.2.isNull = false → a.below a = false) : Precedes falls a a := by
  by_cases none : a.2.isNull
  · exact .unkeyed none none (String.le_refl _)
  · have present : a.2.isNull = false := by simpa using none
    exact .byText present present ⟨self present, self present⟩ (String.le_refl _)

private theorem plain_eq_of_precedes
    (first : a ∈ candidates) (second : b ∈ candidates) (ab : Precedes falls a b)
    (ba : Precedes falls b a) : a.1.plain = b.1.plain := by
  by_cases none : a.2.isNull
  · cases ba with
    | unkeyed ofB ofA order =>
      cases ab with
      | unkeyed _ _ order' => exact String.le_antisymm order' order
      | _ => simp_all
    | keyedFirst ofB _ => cases ab <;> simp_all
    | _ => simp_all
  · have ofA : a.2.isNull = false := by simpa using none
    have ofB : b.2.isNull = false := by cases ba <;> simp_all
    have inA : a ∈ candidates.filter fun c => !c.2.isNull := by simp [first, ofA]
    have inB : b ∈ candidates.filter fun c => !c.2.isNull := by simp [second, ofB]
    rw [precedes_iff compares inA inB ofA ofB] at ab
    rw [precedes_iff compares inB inA ofB ofA] at ba
    exact String.le_antisymm (ab.2 ba.1) (ba.2 ab.1)

omit compares in
private theorem isNull_eq_of_precedes (ab : Precedes falls a b) (ba : Precedes falls b a) :
    a.2.isNull = b.2.isNull := by
  cases ab <;> cases ba <;> simp_all

private theorem below_self
    (member : c ∈ candidates) (present : c.2.isNull = false) : c.below c = false := by
  have keyed : c ∈ candidates.filter fun c => !c.2.isNull := by simp [member, present]
  by_contra less
  exact less (compares.asymm c keyed c keyed (by simpa using less))

/-- The order of ranks among some candidates. -/
def PrecedesAmong (candidates : List Candidate) (falls : Bool) (a b : Candidate) : Prop :=
  a ∈ candidates ∧ b ∈ candidates ∧ Precedes falls a b

/-- Two rankings of the same candidates differ at most in candidates that could change places. -/
theorem forall₂_of_ranked {ranked ranked' : List Candidate}
    (listed : ranked.Perm candidates) (listed' : ranked'.Perm candidates)
    (sorted : ranked.Pairwise (Precedes falls)) (sorted' : ranked'.Pairwise (Precedes falls)) :
    Forall₂ (fun a b => PrecedesAmong candidates falls a b ∧ PrecedesAmong candidates falls b a)
      ranked ranked' := by
  apply Sorting.forall₂_of_perm_of_pairwise
  · rintro a b c ⟨first, second, ab⟩ ⟨_, third, bc⟩
    exact ⟨first, third, ab.trans compares first second third bc⟩
  · intro c member
    have inside := listed.subset member
    exact ⟨inside, inside, .refl (below_self compares inside)⟩
  · exact listed.trans listed'.symm
  · exact sorted.imp_of_mem fun first second precedes =>
      ⟨listed.subset first, listed.subset second, precedes⟩
  · exact sorted'.imp_of_mem fun first second precedes =>
      ⟨listed'.subset first, listed'.subset second, precedes⟩

end Candidate

theorem rank_eq_of_perm {candidates others : List Candidate} {among : Value → Prop}
    (orders : Value.Comparable among) (keys : ∀ c ∈ candidates, c.2.isNull = false → among c.2)
    (told : ∀ a ∈ candidates, ∀ b ∈ candidates, a.2.isNull = b.2.isNull →
      a.1.plain = b.1.plain → a.1 = b.1) (arranged : candidates.Perm others) (ranking : Ranking) :
    rank candidates ranking = rank others ranking := by
  obtain ⟨ranked, returned, listed, sorted⟩ := rank_eq_ok orders keys ranking
  obtain ⟨ranked', returned', listed', sorted'⟩ := rank_eq_ok orders
    (fun c member => keys c (arranged.symm.subset member)) ranking
  have compares : Sorting.Compares below (candidates.filter fun c => !c.2.isNull) := by
    refine compares_below orders fun c member => ?_
    simp only [mem_filter, Bool.not_eq_true'] at member
    exact keys c member.1 member.2
  -- Candidates that could change places have one text, so they are one member.
  have members : ranked.map Prod.fst = ranked'.map Prod.fst := by
    rw [← forall₂_eq_eq_eq, forall₂_map_left_iff, forall₂_map_right_iff]
    refine (forall₂_of_ranked compares listed (listed'.trans arranged.symm) sorted
      sorted').imp ?_
    rintro a b ⟨⟨first, second, ab⟩, _, _, ba⟩
    exact told a first b second (isNull_eq_of_precedes ab ba)
      (plain_eq_of_precedes compares first second ab ba)
  rw [returned, returned', members]

/-! ### Distinct values -/

namespace Value

variable {kept values others : List Value} {blocks : List (List Value)} {first : Value}

/-- If the first value is equal to all that those equal to it are, it only drops its equals. -/
theorem distinct_cons (trans : ∀ w ∈ values, ∀ v ∈ values,
      first.sameKey w → w.sameKey v → first.sameKey v) :
    distinct (first :: values) = first :: (distinct values).filter fun v => !first.sameKey v := by
  induction values using reverseRecOn with
  | nil => rfl
  | append_singleton values last ih =>
    rw [← cons_append, distinct_concat, distinct_concat,
      ih fun w before v there => trans w (by simp [before]) v (by simp [there]), any_cons]
    by_cases known : first.sameKey last
    · rw [known, Bool.true_or, if_pos rfl]
      split <;> simp [known]
    · -- What the last value repeats is no repetition of the first.
      have repeated : ((distinct values).filter fun v => !first.sameKey v).any (sameKey · last) =
          (distinct values).any (sameKey · last) := by
        rw [any_filter, Bool.eq_iff_iff, any_eq_true, any_eq_true]
        refine exists_congr fun w => and_congr_right fun there => ?_
        have other := mt (trans w (by simp [mem_of_mem_distinct there]) last (by simp))
        by_cases same : w.sameKey last <;> simp_all
      rw [repeated, Bool.eq_false_iff.mpr known, Bool.false_or]
      split <;> simp [known]

/-- Equal keys are identical. -/
def IdenticalKeys (values : List Value) : Prop :=
  ∀ a ∈ values, ∀ b ∈ values, a.sameKey b → a = b

namespace IdenticalKeys

private theorem mono (identical : IdenticalKeys values) (inside : others ⊆ values) :
    IdenticalKeys others :=
  fun a first b second => identical a (inside first) b (inside second)

private theorem distinct_cons (identical : IdenticalKeys (first :: values)) :
    distinct (first :: values) = first :: (distinct values).filter fun v => !first.sameKey v := by
  refine Value.distinct_cons fun w there v _ same further => ?_
  rwa [identical first mem_cons_self w (mem_cons_of_mem _ there) same]

theorem distinct_perm (identical : IdenticalKeys values) (arranged : values.Perm others) :
    (distinct values).Perm (distinct others) := by
  induction arranged with
  | nil => exact .refl _
  | cons first arranged ih =>
    rw [identical.distinct_cons, (identical.mono (arranged.cons first).symm.subset).distinct_cons]
    exact ((ih (identical.mono (subset_cons_self ..))).filter _).cons first
  | swap a b rest =>
    by_cases equal : a = b
    · rw [equal]
    · have swapped := identical.mono (Perm.swap b a rest).subset
      have ab : ¬a.sameKey b := mt (identical a (by simp) b (by simp)) equal
      have ba : ¬b.sameKey a := mt (identical b (by simp) a (by simp)) (Ne.symm equal)
      rw [identical.distinct_cons, (identical.mono (subset_cons_self ..)).distinct_cons,
        swapped.distinct_cons, (swapped.mono (subset_cons_self ..)).distinct_cons,
        filter_cons_of_pos (by simpa using ba), filter_cons_of_pos (by simpa using ab), filter_comm]
      exact .swap ..
  | trans first _ before behind =>
    exact (before identical).trans (behind (identical.mono first.symm.subset))

end IdenticalKeys

theorem any_sameKey_iff (usable : ∀ v ∈ values, v.hashable) (v : Value) :
    values.any (sameKey · v) = true ↔ v.key? ∈ values.map key? := by
  rw [any_eq_true, mem_map]
  refine exists_congr fun other => and_congr_right fun member => ?_
  exact sameKey_iff (usable other member)

theorem mem_keys_distinct (usable : ∀ v ∈ values, v.hashable) {key : Option Key} :
    key ∈ (distinct values).map key? ↔ key ∈ values.map key? := by
  rw [mem_map, mem_map]
  constructor
  · rintro ⟨v, member, same⟩
    exact ⟨v, mem_of_mem_distinct member, same⟩
  · rintro ⟨v, member, same⟩
    obtain ⟨kept, there, alike⟩ := exists_mem_distinct member (usable v member)
    exact ⟨kept, there, ((sameKey_iff (hashable_of_sameKey alike (usable v member))).mp alike).trans
      same⟩

theorem distinct_append {front back : List Value} (usable : ∀ v ∈ front ++ back, v.hashable) :
    distinct (front ++ back) =
      distinct front ++ (distinct back).filter fun v => !front.any (sameKey · v) := by
  induction front with
  | nil => simp [distinct]
  | cons first front ih =>
    rw [cons_append, forall_mem_cons] at usable
    have opened {rest : List Value} (inside : rest ⊆ front ++ back) : distinct (first :: rest) =
        first :: (distinct rest).filter fun v => !first.sameKey v := by
      refine distinct_cons fun w there v _ same further => ?_
      rw [sameKey_iff usable.1] at same ⊢
      exact same.trans ((sameKey_iff (usable.2 w (inside there))).mp further)
    rw [cons_append, opened (Subset.refl _), opened (subset_append_left _ _), ih usable.2,
      filter_append, cons_append, filter_filter]
    simp [Bool.not_or]

theorem distinct_eq_self (usable : ∀ v ∈ values, v.hashable)
    (unique : (values.map key?).Nodup) : distinct values = values := by
  induction values using reverseRecOn with
  | nil => rfl
  | append_singleton values last ih =>
    have before : ∀ v ∈ values, v.hashable := fun v member =>
      usable v (mem_append_left _ member)
    rw [map_append, map_singleton, ← concat_eq_append, nodup_concat] at unique
    rw [distinct_concat, ih before unique.2, if_neg]
    rw [any_sameKey_iff before]
    exact unique.1

theorem distinct_flatten (some : blocks ≠ []) (usable : ∀ v ∈ blocks.flatten, v.hashable)
    (each : ∀ block ∈ blocks, distinct block = kept) : distinct blocks.flatten = kept := by
  induction blocks with
  | nil => exact absurd rfl some
  | cons block blocks ih =>
    rw [flatten_cons] at usable ⊢
    by_cases last : blocks = []
    · rw [last, flatten_nil, append_nil]
      exact each block mem_cons_self
    · have rest := ih last (fun v member => usable v (mem_append_right _ member))
        fun other member => each other (mem_cons_of_mem _ member)
      have first := each block mem_cons_self
      rw [distinct_append usable, rest, first, append_right_eq_self, filter_eq_nil_iff]
      -- What the later blocks leave is in the first one already.
      intro v member
      rw [← first] at member
      have inside := mem_of_mem_distinct member
      have hashable := usable v (mem_append_left _ inside)
      have known : block.any (sameKey · v) = true :=
        any_eq_true.mpr ⟨v, inside, (sameKey_iff hashable).mpr rfl⟩
      simp [known]

theorem distinct_flatten_perm {others : List (List Value)} (arranged : Forall₂ Perm blocks others)
    (usable : ∀ v ∈ blocks.flatten, v.hashable) (identical : ∀ block ∈ blocks, IdenticalKeys block) :
    (distinct blocks.flatten).Perm (distinct others.flatten) := by
  induction arranged with
  | nil => exact .refl _
  | @cons block other blocks others head tail ih =>
    have whole : (block ++ blocks.flatten).Perm (other ++ others.flatten) :=
      head.append (Perm.flatten_congr tail)
    rw [flatten_cons, flatten_cons, distinct_append usable,
      distinct_append fun v member => usable v (whole.symm.subset member)]
    refine ((identical block mem_cons_self).distinct_perm head).append ?_
    have rest := ih (fun v member => usable v (mem_append_right _ member))
      fun block member => identical block (mem_cons_of_mem _ member)
    have same : (fun v => !block.any (sameKey · v)) = fun v => !other.any (sameKey · v) := by
      funext v
      rw [head.any_eq]
    rw [same]
    exact rest.filter _

end Value

/-! ### Rearranged rows -/

/-- The same results, each with its rows in another order. -/
def Results.Rearranges (results others : Results) : Prop :=
  List.Forall₂ (fun a b => a.1 = b.1 ∧ a.2.Perm b.2) results others

theorem Results.Rearranges.lookup {results others : Results}
    (rearranged : results.Rearranges others) (key : String) :
    Option.Rel Perm (results.lookup key) (others.lookup key) := by
  induction rearranged with
  | nil => exact .none
  | @cons entry other results others head _ ih =>
    rw [lookup_cons, lookup_cons, ← head.1]
    split
    · exact .some head.2
    · exact ih

/-- Values that are the same key are identical, in each of some columns. -/
def IdenticalIn (fields : List String) (rows : List Row) : Prop :=
  ∀ a ∈ rows, ∀ b ∈ rows, ∀ field ∈ fields,
    (a.get field).sameKey (b.get field) = true → a.get field = b.get field

private theorem IdenticalIn.project_eq {fields : List String} {rows : List Row}
    (identical : IdenticalIn fields rows) {a b : Row} (first : a ∈ rows) (second : b ∈ rows)
    {names : List String} (inside : names ⊆ fields) (usable : (a.project names).all hashable)
    (same : (a.project names).map key? = (b.project names).map key?) :
    a.project names = b.project names := by
  rw [Row.project, all_map, all_eq_true] at usable
  simp only [Row.project, map_map, map_inj_left, Function.comp_apply] at same ⊢
  intro name listed
  exact identical a first b second name (inside listed)
    ((sameKey_iff (usable name listed)).mpr (same name listed))

/-! ### Selections -/

namespace Selection

/-- Selections that differ only in the order of parents; each parent and each member is told by its
key. -/
structure Alike (a b : Selection) : Prop where
  node : a.node = b.node
  field : a.field = b.field
  entries : a.byParent.Perm b.byParent
  usable : ∀ entry ∈ a.byParent, entry.1.all hashable = true
  unique : (a.byParent.map fun entry => entry.1.map key?).Nodup
  identical : IdenticalKeys (a.byParent.flatMap Prod.snd)

namespace Alike

variable {a b : Selection}

theorem members_eq (alike : a.Alike b) (parent : List Value) :
    a.members parent = b.members parent := by
  unfold members
  split
  · refine congrArg (fun found => Except.ok ((Option.map Prod.snd found).getD [])) ?_
    refine find?_eq_of_perm alike.entries fun x first y second same same' => ?_
    rw [sameKeys_iff (alike.usable x first)] at same
    rw [sameKeys_iff (alike.usable y second)] at same'
    exact inj_on_of_nodup_map alike.unique first second (same.trans same'.symm)
  · rfl

theorem key_eq (alike : a.Alike b) :
    (Filter.member a.field a.allMembers).key = (Filter.member b.field b.allMembers).key := by
  show Filter.memberKey a.field a.allMembers = Filter.memberKey b.field b.allMembers
  unfold Filter.memberKey
  have arranged : a.allMembers.Perm b.allMembers :=
    alike.identical.distinct_perm (alike.entries.flatMap_right _)
  rw [alike.field, arrange_texts_eq_of_perm (arranged.map literal)]

end Alike

variable {visit : Visit Node} {field : String} {ref : MeasureRef} {rows others : List Row}

/-- Ranking values that are comparable, and members under one parent that have texts of their own. -/
structure Clear (visit : Visit Node) (field : String) (ref : MeasureRef) (rows : List Row) :
    Prop where
  identical : IdenticalIn (visit.scope ++ [field]) rows
  comparable : Value.Comparable fun value =>
    value.isNull = false ∧ ∃ row ∈ rows, row.get ref.column = value
  told : ∀ a ∈ rows, ∀ b ∈ rows, (a.project visit.scope).map key? =
      (b.project visit.scope).map key? →
    (a.get field).plain = (b.get field).plain → a.get field = b.get field

theorem keys_candidates (parent : List Value) : ∀ c ∈ candidates visit field ref rows parent,
    c.2.isNull = false → c.2.isNull = false ∧ ∃ row ∈ rows, row.get ref.column = c.2 := by
  intro c listed present
  obtain ⟨row, under, rfl⟩ := mem_map.mp listed
  exact ⟨present, row, (mem_filter.mp under).1, rfl⟩

namespace Clear

variable (clear : Clear visit field ref rows) (arranged : rows.Perm others)
include clear arranged

theorem of_perm : Clear visit field ref others where
  identical a first b second :=
    clear.identical a (arranged.symm.subset first) b (arranged.symm.subset second)
  comparable := by
    have same : (fun value : Value => value.isNull = false ∧ ∃ row ∈ others,
        row.get ref.column = value) = fun value => value.isNull = false ∧ ∃ row ∈ rows,
          row.get ref.column = value := by
      simp only [arranged.mem_iff]
    rw [same]
    exact clear.comparable
  told a first b second := clear.told a (arranged.symm.subset first) b (arranged.symm.subset second)

/-- The members under a parent are the same, whatever the order of the rows. -/
theorem rank_eq (parent : List Value) (ranking : Ranking) :
    rank (candidates visit field ref rows parent) ranking =
      rank (candidates visit field ref others parent) ranking := by
  refine rank_eq_of_perm clear.comparable (keys_candidates parent) ?_ ((arranged.filter _).map _) ranking
  intro a first b second _ text
  obtain ⟨row, under, rfl⟩ := mem_map.mp first
  obtain ⟨row', under', rfl⟩ := mem_map.mp second
  obtain ⟨member, same⟩ := mem_filter.mp under
  obtain ⟨member', same'⟩ := mem_filter.mp under'
  exact clear.told row member row' member'
    ((of_decide_eq_true same).trans (of_decide_eq_true same').symm) text

omit arranged in
private theorem exists_selection
    (usable : ∀ row ∈ rows, (row.project visit.scope).all hashable) :
    ∃ selection, ofRows visit field ref rows = .ok selection := by
  refine exists_ofRows usable fun row _ => ?_
  obtain ⟨ranked, returned, _, _⟩ := rank_eq_ok clear.comparable
    (keys_candidates (row.project visit.scope)) visit.node.order.ranking
  exact ⟨_, returned⟩

variable {selection selection' : Selection}

/-- Every entry made from the rows is made from the rearranged rows too. -/
theorem entry_mem (ranks : Ranks visit field ref rows selection)
    (ranks' : Ranks visit field ref others selection') {entry : List Value × List Value}
    (member : entry ∈ selection.byParent) : entry ∈ selection'.byParent := by
  obtain ⟨row, there, parent⟩ := ranks.drawn entry member
  obtain ⟨entry', member', same⟩ := ranks'.covers row (arranged.subset there)
  obtain ⟨row', there', parent'⟩ := ranks'.drawn entry' member'
  -- Equal parents are identical, so both entries list the members under one parent.
  have equal : entry'.1 = entry.1 := by
    rw [← parent'] at same
    rw [← parent, ← parent']
    exact clear.identical.project_eq (arranged.symm.subset there') there
      (subset_append_left _ _) (ranks'.usable row' there') same
  have members := ranks.members entry member
  have members' := ranks'.members entry' member'
  rw [equal, ← clear.rank_eq arranged, members] at members'
  have listed : entry.2 = entry'.2 := Except.ok.inj members'
  rwa [Prod.ext equal listed.symm] at member'

private theorem alike (made : ofRows visit field ref rows = .ok selection)
    (made' : ofRows visit field ref others = .ok selection') : selection.Alike selection' := by
  have ranks := ranks_of_ofRows made
  have ranks' := ranks_of_ofRows made'
  have drawn : ∀ v ∈ selection.byParent.flatMap Prod.snd, ∃ row ∈ rows, row.get field = v := by
    intro v listed
    obtain ⟨entry, member, within⟩ := mem_flatMap.mp listed
    obtain ⟨ranked, perm, cut⟩ := perm_of_rank (ranks.members entry member)
    rw [cut] at within
    obtain ⟨c, inside, rfl⟩ := mem_map.mp ((Ranking.cut_sublist _ _).subset within)
    obtain ⟨row, under, rfl⟩ := mem_map.mp (perm.subset inside)
    exact ⟨row, (mem_filter.mp under).1, rfl⟩
  refine ⟨ranks.node.trans ranks'.node.symm, ranks.named.trans ranks'.named.symm, ?_, ?_,
    ranks.unique, ?_⟩
  · rw [perm_ext_iff_of_nodup ranks.unique.of_map ranks'.unique.of_map]
    intro entry
    constructor
    · exact clear.entry_mem arranged ranks ranks'
    · exact (clear.of_perm arranged).entry_mem arranged.symm ranks' ranks
  · intro entry member
    obtain ⟨row, there, parent⟩ := ranks.drawn entry member
    rw [← parent]
    exact ranks.usable row there
  · intro v first w second same
    obtain ⟨row, there, rfl⟩ := drawn v first
    obtain ⟨row', there', rfl⟩ := drawn w second
    exact clear.identical row there row' there' field (by simp) same

theorem ofRows_related :
    Outcome.Related Alike (ofRows visit field ref rows) (ofRows visit field ref others) := by
  by_cases usable : ∀ row ∈ rows, (row.project visit.scope).all hashable
  · obtain ⟨selection, made⟩ := clear.exists_selection usable
    obtain ⟨selection', made'⟩ := (clear.of_perm arranged).exists_selection fun row member =>
      usable row (arranged.symm.subset member)
    rw [made, made']
    exact .ok (clear.alike arranged made made')
  · have refused (list : List Row) (unusable : ¬ ∀ row ∈ list,
        (row.project visit.scope).all hashable) :
        ofRows visit field ref list = Outcome.wrongType := by
      unfold ofRows
      rw [if_neg]
      rwa [all_map, all_eq_true]
    rw [refused rows usable, refused others fun all => usable fun row member =>
      all row (arranged.subset member)]
    exact .error _

end Clear

end Selection

end Crosstab
