import Crosstab.Controller
import Mathlib.Data.List.Basic

/-!
# The places of a wave

Queries take places and give them away to the first in line. No change makes a place or loses one,
and what else it leaves alone is said by `Wave.Frame`.
-/
namespace Crosstab

open List

namespace Stage

/-- Keeps a place from the others. -/
def holdsPlace : Stage → Bool
  | fresh | waiting | withdrawn false | done _ => false
  | _ => true

/-- Holds a place and has left the line. -/
def isSeated (stage : Stage) : Bool := stage.holdsPlace && !stage.isInLine

variable {stage : Stage}

theorem holdsPlace_of_seated (seated : stage.isSeated) : stage.holdsPlace := by
  simp only [isSeated, Bool.and_eq_true] at seated
  exact seated.1

theorem out_of_seated (seated : stage.isSeated) : stage.isInLine = false := by
  simp only [isSeated, Bool.and_eq_true, Bool.not_eq_true'] at seated
  exact seated.2

theorem not_done_of_seated (seated : stage.isSeated) : stage.isDone = false := by
  cases stage <;> simp_all [isSeated, holdsPlace, isDone]

end Stage

/-! ### Waves under changes of a stage -/

namespace Wave

open Stage (holdsPlace isDone isInLine isSeated isWaiting holdsPlace_of_seated not_done_of_seated
  out_of_seated)

variable {wave : Wave} {index other : Nat} {next : Stage}

def queries (wave : Wave) : List GroupingQuery := wave.inquiries.map Inquiry.query

/-- How many queries are at a stage of some kind. -/
def count (wave : Wave) (test : Stage → Bool) : Nat :=
  wave.inquiries.countP fun inquiry => test inquiry.stage

@[simp] theorem free_setStage : (wave.setStage index next).free = wave.free := rfl

@[simp] theorem stage_takePlace : wave.takePlace.stage other = wave.stage other := rfl

theorem setStage_takePlace :
    wave.takePlace.setStage index next = (wave.setStage index next).takePlace := rfl

theorem stage_of_getElem? {inquiry : Inquiry} (there : wave.inquiries[index]? = some inquiry) :
    wave.stage index = inquiry.stage := by
  simp [stage, there]

theorem stage_of_length_le (beyond : wave.inquiries.length ≤ index) :
    wave.stage index = .done .withdrawn := by
  simp [stage, getElem?_eq_none beyond]

theorem lt_length_of_stage (different : wave.stage index ≠ .done .withdrawn) :
    index < wave.inquiries.length := by
  by_contra beyond
  exact different (stage_of_length_le (by omega))

theorem lt_length_of_seated (seated : (wave.stage index).isSeated) :
    index < wave.inquiries.length := by
  refine lt_length_of_stage fun done => ?_
  simp [done, isSeated, holdsPlace] at seated

theorem stage_setStage_self (inside : index < wave.inquiries.length) :
    (wave.setStage index next).stage index = next := by
  simp [stage, setStage, getElem?_eq_getElem inside]

theorem stage_setStage_of_ne (different : other ≠ index) :
    (wave.setStage index next).stage other = wave.stage other := by
  simp [stage, setStage, different.symm]

theorem setStage_stage : wave.setStage index (wave.stage index) = wave := by
  cases wave with
  | mk inquiries _ _ _ _ =>
    simp only [setStage, Wave.mk.injEq, and_self, and_true]
    apply ext_getElem?
    intro i
    by_cases same : index = i
    · subst same
      cases there : inquiries[index]? <;> simp [there, stage]
    · simp [same]

@[simp] theorem queries_setStage : (wave.setStage index next).queries = wave.queries := by
  apply ext_getElem?
  intro i
  by_cases same : index = i
  · simp [queries, setStage, same, Function.comp_def]
  · simp [queries, setStage, same]

private theorem countP_modify_add {α : Type} (test : α → Bool) (change : α → α) (xs : List α) (i : Nat)
    {x : α} (there : xs[i]? = some x) :
    (xs.modify i change).countP test + (test x).toNat =
      xs.countP test + (test (change x)).toNat := by
  induction xs generalizing i with
  | nil => simp at there
  | cons y ys ih =>
    cases i with
    | zero =>
      obtain rfl : y = x := by simpa using there
      simp only [modify_zero_cons, countP_cons]
      cases test y <;> cases test (change y) <;> simp
    | succ i =>
      have rest := ih i (by simpa using there)
      simp only [modify_succ_cons, countP_cons]
      omega

theorem count_setStage (test : Stage → Bool) (next : Stage) (inside : index < wave.inquiries.length) :
    (wave.setStage index next).count test + (test (wave.stage index)).toNat =
      wave.count test + (test next).toNat := by
  have there := getElem?_eq_getElem inside
  rw [stage_of_getElem? there]
  exact countP_modify_add (fun inquiry => test inquiry.stage) _ wave.inquiries index there

variable {test : Stage → Bool} {dues : List Due} {ending : Ending}

/-- Stages of one kind are exchanged without a change of the count. -/
theorem count_setStage_of_eq (inside : index < wave.inquiries.length)
    (same : test next = test (wave.stage index)) :
    (wave.setStage index next).count test = wave.count test := by
  have counted := count_setStage test next inside
  rw [same] at counted
  omega

theorem count_pos_iff : 0 < wave.count test ↔ ∃ i < wave.inquiries.length, test (wave.stage i) := by
  rw [count, countP_pos_iff]
  constructor
  · rintro ⟨inquiry, member, holds⟩
    obtain ⟨i, inside, rfl⟩ := getElem_of_mem member
    exact ⟨i, inside, by rwa [stage_of_getElem? (getElem?_eq_getElem inside)]⟩
  · rintro ⟨i, inside, holds⟩
    rw [stage_of_getElem? (getElem?_eq_getElem inside)] at holds
    exact ⟨_, getElem_mem inside, holds⟩

theorem count_le_length : wave.count test ≤ wave.inquiries.length := countP_le_length

theorem count_eq_length_iff :
    wave.count test = wave.inquiries.length ↔ ∀ i < wave.inquiries.length, test (wave.stage i) := by
  rw [count, countP_eq_length]
  constructor
  · intro all i inside
    rw [stage_of_getElem? (getElem?_eq_getElem inside)]
    exact all _ (getElem_mem inside)
  · intro all inquiry member
    obtain ⟨i, inside, rfl⟩ := getElem_of_mem member
    have holds := all i inside
    rwa [stage_of_getElem? (getElem?_eq_getElem inside)] at holds

theorem count_le_count {narrow wide : Stage → Bool}
    (included : ∀ stage, narrow stage → wide stage) : wave.count narrow ≤ wave.count wide :=
  countP_mono_left fun _ _ => included _

/-! ### Places -/

/-- A place goes to somebody in line, or is free where nobody waits. -/
theorem givePlace_cases (wave : Wave) :
    (∃ next, wave.stage next = .waiting ∧
      wave.givePlace = (wave.setStage next .placed, [(next, .query)])) ∨
    ((∀ i, wave.stage i ≠ .waiting) ∧
      wave.givePlace = ({ wave with free := wave.free.map (· + 1) }, [])) := by
  unfold givePlace
  split
  next next found =>
    obtain ⟨inside, waits, _⟩ := findIdx?_eq_some_iff_getElem.mp found
    refine .inl ⟨next, ?_, rfl⟩
    rw [stage_of_getElem? (getElem?_eq_getElem inside)]
    cases h : wave.inquiries[next].stage <;> simp_all [isWaiting]
  next absent =>
    refine .inr ⟨fun i waits => ?_, rfl⟩
    have inside : i < wave.inquiries.length := lt_length_of_stage (by simp [waits])
    have nobody := findIdx?_eq_none_iff.mp absent _ (getElem_mem inside)
    rw [stage_of_getElem? (getElem?_eq_getElem inside)] at waits
    simp [waits, isWaiting] at nobody

/-- A free place is passed on to somebody in line, or there is none to pass on. -/
theorem passPlace_cases (wave : Wave) :
    (∃ next free, wave.free = some (free + 1) ∧ wave.stage next = .waiting ∧
      wave.passPlace = (wave.takePlace.setStage next .placed, [(next, .query)])) ∨
    (((∀ i, wave.stage i ≠ .waiting) ∨ wave.free = some 0 ∨ wave.free = none) ∧
      wave.passPlace = (wave, [])) := by
  unfold passPlace
  split
  next free some =>
    rcases givePlace_cases wave.takePlace with ⟨next, waits, given⟩ | ⟨nobody, given⟩
    · exact .inl ⟨next, free, some, waits, given⟩
    · refine .inr ⟨.inl nobody, ?_⟩
      rw [given]
      cases wave with
      | mk inquiries _ _ _ _ => cases some; rfl
  next none =>
    refine .inr ⟨.inr ?_, rfl⟩
    cases h : wave.free with
    | none => exact .inr rfl
    | some free =>
      cases free with
      | zero => exact .inl rfl
      | succ free => exact absurd h (none free)

theorem passPlace_of_out (out : (wave.stage index).isInLine = false) :
    wave.passPlace.1.stage index = wave.stage index ∧ ∀ due, (index, due) ∉ wave.passPlace.2 := by
  rcases passPlace_cases wave with ⟨caller, _, _, waits, passed⟩ | ⟨_, passed⟩
  · have different : index ≠ caller := by
      rintro rfl
      simp [waits, isInLine] at out
    rw [passed, stage_setStage_of_ne different]
    exact ⟨rfl, by simp [different]⟩
  · rw [passed]
    exact ⟨rfl, by simp⟩

/-! ### What a change leaves alone -/

/-- All places, whether they are free or held; without a limit, none are counted. -/
def places (wave : Wave) : Option Nat := wave.free.map (· + wave.count holdsPlace)

/-- What a change for one query leaves alone. Of the others, those in line may be called. -/
structure Frame (index : Nat) (wave changed : Wave) (turns : Turns) : Prop where
  queries : changed.queries = wave.queries
  reported : changed.reported = wave.reported
  ending : changed.ending = wave.ending
  revoked : changed.revoked = wave.revoked
  places : changed.places = wave.places
  others : ∀ i ≠ index, changed.stage i = wave.stage i ∨
    (wave.stage i = .waiting ∧ changed.stage i = .placed ∧ (i, .query) ∈ turns)
  reports : ∀ i, (i, .report) ∈ turns → i = index
  ended : changed.count isDone = wave.count isDone + turns.countP fun turn => turn.2 == .report

theorem Frame.trans {between changed : Wave} {turns more : Turns}
    (first : Frame index wave between turns) (second : Frame index between changed more) :
    Frame index wave changed (turns ++ more) where
  queries := second.queries.trans first.queries
  reported := second.reported.trans first.reported
  ending := second.ending.trans first.ending
  revoked := second.revoked.trans first.revoked
  places := second.places.trans first.places
  others := by
    intro i different
    rcases first.others i different with same | ⟨waits, called, due⟩
    · rcases second.others i different with same' | ⟨waits, called, due⟩
      · exact .inl (same'.trans same)
      · exact .inr ⟨same ▸ waits, called, mem_append_right _ due⟩
    · rcases second.others i different with same' | ⟨waits', _⟩
      · exact .inr ⟨waits, same'.trans called, mem_append_left _ due⟩
      · simp [called] at waits'
  reports := by
    intro i due
    exact (mem_append.mp due).elim (first.reports i) (second.reports i)
  ended := by
    rw [second.ended, first.ended, countP_append, Nat.add_assoc]

theorem Frame.refl : Frame index wave wave [] where
  queries := rfl
  reported := rfl
  ending := rfl
  revoked := rfl
  places := rfl
  others := fun _ _ => .inl rfl
  reports := by simp
  ended := rfl

/-- A query goes to another stage, and neither takes or gives a place nor ends. -/
theorem frame_setStage (inside : index < wave.inquiries.length)
    (sameHold : next.holdsPlace = (wave.stage index).holdsPlace)
    (sameEnd : next.isDone = (wave.stage index).isDone) (quiet : .report ∉ dues) :
    Frame index wave (wave.setStage index next) (dues.map fun due => (index, due)) where
  queries := queries_setStage
  reported := rfl
  ending := rfl
  revoked := rfl
  places := by rw [places, places, count_setStage_of_eq inside sameHold, free_setStage]
  others := fun i different => .inl (stage_setStage_of_ne different)
  reports := by simp [quiet]
  ended := by
    rw [count_setStage_of_eq inside sameEnd, countP_eq_zero.mpr, Nat.add_zero]
    intro turn member
    obtain ⟨due, there, rfl⟩ := mem_map.mp member
    simp only [beq_iff_eq]
    exact fun same => quiet (same ▸ there)

theorem frame_keep (seated : (wave.stage index).isSeated) (seated' : next.isSeated)
    (quiet : .report ∉ dues) :
    Frame index wave (wave.setStage index next) (dues.map fun due => (index, due)) :=
  frame_setStage (lt_length_of_seated seated)
    (by rw [holdsPlace_of_seated seated, holdsPlace_of_seated seated'])
    (by rw [not_done_of_seated seated, not_done_of_seated seated']) quiet

theorem frame_drop (withdrawn : wave.stage index = .withdrawn false) (ending : Ending) :
    Frame index wave (wave.setStage index (.done ending)) [(index, .report)] := by
  have inside : index < wave.inquiries.length := lt_length_of_stage (by simp [withdrawn])
  have ended := count_setStage isDone (.done ending) inside
  exact {
    queries := queries_setStage
    reported := rfl
    ending := rfl
    revoked := rfl
    places := by
      rw [places, places, free_setStage, count_setStage_of_eq inside (by simp [withdrawn, holdsPlace])]
    others := fun i different => .inl (stage_setStage_of_ne different)
    reports := by simp
    ended := by simpa [withdrawn, isDone] using ended }

theorem frame_enter (fresh : wave.stage index = .fresh) (room : wave.admits) :
    Frame index wave (wave.takePlace.setStage index (.put false)) [] := by
  have inside : index < wave.inquiries.length := lt_length_of_stage (by simp [fresh])
  have held := count_setStage holdsPlace (.put false) inside
  have ended := count_setStage isDone (.put false) inside
  simp only [fresh, holdsPlace, isDone, Bool.toNat_false, Bool.toNat_true] at held ended
  rw [setStage_takePlace]
  exact {
    queries := queries_setStage
    reported := rfl
    ending := rfl
    revoked := rfl
    places := by
      change ((wave.free.map (· - 1)).map (· + (wave.setStage index (.put false)).count _)) = _
      rw [places]
      cases limit : wave.free with
      | none => rfl
      | some free =>
        have some : free ≠ 0 := by rintro rfl; simp [admits, limit] at room
        simp only [Option.map_some, Option.some.injEq]
        omega
    others := fun i different => .inl (stage_setStage_of_ne different)
    reports := by simp
    ended := ended }

/-- Somebody in line is called, and the others stay where they are. -/
theorem stage_call {caller : Nat} (waits : wave.stage caller = .waiting) (i : Nat) :
    (wave.setStage caller .placed).stage i = wave.stage i ∨
      (wave.stage i = .waiting ∧ (wave.setStage caller .placed).stage i = .placed ∧
        (i, Due.query) ∈ [(caller, Due.query)]) := by
  by_cases same : i = caller
  · subst same
    exact .inr ⟨waits, stage_setStage_self (lt_length_of_stage (by simp [waits])), by simp⟩
  · exact .inl (stage_setStage_of_ne same)

private theorem frame_passPlace : Frame index wave wave.passPlace.1 wave.passPlace.2 := by
  rcases passPlace_cases wave with ⟨caller, free, some, waits, passed⟩ | ⟨_, passed⟩
  · have inside : caller < wave.inquiries.length := lt_length_of_stage (by simp [waits])
    have held := count_setStage holdsPlace .placed inside
    have ended := count_setStage isDone .placed inside
    simp only [waits, holdsPlace, isDone, Bool.toNat_false, Bool.toNat_true] at held ended
    rw [passed, setStage_takePlace]
    exact {
      queries := queries_setStage
      reported := rfl
      ending := rfl
      revoked := rfl
      places := by
        change ((wave.free.map (· - 1)).map (· + (wave.setStage caller .placed).count _)) = _
        rw [places, some]
        simp only [Option.map_some, Option.some.injEq]
        omega
      others := fun i _ => stage_call waits i
      reports := by simp
      ended := ended }
  · rw [passed]
    exact .refl

theorem frame_follow (placed : wave.stage index = .placed) :
    Frame index wave (wave.setStage index (.put false)).passPlace.1
      (wave.setStage index (.put false)).passPlace.2 := by
  have inside : index < wave.inquiries.length := lt_length_of_stage (by simp [placed])
  have left : Frame index wave (wave.setStage index (.put false)) [] :=
    frame_setStage inside (by simp [placed, holdsPlace]) (by simp [placed, isDone])
      not_mem_nil
  exact left.trans frame_passPlace

/-- A place that is given away is one more, held or free; else nothing changes but for somebody in
line, who may be called. -/
theorem givePlace_spec (wave : Wave) :
    wave.givePlace.1.queries = wave.queries ∧ wave.givePlace.1.reported = wave.reported ∧
    wave.givePlace.1.ending = wave.ending ∧ wave.givePlace.1.revoked = wave.revoked ∧
    wave.givePlace.1.places = wave.places.map (· + 1) ∧
    wave.givePlace.1.count isDone = wave.count isDone ∧ (∀ i, (i, .report) ∉ wave.givePlace.2) ∧
    ∀ i, wave.givePlace.1.stage i = wave.stage i ∨
      (wave.stage i = .waiting ∧ wave.givePlace.1.stage i = .placed ∧ (i, .query) ∈ wave.givePlace.2) := by
  rcases givePlace_cases wave with ⟨caller, waits, given⟩ | ⟨_, given⟩
  · have inside : caller < wave.inquiries.length := lt_length_of_stage (by simp [waits])
    have held := count_setStage holdsPlace .placed inside
    have ended := count_setStage isDone .placed inside
    simp only [waits, holdsPlace, isDone, Bool.toNat_false, Bool.toNat_true,
      Nat.add_zero] at held ended
    rw [given]
    refine ⟨queries_setStage, rfl, rfl, rfl, ?_, ended, by simp, stage_call waits⟩
    simp only [places, free_setStage, held, Option.map_map, Function.comp_def, Nat.add_assoc]
  · rw [given]
    refine ⟨rfl, rfl, rfl, rfl, ?_, rfl, by simp, fun i => .inl rfl⟩
    simp only [places, Option.map_map]
    congr 1
    funext free
    simp only [Function.comp_apply, count]
    omega

section

variable (seated : (wave.stage index).isSeated)
include seated

theorem stage_givePlace_of_seated : wave.givePlace.1.stage index = wave.stage index := by
  rcases (givePlace_spec wave).2.2.2.2.2.2.2 index with same | ⟨waits, _⟩
  · exact same
  · simp [waits, isSeated, holdsPlace] at seated

theorem stage_settle : (wave.settle index ending).1.stage index = .done ending :=
  stage_setStage_self (lt_length_of_seated (stage_givePlace_of_seated seated ▸ seated))

theorem mem_settle_iff {due : Due} :
    (index, due) ∈ (wave.settle index ending).2 ↔ due ∈ [Due.report] := by
  have absent : (index, due) ∉ wave.givePlace.2 := by
    rcases givePlace_cases wave with ⟨caller, waits, given⟩ | ⟨_, given⟩
    · rw [given, mem_singleton, Prod.mk.injEq]
      rintro ⟨rfl, _⟩
      simp [waits, isSeated, holdsPlace] at seated
    · simp [given]
  simp [settle, absent]

theorem frame_settle (ending : Ending) :
    Frame index wave (wave.settle index ending).1 (wave.settle index ending).2 := by
  obtain ⟨sameQueries, sameReported, sameEnding, sameRevoked, oneMore, sameEnded, quiet, each⟩ :=
    givePlace_spec wave
  have own := stage_givePlace_of_seated seated
  have inside := lt_length_of_seated (own ▸ seated)
  have held := count_setStage holdsPlace (.done ending) inside
  have ended := count_setStage isDone (.done ending) inside
  rw [own, holdsPlace_of_seated seated] at held
  rw [own, not_done_of_seated seated, sameEnded] at ended
  simp only [holdsPlace, isDone, Bool.toNat_false, Bool.toNat_true, Nat.add_zero] at held ended
  exact {
    queries := queries_setStage.trans sameQueries
    reported := sameReported
    ending := sameEnding
    revoked := sameRevoked
    places := by
      -- The place that was given away is the one that the query held.
      change wave.givePlace.1.free.map
        (· + (wave.givePlace.1.setStage index (.done ending)).count holdsPlace) = _
      rw [places, ← held] at oneMore
      cases free : wave.givePlace.1.free <;> cases all : wave.places <;>
        simp_all only [Option.map_none, Option.map_some, reduceCtorEq, Option.some.injEq]
      omega
    others := by
      intro i different
      rw [settle, stage_setStage_of_ne different]
      exact (each i).imp_right fun ⟨waits, called, due⟩ => ⟨waits, called, mem_append_left _ due⟩
    reports := by
      intro i due
      rcases mem_append.mp due with given | own
      · exact absurd given (quiet i)
      · simpa using own
    ended := by
      have noReport : wave.givePlace.2.countP (fun turn => turn.2 == .report) = 0 := by
        rw [countP_eq_zero]
        rintro ⟨i, due⟩ given
        simp only [beq_iff_eq]
        rintro rfl
        exact quiet i given
      simp only [settle, countP_append, noReport]
      simpa using ended }

end

/-! ### The line -/

/-- Nobody stands in line without need: somebody else holds the last place, or was just called and will
pass on what is free. -/
structure Line (wave : Wave) : Prop where
  limited : wave.free = none → ∀ i, (wave.stage i).isInLine = false
  moving : ∀ i, wave.stage i = .waiting → wave.free = some 0 ∨ ∃ j, wave.stage j = .placed

namespace Line

variable (line : wave.Line)
include line

theorem setStage (inside : index < wave.inquiries.length)
    (out : (wave.stage index).isInLine = false) (out' : next.isInLine = false) :
    (wave.setStage index next).Line where
  limited := by
    intro none i
    by_cases same : i = index
    · rwa [same, stage_setStage_self inside]
    · rw [stage_setStage_of_ne same]
      exact line.limited none i
  moving := by
    intro i waits
    by_cases same : i = index
    · rw [same, stage_setStage_self inside] at waits
      simp [waits, isInLine] at out'
    · rw [stage_setStage_of_ne same] at waits
      refine (line.moving i waits).imp_right fun ⟨j, placed⟩ => ⟨j, ?_⟩
      rw [stage_setStage_of_ne, placed]
      rintro rfl
      simp [placed, isInLine] at out

theorem keep (seated : (wave.stage index).isSeated)
    (seated' : next.isSeated) : (wave.setStage index next).Line :=
  line.setStage (lt_length_of_seated seated) (out_of_seated seated) (out_of_seated seated')

theorem wait (fresh : wave.stage index = .fresh) (full : wave.admits = false) :
    (wave.setStage index .waiting).Line := by
  have inside : index < wave.inquiries.length := lt_length_of_stage (by simp [fresh])
  have reason : wave.free = some 0 ∨ ∃ i, (wave.stage i).isInLine := by
    rcases Bool.and_eq_false_iff.mp full with taken | queued
    · exact .inl (by simpa using taken)
    · obtain ⟨inquiry, member, inLine⟩ : ∃ inquiry ∈ wave.inquiries, inquiry.stage.isInLine = true := by
        simpa using queued
      obtain ⟨i, there⟩ := getElem?_of_mem member
      exact .inr ⟨i, by rwa [stage_of_getElem? there]⟩
  have stays {i : Nat} (inLine : (wave.stage i).isInLine) : i ≠ index := by
    rintro rfl
    simp [fresh, isInLine] at inLine
  exact {
    limited := by
      intro unlimited
      rw [free_setStage] at unlimited
      rcases reason with taken | ⟨i, inLine⟩
      · simp [unlimited] at taken
      · simp [line.limited unlimited i] at inLine
    moving := by
      intro _ _
      rcases reason with taken | ⟨i, inLine⟩
      · exact .inl taken
      · cases stage : wave.stage i with
        | waiting =>
          refine (line.moving i stage).imp_right fun ⟨j, placed⟩ => ⟨j, ?_⟩
          rwa [stage_setStage_of_ne (stays (by simp [placed, isInLine]))]
        | placed => exact .inr ⟨i, by rwa [stage_setStage_of_ne (stays inLine)]⟩
        | _ => simp [stage, isInLine] at inLine }

omit line in
theorem enter (room : wave.admits) (fresh : wave.stage index = .fresh) :
    (wave.takePlace.setStage index (.put false)).Line := by
  have nobody : ∀ i, ((wave.takePlace.setStage index (.put false)).stage i).isInLine = false := by
    intro i
    by_cases same : i = index
    · rw [same, stage_setStage_self (lt_length_of_stage (by simp [fresh]))]
      rfl
    · rw [stage_setStage_of_ne same, stage_takePlace]
      simp only [admits, Bool.and_eq_true, Bool.not_eq_true', any_eq_false] at room
      by_cases inside : i < wave.inquiries.length
      · rw [stage_of_getElem? (getElem?_eq_getElem inside)]
        simpa using room.2 _ (getElem_mem inside)
      · rw [stage_of_length_le (by omega)]
        rfl
  refine ⟨fun _ => nobody, fun i waits => ?_⟩
  have out := nobody i
  simp [waits, isInLine] at out

theorem follow (placed : wave.stage index = .placed) :
    (wave.setStage index (.put false)).passPlace.1.Line := by
  have limit : wave.free ≠ none := fun none => by
    simpa [placed, isInLine] using line.limited none index
  rcases passPlace_cases (wave.setStage index (.put false)) with
    ⟨caller, free, _, waits, passed⟩ | ⟨reason, passed⟩
  · rw [passed]
    refine ⟨fun none => ?_, fun _ _ => .inr ⟨caller, ?_⟩⟩
    · exact absurd (Option.map_eq_none_iff.mp none) limit
    · exact stage_setStage_self (lt_length_of_stage (by simp [waits]))
  · rw [passed]
    refine ⟨fun none => absurd none limit, fun i waits => ?_⟩
    rcases reason with nobody | taken | none
    · exact absurd waits (nobody i)
    · exact .inl taken
    · exact absurd none limit

private theorem givePlace : wave.givePlace.1.Line := by
  rcases givePlace_cases wave with ⟨caller, waits, given⟩ | ⟨nobody, given⟩
  · rw [given]
    refine ⟨fun none => ?_, fun _ _ => .inr ⟨caller, ?_⟩⟩
    · simpa [waits, isInLine] using line.limited none caller
    · exact stage_setStage_self (lt_length_of_stage (by simp [waits]))
  · rw [given]
    exact ⟨fun none => line.limited (by simpa using none), fun i waits => absurd waits (nobody i)⟩

theorem settle (seated : (wave.stage index).isSeated) (ending : Ending) :
    (wave.settle index ending).1.Line := by
  have own := stage_givePlace_of_seated seated
  exact line.givePlace.setStage (lt_length_of_seated (own ▸ seated))
    (own ▸ out_of_seated seated) rfl

end Line

end Wave

end Crosstab
